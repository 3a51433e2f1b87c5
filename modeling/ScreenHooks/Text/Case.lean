/-
Letter case by the rules of the Unicode standard.

`toLower` maps a whole text, with the contextual rule for the final sigma;
`upperChars` and `lowerChars` map one character, to one or several.

* **`toLower_ascii_letters`** — on ASCII text the maps of core are extended.
-/
import ScreenHooks.Text.CaseTable

namespace ScreenHooks.Text

/-- The image of `n` under the first run that holds it. -/
def caseImage (runs : List CaseRun) (n : Nat) : Nat :=
  (runs.findSome? (·.image? n)).getD n

/-- Whether one of the ranges holds `n`. -/
def inRanges (ranges : List (Nat × Nat)) (n : Nat) : Bool :=
  ranges.any fun (lo, hi) => lo ≤ n && n ≤ hi

/-- The uppercase form of a character. -/
def upperChars (c : Char) : List Char :=
  if c.toNat < 0x80 then [c.toUpper]
  else match upperExpansions.lookup c.toNat with
    | some codes => codes.map Char.ofNat
    | none => [Char.ofNat (caseImage upperRuns c.toNat)]

/-- The lowercase form of a character; only `İ` has one of two characters. -/
def lowerChars (c : Char) : List Char :=
  if c.toNat < 0x80 then [c.toLower]
  else if c.toNat = 0x130 then ['i', Char.ofNat 0x307]
  else [Char.ofNat (caseImage lowerRuns c.toNat)]

/-! ### The final sigma -/

/-- Whether the first character that is not case-ignorable is a cased one. -/
def leadsToCased (cs : List Char) : Bool :=
  match cs.dropWhile (fun c => inRanges caseIgnorableRanges c.toNat) with
  | [] => false
  | c :: _ => inRanges casedRanges c.toNat

/-- Lowercase of the rest of a text whose characters so far, reversed, are the
first argument. A capital sigma that ends a word has a form of its own. -/
def toLowerAfter : List Char → List Char → List Char
  | _, [] => []
  | before, c :: r =>
    (if c = 'Σ' then
      if leadsToCased before && !leadsToCased r then ['ς'] else ['σ']
    else lowerChars c) ++ toLowerAfter (c :: before) r

/-- Lowercase of a text. -/
def toLowerChars (cs : List Char) : List Char := toLowerAfter [] cs

/-- Lowercase of a text. -/
def toLower (s : String) : String := String.ofList (toLowerChars s.toList)

theorem toLowerAfter_ascii (before cs : List Char) (h : ∀ c ∈ cs, c.toNat < 0x80) :
    toLowerAfter before cs = cs.map Char.toLower := by
  induction cs generalizing before with
  | nil => rfl
  | cons c r ih =>
    have hc : c.toNat < 0x80 := h c (by simp)
    have hne : c ≠ 'Σ' := by
      rintro rfl
      exact absurd hc (by decide)
    simp [toLowerAfter, hne, lowerChars, hc, ih _ fun d hd => h d (by simp [hd])]

theorem toLower_ascii_letters (cs : List Char) (h : ∀ c ∈ cs, c.toNat < 0x80) :
    toLowerChars cs = cs.map Char.toLower :=
  toLowerAfter_ascii [] cs h

end ScreenHooks.Text
