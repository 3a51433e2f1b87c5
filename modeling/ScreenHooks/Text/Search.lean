/-
Searching and replacing in texts.

A text is a list of characters here; `contains`, `replaceAll` and `splitAt`
are also given on `String`.

* **`replaceAll_of_not_contains`** — a text without the old part is kept;
* **`splitBy_append`** — a separator splits a text into the parts of its two
  sides.
-/

namespace ScreenHooks.Text

/-! ### Searching -/

/-- Whether `part` occurs in the text. -/
def containsChars (part : List Char) : List Char → Bool
  | [] => part.isEmpty
  | c :: r => part.isPrefixOf (c :: r) || containsChars part r

/-- Whether `part` occurs in `s`; the empty text occurs everywhere. -/
def contains (s part : String) : Bool := containsChars part.toList s.toList

/-! ### Replacing -/

/-- Replaces the occurrences of a nonempty `old`, from the left and without
overlap; the first argument counts the characters of an occurrence that are
still to be dropped. -/
def replaceFrom (old new : List Char) : Nat → List Char → List Char
  | _, [] => []
  | k + 1, _ :: r => replaceFrom old new k r
  | 0, c :: r =>
    if old.isPrefixOf (c :: r) then new ++ replaceFrom old new (old.length - 1) r
    else c :: replaceFrom old new 0 r

/-- Replaces every occurrence of `old`. The empty `old` stands before every
character and at the end. -/
def replaceAllChars (old new cs : List Char) : List Char :=
  if old.isEmpty then new ++ cs.flatMap (fun c => c :: new) else replaceFrom old new 0 cs

/-- Replaces every occurrence of `old` in `s` by `new`. -/
def replaceAll (s old new : String) : String :=
  String.ofList (replaceAllChars old.toList new.toList s.toList)

theorem replaceFrom_of_not_contains (old new : List Char) (cs : List Char)
    (h : containsChars old cs = false) : replaceFrom old new 0 cs = cs := by
  induction cs with
  | nil => rfl
  | cons c r ih =>
    simp only [containsChars, Bool.or_eq_false_iff] at h
    simp [replaceFrom, h.1, ih h.2]

theorem replaceAll_of_not_contains (old new : List Char) (cs : List Char)
    (hold : old ≠ []) (h : containsChars old cs = false) :
    replaceAllChars old new cs = cs := by
  rw [replaceAllChars, if_neg (by simpa using hold), replaceFrom_of_not_contains _ _ _ h]

/-! ### Splitting -/

/-- The parts between the characters that satisfy `p`; there is always one
part more than separators. -/
def splitBy (p : Char → Bool) : List Char → List (List Char)
  | [] => [[]]
  | c :: r =>
    if p c then [] :: splitBy p r
    else match splitBy p r with
      | [] => [[c]]
      | part :: parts => (c :: part) :: parts

theorem splitBy_ne_nil (p : Char → Bool) (cs : List Char) : splitBy p cs ≠ [] := by
  cases cs with
  | nil => simp [splitBy]
  | cons c r =>
    simp only [splitBy]
    split
    · simp
    · split <;> simp

theorem splitBy_of_none (p : Char → Bool) (cs : List Char) (h : ∀ c ∈ cs, p c = false) :
    splitBy p cs = [cs] := by
  induction cs with
  | nil => rfl
  | cons c r ih =>
    simp [splitBy, h c (by simp), ih fun x hx => h x (by simp [hx])]

theorem splitBy_append (p : Char → Bool) (s t : List Char) (c : Char) (hc : p c = true) :
    splitBy p (s ++ c :: t) = splitBy p s ++ splitBy p t := by
  induction s with
  | nil => simp [splitBy, hc]
  | cons a r ih =>
    simp only [List.cons_append, splitBy, ih]
    split
    · rfl
    · cases h : splitBy p r with
      | nil => exact absurd h (splitBy_ne_nil p r)
      | cons part parts => rfl

/-- The parts of `s` between occurrences of the character `sep`. -/
def splitAt (s : String) (sep : Char) : List String :=
  (splitBy (· == sep) s.toList).map String.ofList

/-! ### Ends -/

/-- The rest of the text after `start`, if it starts so. -/
def dropPrefix? : List Char → List Char → Option (List Char)
  | [], cs => some cs
  | _ :: _, [] => none
  | a :: start, c :: r => if a = c then dropPrefix? start r else none

/-- Whether `s` starts with `start`. -/
def startsWith (s start : String) : Bool := start.toList.isPrefixOf s.toList

/-- Whether `s` ends with `final`. -/
def endsWith (s final : String) : Bool := final.toList.isSuffixOf s.toList

/-- `s` without the occurrences of `c` at its end. -/
def trimEndOf (s : String) (c : Char) : String :=
  String.ofList ((s.toList.reverse.dropWhile (· == c)).reverse)

end ScreenHooks.Text
