/-
Quoted script literals.

`unquote` strips one pair of equal quotes; `singleQuoted` writes a literal in
single quotes.

* **`unquote_singleQuoted`** — a text that needs no escape is read back.
-/
import ScreenHooks.Text.Blank

namespace ScreenHooks.Text

/-- The quote characters of a script. -/
def isQuote (c : Char) : Bool := c == '\'' || c == '"' || c == '\x60'

/-- Drops the blanks around a text and then one pair of equal quotes. -/
def unquoteChars (cs : List Char) : List Char :=
  match trim cs with
  | [] => []
  | q :: r =>
    if isQuote q && r.getLast? == some q then r.dropLast else q :: r

/-- Drops the blanks around `s` and then one pair of equal quotes. -/
def unquote (s : String) : String := String.ofList (unquoteChars s.toList)

/-- Writes a backslash before every backslash and single quote. -/
def escapeSingle (cs : List Char) : List Char :=
  cs.flatMap fun c => if c = '\\' ∨ c = '\'' then ['\\', c] else [c]

/-- The literal of `s` in single quotes. -/
def singleQuoted (s : String) : String :=
  String.ofList ('\'' :: (escapeSingle s.toList ++ ['\'']))

theorem escapeSingle_of_plain (cs : List Char) (h : ∀ c ∈ cs, c ≠ '\\' ∧ c ≠ '\'') :
    escapeSingle cs = cs := by
  induction cs with
  | nil => rfl
  | cons c r ih =>
    have hc := h c (by simp)
    have hr := ih fun d hd => h d (by simp [hd])
    simp only [escapeSingle, List.flatMap_cons] at hr ⊢
    rw [hr, if_neg (by simp [hc])]
    rfl

theorem unquote_singleQuoted (s : String) (h : ∀ c ∈ s.toList, c ≠ '\\' ∧ c ≠ '\'') :
    unquote (singleQuoted s) = s := by
  have hq : isBlank '\'' = false := by decide
  have htrim := trim_of_no_blank_ends '\'' '\'' s.toList hq hq
  simp [unquote, singleQuoted, unquoteChars, escapeSingle_of_plain _ h, htrim, isQuote]

end ScreenHooks.Text
