/-
Blank characters and trimming.

`isBlank` is the Unicode property White_Space; `trim` removes blanks at both
ends of a text.

* **`trim_of_no_blank_ends`** — a text whose ends are not blank is kept.
-/

namespace ScreenHooks.Text

/-- The characters of the Unicode property White_Space. -/
def isBlank (c : Char) : Bool :=
  let n := c.toNat
  (0x09 ≤ n && n ≤ 0x0D) || n == 0x20 || n == 0x85 || n == 0xA0 || n == 0x1680 ||
    (0x2000 ≤ n && n ≤ 0x200A) || n == 0x2028 || n == 0x2029 || n == 0x202F ||
    n == 0x205F || n == 0x3000

/-- Every ASCII blank is one of them. -/
theorem isBlank_of_isWhitespace (c : Char) (h : c.isWhitespace = true) : isBlank c = true := by
  simp only [Char.isWhitespace, Bool.or_eq_true, decide_eq_true_eq] at h
  rcases h with ((rfl | rfl) | rfl) | rfl <;> decide

/-! ### Trimming -/

/-- Drops the blanks at the front. -/
def trimStart (cs : List Char) : List Char := cs.dropWhile isBlank

/-- Drops the longest run at the end whose members all satisfy `p`. -/
def dropWhileEnd (p : Char → Bool) (cs : List Char) : List Char :=
  (cs.reverse.dropWhile p).reverse

/-- Drops the blanks at both ends. -/
def trim (cs : List Char) : List Char := dropWhileEnd isBlank (trimStart cs)

theorem dropWhileEnd_append_of_neg (p : Char → Bool) (cs : List Char) (c : Char)
    (h : p c = false) : dropWhileEnd p (cs ++ [c]) = cs ++ [c] := by
  simp [dropWhileEnd, h]

theorem trim_of_no_blank_ends (a z : Char) (mid : List Char) (ha : isBlank a = false)
    (hz : isBlank z = false) : trim (a :: (mid ++ [z])) = a :: (mid ++ [z]) := by
  have hstart : trimStart (a :: (mid ++ [z])) = (a :: mid) ++ [z] := by
    simp [trimStart, List.dropWhile, ha]
  rw [trim, hstart, dropWhileEnd_append_of_neg _ _ _ hz]
  rfl

end ScreenHooks.Text
