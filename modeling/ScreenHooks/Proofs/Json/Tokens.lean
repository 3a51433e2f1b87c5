/-
Strings and integers, written and read back.

A quoted string is read back whole. An integer of 64 bits is read back from its
digits where no more of a number follows, and every integer that is read is one
of these.

* **`readString_quote`** — quoted strings;
* **`readNumber_textOfInt`**, **`readNumber_integer`** — integers.
-/
import ScreenHooks.Decimal.Text
import ScreenHooks.Json.Printer
import ScreenHooks.Json.Reader

namespace ScreenHooks.Json

open Decimal

/-! ### Strings -/

theorem hexUnit_hexDigit :
    ∀ n < 32, hexUnit? '0' '0' (hexDigit (n / 16)) (hexDigit (n % 16)) = some n := by decide

/-- A character is read back from its place inside a string. -/
theorem readString_escapeChar (c : Char) (cs : List Char) :
    readString (escapeChar c ++ cs) =
      (readString cs).map fun (text, rest) => (c :: text, rest) := by
  unfold escapeChar
  by_cases hquote : c = '"'
  · subst hquote
    simp [readString, escaped?]
  by_cases hback : c = '\\'
  · subst hback
    simp [readString, escaped?]
  by_cases hb : c = '\x08'
  · subst hb
    simp [readString, escaped?]
  by_cases ht : c = '\t'
  · subst ht
    simp [readString, escaped?]
  by_cases hn : c = '\n'
  · subst hn
    simp [readString, escaped?]
  by_cases hf : c = '\x0c'
  · subst hf
    simp [readString, escaped?]
  by_cases hr : c = '\r'
  · subst hr
    simp [readString, escaped?]
  simp only [hquote, hback, hb, ht, hn, hf, hr, if_false]
  by_cases hcontrol : c.toNat < 0x20
  · -- the code unit of a control character is no surrogate
    have hunit := hexUnit_hexDigit c.toNat hcontrol
    have hlow : ¬ (0xDC00 ≤ c.toNat ∧ c.toNat ≤ 0xDFFF) := by omega
    have hhigh : ¬ (0xD800 ≤ c.toNat ∧ c.toNat ≤ 0xDBFF) := by omega
    rw [if_pos hcontrol]
    simp only [List.cons_append, List.nil_append]
    rw [readString]
    simp only [hunit, hlow, hhigh, if_false, Char.ofNat_toNat]
  · have hkept : ¬ (c.toNat < 0x20 ∨ c = '\\') := by simp [hcontrol, hback]
    rw [if_neg hcontrol, List.singleton_append, readString.eq_def]
    split
    next heq => cases heq
    next heq => exact absurd (List.cons.inj heq).1 hquote
    next heq => exact absurd (List.cons.inj heq).1 hback
    next heq => exact absurd (List.cons.inj heq).1 hback
    next heq =>
      obtain ⟨rfl, rfl⟩ := List.cons.inj heq
      rw [if_neg hkept]

/-- A quoted string is read back. -/
theorem readString_quote (s : String) (rest : List Char) :
    readString (s.toList.flatMap escapeChar ++ '"' :: rest) = some (s.toList, rest) := by
  induction s.toList with
  | nil => rfl
  | cons c cs ih =>
    rw [List.flatMap_cons, List.append_assoc, readString_escapeChar, ih]
    rfl

/-! ### Digits -/

theorem isDigit_digitsOf {n : Nat} {c : Char} (h : c ∈ digitsOf n) : c.isDigit = true :=
  Nat.isDigit_of_mem_toDigits (by decide) (by decide) h

theorem digitsOf_ne_nil (n : Nat) : digitsOf n ≠ [] := List.ne_nil_of_length_pos (digitsOf_length n)

theorem digitsOf_small {n : Nat} (h : n < 10) : digitsOf n = [n.digitChar] :=
  Nat.toDigits_of_lt_base h

theorem digitsOf_large {n : Nat} (h : 10 ≤ n) :
    digitsOf n = digitsOf (n / 10) ++ [(n % 10).digitChar] :=
  Nat.toDigits_of_base_le (by decide) h

theorem digitValue_digitChar : ∀ n < 10, digitValue n.digitChar = n := by decide

/-- Only zero has a zero for its first digit. -/
theorem digitsOf_head {n : Nat} (h : (digitsOf n).head? = some '0') : n = 0 := by
  induction n using Nat.strongRecOn with
  | ind n ih =>
    by_cases hsmall : n < 10
    · have hzero : ∀ m < 10, m.digitChar = '0' → m = 0 := by decide
      rw [digitsOf_small hsmall] at h
      exact hzero n hsmall (Option.some.inj h)
    · have hlarge : 10 ≤ n := by omega
      have hhead : (digitsOf (n / 10)).head? = some '0' := by
        rw [digitsOf_large hlarge] at h
        cases hdigits : digitsOf (n / 10) with
        | nil => exact absurd hdigits (digitsOf_ne_nil _)
        | cons c cs =>
          rw [hdigits] at h
          exact h
      have := ih (n / 10) (by omega) hhead
      omega

/-- All digits of a number of 64 bits fit the significand. -/
theorem extend_digitsOf {n : Nat} (h : n < UInt64.size) :
    Digits.extend ⟨0, 0, 0⟩ (digitsOf n) = ⟨n, (digitsOf n).length, 0⟩ := by
  induction n using Nat.strongRecOn with
  | ind n ih =>
    by_cases hsmall : n < 10
    · rw [digitsOf_small hsmall]
      simp only [Digits.extend, List.foldl_cons, List.foldl_nil, digitValue_digitChar n hsmall]
      rw [if_pos ⟨trivial, by omega⟩]
      simp
    · have hlarge : 10 ≤ n := by omega
      have hbefore := ih (n / 10) (by omega) (by omega)
      have hlast : n / 10 * 10 + n % 10 = n := by omega
      rw [digitsOf_large hlarge]
      unfold Digits.extend at hbefore ⊢
      rw [List.foldl_append, hbefore]
      simp only [List.foldl_cons, List.foldl_nil, digitValue_digitChar (n % 10) (by omega), hlast]
      rw [if_pos ⟨trivial, h⟩]
      simp

/-- The significand never leaves 64 bits. -/
theorem extend_bounded {start : Digits} (h : start.significand < UInt64.size)
    (digits : List Char) : (Digits.extend start digits).significand < UInt64.size := by
  unfold Digits.extend
  induction digits generalizing start with
  | nil => exact h
  | cons c rest ih =>
    rw [List.foldl_cons]
    refine ih ?_
    simp only []
    split
    next hfits => exact hfits.2
    next => exact h

/-! ### Integers -/

/-- Whether an integer has 64 bits, one of them for the sign if it is negative. -/
def Word (z : Int) : Prop := Int64.minValue.toInt ≤ z ∧ z < UInt64.size

theorem word_iff {z : Int} : Word z ↔ -9223372036854775808 ≤ z ∧ z < 18446744073709551616 := by
  have hleast : Int64.minValue.toInt = -9223372036854775808 := by decide
  rw [Word, hleast]
  rfl

/-- Whether no more of a number can follow. -/
def Ends (rest : List Char) : Prop := ∀ c ∈ rest.head?, c = ',' ∨ c = '\n'

theorem Ends.comma (rest : List Char) : Ends (',' :: rest) := by
  intro c hc
  exact .inl (Option.some.inj hc).symm

theorem Ends.newline (level : Nat) (rest : List Char) : Ends (newline level ++ rest) := by
  intro c hc
  exact .inr (Option.some.inj hc).symm

/-- The digits of a number end where no more of a number follows. -/
theorem span_digitsOf {n : Nat} {rest : List Char} (h : Ends rest) :
    (digitsOf n ++ rest).takeWhile Char.isDigit = digitsOf n ∧
      (digitsOf n ++ rest).dropWhile Char.isDigit = rest := by
  have hdigits : ∀ c ∈ digitsOf n, c.isDigit = true := fun c hc => isDigit_digitsOf hc
  have hstop : rest.takeWhile Char.isDigit = [] ∧ rest.dropWhile Char.isDigit = rest := by
    cases rest with
    | nil => exact ⟨rfl, rfl⟩
    | cons c r =>
      have hc : c.isDigit = false := by
        rcases h c rfl with rfl | rfl <;> decide
      rw [List.takeWhile_cons_of_neg (by simp [hc]), List.dropWhile_cons_of_neg (by simp [hc])]
      exact ⟨rfl, rfl⟩
  rw [List.takeWhile_append_of_pos hdigits, List.dropWhile_append_of_pos hdigits, hstop.1, hstop.2,
    List.append_nil]
  exact ⟨rfl, rfl⟩

/-- Digits that nothing of a number follows are a number without fraction and
exponent. -/
theorem readUnsigned_digitsOf {negative : Bool} {n : Nat} (hn : n < UInt64.size)
    {rest : List Char} (h : Ends rest) :
    readUnsigned negative (digitsOf n ++ rest) =
      (plainNumber negative ⟨n, (digitsOf n).length, 0⟩).map fun number => (number, rest) := by
  obtain ⟨htake, hdrop⟩ := span_digitsOf (n := n) h
  have hsome : (digitsOf n).isEmpty = false := by simp [digitsOf_ne_nil n]
  have hzero : ((digitsOf n).head? == some '0' && (digitsOf n).length != 1) = false := by
    by_cases hhead : (digitsOf n).head? = some '0'
    · rw [digitsOf_head hhead]
      decide
    · simp [hhead]
  unfold readUnsigned
  simp only [htake, hdrop, hsome, hzero, Bool.or_self, Bool.false_eq_true, if_false,
    extend_digitsOf hn]
  cases rest with
  | nil => rfl
  | cons c r =>
    have hdot : c ≠ '.' := by rcases h c rfl with rfl | rfl <;> decide
    have hexponent : ¬ (c = 'e' ∨ c = 'E') := by rcases h c rfl with rfl | rfl <;> decide
    unfold readFraction
    split
    next heq => exact absurd (List.cons.inj heq).1 hdot
    next => simp only [readExponent, if_neg hexponent]

/-- An integer of 64 bits is read back. -/
theorem readNumber_textOfInt {z : Int} (hz : Word z) {rest : List Char} (h : Ends rest) :
    readNumber (textOfInt z ++ rest) = some (.integer z, rest) := by
  obtain ⟨hlow, hhigh⟩ := word_iff.1 hz
  cases z with
  | ofNat n =>
    have hn : n < UInt64.size := by
      have hword : (n : Int) < 18446744073709551616 := hhigh
      show n < 18446744073709551616
      omega
    have hread : readNumber (digitsOf n ++ rest) = readUnsigned false (digitsOf n ++ rest) := by
      unfold readNumber
      split
      next r heq =>
        -- a minus is no digit
        cases hdigits : digitsOf n with
        | nil => exact absurd hdigits (digitsOf_ne_nil n)
        | cons c cs =>
          rw [hdigits] at heq
          have hdigit : c.isDigit = true := isDigit_digitsOf (n := n) (by simp [hdigits])
          rw [(List.cons.inj heq).1] at hdigit
          exact absurd hdigit (by decide)
      next => rfl
    show readNumber (digitsOf n ++ rest) = _
    rw [hread, readUnsigned_digitsOf hn h]
    rfl
  | negSucc n =>
    have hn : n + 1 < UInt64.size := by
      show n + 1 < 18446744073709551616
      omega
    show readUnsigned true (digitsOf (n + 1) ++ rest) = _
    rw [readUnsigned_digitsOf hn h]
    have hfits : ¬ (n + 1 = 0 ∨ -((n + 1 : Nat) : Int) < Int64.minValue.toInt) := by
      have hleast : Int64.minValue.toInt ≤ Int.negSucc n := hz.1
      omega
    simp only [plainNumber, ne_eq, not_true_eq_false, if_false, Bool.not_true, Bool.false_eq_true,
      hfits, Option.map_some]
    rfl

/-! ### The integers that are read -/

theorem double_not_integer {negative : Bool} {significand : Nat} {exponent z : Int} :
    double? negative significand exponent ≠ some (.integer z) := by
  unfold double?
  cases scale? 400 significand.toUInt64.toFloat (max exponent (-100000)) <;> simp

theorem withExponent_not_integer {negative down : Bool} {significand : Nat} {start z : Int}
    {digits : List Char} :
    withExponent? negative significand start down digits ≠ some (.integer z) := by
  unfold withExponent?
  simp only []
  split
  · split <;> simp
  · exact double_not_integer

theorem readExponent_integer {negative : Bool} {significand : Nat} {start z : Int}
    {plain : Option Number} {cs rest : List Char}
    (h : readExponent negative significand start plain cs = some (.integer z, rest)) :
    plain = some (.integer z) := by
  unfold readExponent at h
  have hplain : ∀ r : List Char, plain.map (fun n => (n, r)) = some (.integer z, rest) →
      plain = some (.integer z) := by
    intro r hr
    cases plain with
    | none => cases hr
    | some number => rw [(Prod.mk.inj (Option.some.inj hr)).1]
  have hdouble : ∀ (down : Bool) (digits r : List Char),
      (withExponent? negative significand start down digits).map (fun n => (n, r)) ≠
        some (.integer z, rest) := by
    intro down digits r hr
    obtain ⟨number, hnumber, hpair⟩ := Option.map_eq_some_iff.1 hr
    rw [(Prod.mk.inj hpair).1] at hnumber
    exact withExponent_not_integer hnumber
  split at h
  next c r =>
    split at h
    · -- whatever the sign of the exponent
      split at h
      all_goals
        simp only [] at h
        split at h
        · cases h
        · exact absurd h (hdouble _ _ _)
    · exact hplain _ h
  next => exact hplain _ h

/-- Digits that make an integer make one of 64 bits. -/
theorem plainNumber_integer {negative : Bool} {whole : Digits} {z : Int}
    (hbound : whole.significand < UInt64.size)
    (h : plainNumber negative whole = some (.integer z)) : Word z := by
  have hleast : Int64.minValue.toInt ≤ 0 := by decide
  have hgreatest : (0 : Int) ≤ UInt64.size := by decide
  unfold plainNumber at h
  split at h
  · exact absurd h double_not_integer
  · split at h
    · have hz : (whole.significand : Int) = z := by simpa using h
      rw [← hz]
      exact ⟨by omega, by omega⟩
    · split at h
      · exact absurd h double_not_integer
      next hfits =>
        have hz : -(whole.significand : Int) = z := by simpa using h
        rw [← hz]
        exact ⟨by omega, by omega⟩

theorem readUnsigned_integer {negative : Bool} {cs rest : List Char} {z : Int}
    (h : readUnsigned negative cs = some (.integer z, rest)) : Word z := by
  unfold readUnsigned at h
  simp only [] at h
  split at h
  · cases h
  · have hbound : (Digits.extend ⟨0, 0, 0⟩ (cs.takeWhile Char.isDigit)).significand <
        UInt64.size :=
      extend_bounded (by decide) _
    generalize Digits.extend ⟨0, 0, 0⟩ (cs.takeWhile Char.isDigit) = whole at h hbound
    have hplain : plainNumber negative whole = some (.integer z) := by
      -- a fraction or an exponent makes a double
      unfold readFraction at h
      split at h
      · simp only [] at h
        split at h
        · cases h
        · exact absurd (readExponent_integer h) double_not_integer
      · exact readExponent_integer h
    exact plainNumber_integer hbound hplain

/-- An integer that is read has 64 bits. -/
theorem readNumber_integer {cs rest : List Char} {z : Int}
    (h : readNumber cs = some (.integer z, rest)) : Word z := by
  unfold readNumber at h
  split at h
  · exact readUnsigned_integer h
  · exact readUnsigned_integer h

end ScreenHooks.Json
