/-
The names that hook modules are written with.

An identifier is a word that is no keyword. The names that the generator makes of
identifiers are words again: hooks and accessors, members interfaces and specialized
interfaces, and the types that a parameter mentions. So is a method's own name if its
binding is one, reserved word or not.

* **`isWord_accessorName`** — raising the first letter leaves a word;
* **`isWord_mentions`** — the names in a type text are words;
* **`isWord_of_escape`** — what a binding says about the method's own name.
-/
import ScreenHooks.Hook.Module
import ScreenHooks.Proofs.Ascii
import ScreenHooks.Proofs.Script.Values

namespace ScreenHooks.Hook

open Text Script

/-- A name that is no keyword: neither a reserved word nor a word that takes an operand. -/
structure Identifier (s : String) : Prop where
  word : isWord s = true
  reserved : isReserved s = false
  operator : s ∉ operatorWords

instance (s : String) : Decidable (Identifier s) :=
  decidable_of_iff (isWord s = true ∧ isReserved s = false ∧ s ∉ operatorWords)
    ⟨fun h => ⟨h.1, h.2.1, h.2.2⟩, fun h => ⟨h.word, h.reserved, h.operator⟩⟩

theorem isWord_reserved : ∀ s ∈ reservedWords, isWord s = true := by decide +kernel

theorem Identifier.ne {s keyword : String} (h : Identifier s) (hkeyword : keyword ∈ reservedWords) :
    s ≠ keyword := by
  rintro rfl
  have hreserved : isReserved s = true := List.contains_iff_mem.2 hkeyword
  rw [h.reserved] at hreserved
  cases hreserved

theorem Identifier.isOperand {s : String} (h : Identifier s) : IsOperand s :=
  ⟨h.operator, h.ne (by decide), h.ne (by decide)⟩

/-! ### Words made of words -/

theorem isWord_parts {s : String} (h : isWord s = true) : ∀ c ∈ s.toList, isWordPart c = true := by
  obtain ⟨c, r, hchars, hc, hr⟩ := isWord_iff.1 h
  rw [hchars]
  exact List.forall_mem_cons.2 ⟨isWordStart_part hc, hr⟩

theorem isWord_append {s t : String} (hs : isWord s = true)
    (ht : ∀ c ∈ t.toList, isWordPart c = true) : isWord (s ++ t) = true := by
  obtain ⟨c, r, hchars, hc, hr⟩ := isWord_iff.1 hs
  refine isWord_iff.2 ⟨c, r ++ t.toList, by rw [String.toList_append, hchars]; rfl, hc, ?_⟩
  exact List.forall_mem_append.2 ⟨hr, ht⟩

theorem isWord_of_escape {naming : Naming} {name : String}
    (h : Identifier (naming.escape name)) : isWord name = true := by
  cases hreserved : isReserved name with
  | false => exact naming.escape_eq_of_not_reserved hreserved ▸ h.word
  | true => exact isWord_reserved name (List.contains_iff_mem.1 hreserved)

/-- No character of a word ends a line. -/
theorem isWordPart_not_lineEnd {c : Char} (h : isWordPart c = true) : Token.isLineEnd c = false := by
  simp only [isWordPart, Bool.and_eq_true, Bool.not_eq_true', isSpace, isBlank, Bool.or_eq_false_iff,
    Bool.and_eq_false_iff, decide_eq_false_iff_not, beq_eq_false_iff_ne] at h
  have hne : ∀ d : Char, d.toNat = 10 ∨ d.toNat = 13 → c ≠ d := by
    rintro d hd rfl
    omega
  simp only [Token.isLineEnd, Bool.or_eq_false_iff, beq_eq_false_iff_ne]
  exact ⟨⟨⟨hne '\n' (by decide), hne '\r' (by decide)⟩, by omega⟩, by omega⟩

/-! ### Capitals -/

/-- Ranges of codes that hold parts of words only. -/
def wordRanges : List (Nat × Nat) :=
  [(0x41, 0x5A), (0xA1, 0x167F), (0x1681, 0x1FFF), (0x2070, 0x2FFF), (0x3001, 0xD7FF),
   (0xFF21, 0xFF3A), (0x10000, 0x10FFFF)]

theorem isWordPart_ascii : ∀ n < 0x80, 0x41 ≤ n → n ≤ 0x5A → isWordPart (Char.ofNat n) = true := by
  decide +kernel

theorem toNat_ofNat {n : Nat} (h : n.isValidChar) : (Char.ofNat n).toNat = n :=
  congrArg Char.toNat (dif_pos h)

theorem isWordPart_range {n : Nat} (h : ∃ range ∈ wordRanges, range.1 ≤ n ∧ n ≤ range.2) :
    isWordPart (Char.ofNat n) = true := by
  simp only [wordRanges, List.mem_cons, List.not_mem_nil, or_false, exists_eq_or_imp,
    exists_eq_left] at h
  by_cases hlow : n < 0x80
  · exact isWordPart_ascii n hlow (by omega) (by omega)
  have hvalid : n.isValidChar := by
    unfold Nat.isValidChar
    omega
  have hcode := toNat_ofNat hvalid
  have hsigns : ":;\x60\"'@#.,|^&<>=+-*/%?!~()[]\x7b\x7d".toList.all (·.toNat < 0x80) = true := by
    decide
  have hsign : ":;\x60\"'@#.,|^&<>=+-*/%?!~()[]\x7b\x7d".toList.contains (Char.ofNat n) = false := by
    apply Bool.eq_false_iff.2
    intro hmem
    have hless := of_decide_eq_true (List.all_eq_true.1 hsigns _ (List.contains_iff_mem.1 hmem))
    omega
  simp only [isWordPart, isSignChar, isSpace, isBlank, hcode, hsign, Bool.or_false, Bool.and_eq_true,
    Bool.not_eq_true', decide_eq_false_iff_not, Bool.or_eq_false_iff, Bool.and_eq_false_iff,
    beq_eq_false_iff_ne]
  omega

theorem upperExpansions_words : ∀ entry ∈ upperExpansions, ∀ code ∈ entry.2,
    ∃ range ∈ wordRanges, range.1 ≤ code ∧ code ≤ range.2 := by
  decide +kernel

theorem upperRuns_words : ∀ run ∈ upperRuns, ∃ range ∈ wordRanges,
    (range.1 : Int) ≤ run.first + run.shift ∧ run.last + run.shift ≤ (range.2 : Int) := by
  decide +kernel

/-- The capital of a part of a word consists of parts of words. -/
theorem isWordPart_upper {c : Char} (h : isWordPart c = true) :
    ∀ d ∈ upperChars c, isWordPart d = true := by
  unfold upperChars
  split
  · have hascii : ∀ n < 0x80, isWordPart (Char.ofNat n) = true →
        isWordPart (Char.ofNat n).toUpper = true := by decide +kernel
    next hlow =>
    simpa using hascii c.toNat hlow (by rwa [Char.ofNat_toNat])
  split
  -- several characters for one
  next codes hlookup =>
    intro d hd
    obtain ⟨code, hcode, rfl⟩ := List.mem_map.1 hd
    obtain ⟨l, r, hentry, -⟩ := List.lookup_eq_some_iff.1 hlookup
    exact isWordPart_range (upperExpansions_words (c.toNat, codes) (by simp [hentry]) code hcode)
  next =>
    simp only [List.mem_singleton, forall_eq, caseImage]
    cases hrun : upperRuns.findSome? (·.image? c.toNat) with
    | none => simpa using h
    | some image =>
      obtain ⟨run, hmem, himage⟩ := List.exists_of_findSome?_eq_some hrun
      obtain ⟨range, hrange, hlow, hhigh⟩ := upperRuns_words run hmem
      unfold CaseRun.image? at himage
      split at himage
      next hin =>
        obtain rfl := Option.some.inj himage
        exact isWordPart_range ⟨range, hrange, by simp only [Option.getD_some]; omega,
          by simp only [Option.getD_some]; omega⟩
      next => cases himage

theorem capitalize_parts {s : String} (h : isWord s = true) :
    ∀ c ∈ (capitalize s).toList, isWordPart c = true := by
  have hparts := isWord_parts h
  rw [capitalize, String.toList_ofList]
  cases hchars : s.toList with
  | nil => simp [capitalizeChars]
  | cons c r =>
    rw [hchars, List.forall_mem_cons] at hparts
    exact List.forall_mem_append.2 ⟨isWordPart_upper hparts.1, hparts.2⟩

theorem isWord_accessorName {model : String} (h : isWord model = true) :
    isWord (accessorName model) = true :=
  isWord_append (by decide) (capitalize_parts h)

theorem isWord_primaryHook {unit : Screen.Unit} (h : isWord unit.name = true) :
    isWord unit.primaryHook = true :=
  isWord_append (by decide) (isWord_parts h)

theorem isWord_membersInterface {unit : Screen.Unit} (h : isWord unit.name = true) :
    isWord unit.membersInterface = true :=
  isWord_append h (isWord_parts (by decide))

theorem isWord_specialized {interfaces : Screen.Interfaces} {unit : Screen.Unit} {model name : String}
    (hunit : isWord unit.name = true) (hmodel : isWord model = true)
    (h : name ∈ specialized? interfaces unit model) : isWord name = true := by
  simp only [specialized?] at h
  split at h
  · obtain rfl := Option.some.inj h
    exact isWord_append (isWord_append hmodel (isWord_parts (by decide))) (isWord_parts hunit)
  · cases h

/-! ### Names in types -/

theorem isNamePart_word {c : Char} (h : TypeText.isNamePart c = true) : isWordPart c = true := by
  obtain ⟨hlow, hhigh⟩ := TypeText.isNamePart_ascii h
  have hsigns : ":;\x60\"'@#.,|^&<>=+-*/%?!~()[]\x7b\x7d".toList.all
      (!TypeText.isNamePart ·) = true := by decide
  have hsign : isSignChar c = false := by
    simp only [isSignChar, Bool.or_eq_false_iff, decide_eq_false_iff_not]
    refine ⟨by omega, Bool.eq_false_iff.2 fun hmem => ?_⟩
    have hnone := List.all_eq_true.1 hsigns c (List.contains_iff_mem.1 hmem)
    simp [h] at hnone
  have hspace : isSpace c = false := by
    simp only [isSpace, TypeText.isNamePart_not_blank h, Bool.false_or, Bool.or_eq_false_iff,
      beq_eq_false_iff_ne]
    omega
  simp [isWordPart, hsign, hspace]

theorem isNameStart_word {c : Char} (h : TypeText.isNameStart c = true) :
    isWordStart c = true := by
  have hdigit : c.isDigit = false := Bool.eq_false_iff.2 fun hdigit => by
    rw [(TypeText.isDigit_part hdigit).2] at h
    cases h
  simp [isWordStart, isNamePart_word (TypeText.isNameStart_part h), hdigit]

theorem isWord_mentions {type name : String} (h : name ∈ TypeText.mentions type) :
    isWord name = true := by
  obtain ⟨piece, -, hname⟩ := List.mem_filterMap.1 h
  unfold TypeText.pieceName? at hname
  split at hname
  · cases hname
  next leading hleading =>
    split at hname
    · cases hname
    obtain rfl := Option.some.inj hname
    unfold TypeText.leadingName? at hleading
    split at hleading
    · cases hleading
    next _ c r _ =>
      split at hleading
      next hc =>
        obtain rfl := Option.some.inj hleading
        refine isWord_iff.2 ⟨c, _, String.toList_ofList, isNameStart_word hc, fun d hd => ?_⟩
        exact isNamePart_word (List.all_eq_true.1 List.all_takeWhile d hd)
      next => cases hleading

end ScreenHooks.Hook
