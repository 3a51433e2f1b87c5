/-
Kebab names and class names.

A class name made of capitalized segments is hyphenated where a segment of more
than one character ends: after a single letter the next capital has no lowercase
letter before it. So the two forms of a name are inverse exactly where every
segment but the last one has two characters or more.

* **`toLowerChars_hyphenate`** — the kebab form of capitalized segments;
* **`Naming.kebab_pascal_iff`** — where the two forms are inverse.
-/
import Mathlib
import ScreenHooks.Proofs.Ascii
import ScreenHooks.Proofs.Path.Segments

namespace ScreenHooks

open Text

/-! ### Segments -/

/-- Whether a text is a segment of a kebab name: a lowercase letter, then lowercase letters and
digits. -/
def isSegment : List Char → Bool
  | [] => false
  | c :: r => c.isLower && r.all isLowerOrDigit

/-- The kebab name with the given segments. -/
def kebabOf (segments : List String) : String := "-".intercalate segments

/-- Joins segments with a hyphen after each that has more than one character. -/
def joinLong : List (List Char) → List Char
  | [] => []
  | [segment] => segment
  | segment :: next :: rest =>
    segment ++ (if 2 ≤ segment.length then ['-'] else []) ++ joinLong (next :: rest)

section Characters

variable {c : Char}

theorem isLowerOrDigit_of_isLower (h : c.isLower = true) : isLowerOrDigit c = true := by
  simp [isLowerOrDigit, h]

/-- Lowercase letters and digits are their own lowercase forms, and no hyphens. -/
theorem isLowerOrDigit_kept (h : isLowerOrDigit c = true) :
    c.isUpper = false ∧ c.toLower = c ∧ c ≠ '-' := by
  have hupper : ¬ c.isUpper = true := by
    rw [isLowerOrDigit, Bool.or_eq_true] at h
    rcases h with h | h
    · exact Char.not_isUpper_of_isLower h
    · intro hupper
      rw [isAlpha_not_digit (isUpper_alpha hupper)] at h
      cases h
  refine ⟨by simpa using hupper, Char.toLower_eq_of_not_isUpper hupper, ?_⟩
  rintro rfl
  cases h

/-- The capital of a lowercase letter comes back in lowercase. -/
theorem isLower_raised (h : c.isLower = true) :
    c.toUpper.toNat < 0x80 ∧ c.toUpper.isUpper = true ∧ isLowerOrDigit c.toUpper = false ∧
      c.toUpper.toLower = c := by
  have halpha : c.toUpper.isAlpha = true := by
    rw [Char.isAlpha_toUpper_eq_isAlpha, isLower_alpha h]
  refine ⟨(isAlphanum_ascii (isAlphanum_iff.2 (.inl halpha))).2, ?_, ?_, ?_⟩
  · rw [Char.isUpper_toUpper_eq_isAlpha, isLower_alpha h]
  · rw [isLowerOrDigit, Char.isLower_toUpper_eq_false, isAlpha_not_digit halpha, Bool.or_false]
  · rw [Char.toLower_toUpper_eq_toLower,
      Char.toLower_eq_of_not_isUpper (Char.not_isUpper_of_isLower h)]

end Characters

theorem isSegment_iff {segment : List Char} : isSegment segment = true ↔
    ∃ c r, segment = c :: r ∧ c.isLower = true ∧ ∀ d ∈ r, isLowerOrDigit d = true := by
  cases segment <;> simp [isSegment]

theorem isSegment_parts {segment : List Char} (h : isSegment segment = true) :
    ∀ c ∈ segment, isLowerOrDigit c = true := by
  obtain ⟨c, r, rfl, hc, hr⟩ := isSegment_iff.1 h
  exact List.forall_mem_cons.2 ⟨isLowerOrDigit_of_isLower hc, hr⟩

theorem capitalizeChars_lower {c : Char} (h : c.isLower = true) (r : List Char) :
    capitalizeChars (c :: r) = c.toUpper :: r := by
  have hascii := isLowerOrDigit_ascii (isLowerOrDigit_of_isLower h)
  simp [capitalizeChars, upperChars, hascii]

/-- The segments of a kebab name are capitalized and put together. -/
theorem pascalChars_kebabOf {segments : List String} (hne : segments ≠ [])
    (h : ∀ segment ∈ segments, isSegment segment.toList = true) :
    pascalChars (kebabOf segments).toList =
      (segments.map String.toList).flatMap capitalizeChars := by
  have hparts : ∀ segment ∈ segments, '-' ∉ segment.toList := fun segment hsegment hmem =>
    (isLowerOrDigit_kept (isSegment_parts (h segment hsegment) '-' hmem)).2.2 rfl
  have hsplit := congrArg (List.map String.toList) (splitAt_intercalate hne hparts)
  rw [splitAt, List.map_map] at hsplit
  have hid : String.toList ∘ String.ofList = id := funext fun cs => String.toList_ofList
  rw [hid, List.map_id] at hsplit
  exact congrArg (List.flatMap capitalizeChars) hsplit

/-! ### Hyphens -/

theorem hyphenate_cons_cons (a b : Char) (r : List Char) :
    hyphenate (a :: b :: r) = if isLowerOrDigit a && b.isUpper then a :: '-' :: hyphenate (b :: r)
      else a :: hyphenate (b :: r) := rfl

theorem hyphenate_cons {c : Char} (h : isLowerOrDigit c = false) (r : List Char) :
    hyphenate (c :: r) = c :: hyphenate r := by
  cases r with
  | nil => rfl
  | cons b r => simp [hyphenate_cons_cons, h]

theorem hyphenate_lower {r : List Char} (h : ∀ c ∈ r, isLowerOrDigit c = true) :
    hyphenate r = r := by
  induction r with
  | nil => rfl
  | cons a r ih =>
    have hr := fun d hd => h d (List.mem_cons_of_mem _ hd)
    cases r with
    | nil => rfl
    | cons b rest =>
      obtain ⟨hb, -⟩ := isLowerOrDigit_kept (hr b List.mem_cons_self)
      simp [hyphenate_cons_cons, hb, ih hr]

/-- The next capital is hyphenated if something stands before it. -/
theorem hyphenate_append {r : List Char} (h : ∀ c ∈ r, isLowerOrDigit c = true) {capital : Char}
    (hcapital : capital.isUpper = true) (rest : List Char) :
    hyphenate (r ++ capital :: rest) =
      r ++ (if r = [] then [] else ['-']) ++ hyphenate (capital :: rest) := by
  induction r with
  | nil => rfl
  | cons a r ih =>
    have ha := h a List.mem_cons_self
    have hr := fun d hd => h d (List.mem_cons_of_mem _ hd)
    cases r with
    | nil => simp [hyphenate_cons_cons, ha, hcapital]
    | cons b more =>
      obtain ⟨hb, -⟩ := isLowerOrDigit_kept (hr b List.mem_cons_self)
      simpa [hyphenate_cons_cons, hb] using ih hr

theorem mem_hyphenate {cs : List Char} {c : Char} (h : c ∈ hyphenate cs) : c ∈ cs ∨ c = '-' := by
  induction cs using hyphenate.induct with
  | case1 a b r hboundary ih =>
    rw [hyphenate_cons_cons, if_pos hboundary, List.mem_cons, List.mem_cons] at h
    rcases h with rfl | rfl | h
    · exact .inl List.mem_cons_self
    · exact .inr rfl
    · exact (ih h).imp_left (List.mem_cons_of_mem _)
  | case2 a b r hboundary ih =>
    rw [hyphenate_cons_cons, if_neg hboundary, List.mem_cons] at h
    rcases h with rfl | h
    · exact .inl List.mem_cons_self
    · exact (ih h).imp_left (List.mem_cons_of_mem _)
  | case3 cs hshort =>
    rw [hyphenate] at h
    · exact .inl h
    · exact hshort

/-! ### The kebab form of capitalized segments -/

/-- Lowercase of hyphenated ASCII text. -/
theorem toLowerChars_capitals {segments : List (List Char)}
    (h : ∀ segment ∈ segments, isSegment segment = true) :
    toLowerChars (hyphenate (segments.flatMap capitalizeChars)) =
      (hyphenate (segments.flatMap capitalizeChars)).map Char.toLower := by
  refine toLower_ascii_letters _ fun c hc => ?_
  rcases mem_hyphenate hc with hmem | rfl
  · obtain ⟨segment, hsegment, hmem⟩ := List.mem_flatMap.1 hmem
    obtain ⟨first, r, rfl, hfirst, hr⟩ := isSegment_iff.1 (h segment hsegment)
    rw [capitalizeChars_lower hfirst, List.mem_cons] at hmem
    rcases hmem with rfl | hmem
    · exact (isLower_raised hfirst).1
    · exact isLowerOrDigit_ascii (hr c hmem)
  · decide

/-- One segment: its capital is lowered again, the rest is kept. -/
theorem map_toLower_segment {c : Char} {r : List Char} (hc : c.isLower = true)
    (hr : ∀ d ∈ r, isLowerOrDigit d = true) :
    (c.toUpper :: r).map Char.toLower = c :: r := by
  have hkept : r.map Char.toLower = r.map id :=
    List.map_congr_left fun d hd => (isLowerOrDigit_kept (hr d hd)).2.1
  rw [List.map_cons, (isLower_raised hc).2.2.2, hkept, List.map_id]

/-- The kebab form of capitalized segments has a hyphen after each that is longer than one
character. -/
theorem toLowerChars_hyphenate {segments : List (List Char)}
    (h : ∀ segment ∈ segments, isSegment segment = true) :
    toLowerChars (hyphenate (segments.flatMap capitalizeChars)) = joinLong segments := by
  rw [toLowerChars_capitals h]
  induction segments with
  | nil => rfl
  | cons segment rest ih =>
    obtain ⟨c, r, rfl, hc, hr⟩ := isSegment_iff.1 (h segment List.mem_cons_self)
    have hrest := ih fun s hs => h s (List.mem_cons_of_mem _ hs)
    obtain ⟨-, -, hraised, -⟩ := isLower_raised hc
    rw [List.flatMap_cons, capitalizeChars_lower hc, List.cons_append, hyphenate_cons hraised]
    -- a hyphen needs a capital behind the segment
    cases rest with
    | nil =>
      rw [List.flatMap_nil, List.append_nil, hyphenate_lower hr, map_toLower_segment hc hr]
      rfl
    | cons next more =>
      obtain ⟨d, q, rfl, hd, -⟩ :=
        isSegment_iff.1 (h next (List.mem_cons_of_mem _ List.mem_cons_self))
      have hcapital := (isLower_raised hd).2.1
      have hlong : (if r = [] then [] else ['-']) =
          if 2 ≤ (c :: r).length then ['-'] else [] := by
        cases r <;> simp
      have hhyphen : ∀ p : Prop, [Decidable p] →
          (if p then ['-'] else []).map Char.toLower = if p then ['-'] else [] := by
        intro p _
        split <;> rfl
      rw [List.flatMap_cons, capitalizeChars_lower hd, List.cons_append] at hrest ⊢
      rw [hyphenate_append hr hcapital, hlong, ← List.cons_append, ← List.cons_append,
        List.map_append, List.map_append, map_toLower_segment hc hr, hhyphen, hrest]
      rfl

/-- No hyphen is missing exactly if every segment but the last one is long. -/
theorem joinLong_eq_iff {segments : List (List Char)}
    (h : ∀ segment ∈ segments, isSegment segment = true) :
    joinLong segments = ['-'].intercalate segments ↔
      ∀ segment ∈ segments.dropLast, 2 ≤ segment.length := by
  induction segments with
  | nil => simp [joinLong]
  | cons segment rest ih =>
    cases rest with
    | nil => simp [joinLong]
    | cons next more =>
      have hrest := ih fun s hs => h s (List.mem_cons_of_mem _ hs)
      rw [joinLong, List.intercalate_cons_cons, List.dropLast_cons_cons, List.forall_mem_cons,
        ← hrest]
      by_cases hlong : 2 ≤ segment.length
      · simp [hlong]
      · -- without the hyphen the next segment's first letter stands in its place
        obtain ⟨d, q, rfl, hd, -⟩ :=
          isSegment_iff.1 (h next (List.mem_cons_of_mem _ List.mem_cons_self))
        have hhead : ∃ text, joinLong ((d :: q) :: more) = d :: text := by
          cases more <;> exact ⟨_, rfl⟩
        obtain ⟨text, htext⟩ := hhead
        have hd' : d ≠ '-' := (isLowerOrDigit_kept (isLowerOrDigit_of_isLower hd)).2.2
        simp [hlong, htext, hd']

/-! ### The two forms -/

theorem foldl_replaceAcronym {acronyms : List (String × String)} {cs : List Char}
    (h : ∀ acronym ∈ acronyms, containsChars acronym.1.toList cs = false) :
    acronyms.foldl replaceAcronym cs = cs := by
  induction acronyms with
  | nil => rfl
  | cons acronym rest ih =>
    have hfirst := h acronym List.mem_cons_self
    have hne : acronym.1.toList ≠ [] := by
      intro hnil
      rw [hnil] at hfirst
      cases cs <;> simp [containsChars] at hfirst
    rw [List.foldl_cons, replaceAcronym, replaceAll_of_not_contains _ _ _ hne hfirst]
    exact ih fun other hother => h other (List.mem_cons_of_mem _ hother)

/-- The two forms of a name without acronyms are inverse where every segment but the last one has
two characters or more, and only there. -/
theorem Naming.kebab_pascal_iff (naming : Naming) {segments : List String} (hne : segments ≠ [])
    (hsegments : ∀ segment ∈ segments, isSegment segment.toList = true)
    (hacronyms : ∀ acronym ∈ naming.acronyms,
      contains (pascal (kebabOf segments)) acronym.1 = false) :
    (naming.kebab (pascal (kebabOf segments)) = kebabOf segments ↔
      ∀ segment ∈ segments.dropLast, 2 ≤ segment.length) ∧
    ((∀ segment ∈ segments.dropLast, 2 ≤ segment.length) →
      pascal (naming.kebab (pascal (kebabOf segments))) = pascal (kebabOf segments)) := by
  have hparts : ∀ segment ∈ segments.map String.toList, isSegment segment = true := by
    simpa using hsegments
  have hpascal : (pascal (kebabOf segments)).toList =
      (segments.map String.toList).flatMap capitalizeChars := by
    rw [pascal, String.toList_ofList, pascalChars_kebabOf hne hsegments]
  have hkebab : (naming.kebab (pascal (kebabOf segments))).toList =
      joinLong (segments.map String.toList) := by
    rw [Naming.kebab, String.toList_ofList, Naming.kebabChars, foldl_replaceAcronym hacronyms,
      hpascal, toLowerChars_hyphenate hparts]
  have hiff : naming.kebab (pascal (kebabOf segments)) = kebabOf segments ↔
      ∀ segment ∈ segments.dropLast, 2 ≤ segment.length := by
    rw [← String.toList_inj, hkebab, kebabOf, String.toList_intercalate]
    refine (joinLong_eq_iff hparts).trans ?_
    simp [← List.map_dropLast, String.length_toList]
  exact ⟨hiff, fun hlong => congrArg pascal (hiff.2 hlong)⟩

/-- Digits and a single last letter come back. -/
theorem kebab_pascal_login : (["login", "sms2", "x"] ≠ [] ∧
      (∀ segment ∈ ["login", "sms2", "x"], isSegment segment.toList = true) ∧
      ∀ acronym ∈ ({} : Naming).acronyms,
        contains (pascal (kebabOf ["login", "sms2", "x"])) acronym.1 = false) ∧
    ({} : Naming).kebab (pascal (kebabOf ["login", "sms2", "x"])) =
      kebabOf ["login", "sms2", "x"] := by
  have hplain : ∀ acronym ∈ ({} : Naming).acronyms,
      contains (pascal (kebabOf ["login", "sms2", "x"])) acronym.1 = false := by decide +kernel
  exact ⟨⟨by decide, by decide, hplain⟩,
    (Naming.kebab_pascal_iff {} (by decide) (by decide) hplain).1.2 (by decide)⟩

end ScreenHooks
