/-
The segments of composed paths.

A path is its segments with slashes between them, so segments without slashes
are read back, and the segments of a join are those of its two parts. The
parent of a path is spelled by its first segments.

* **`splitAt_intercalate`** — parts without the separator are read back;
* **`segments_append`** — the segments on the two sides of a slash;
* **`parent_above`** — how a path goes on from its parent.
-/
import Mathlib.Data.List.DropRight
import Mathlib.Data.List.TakeWhile
import ScreenHooks.Path.Basic

namespace ScreenHooks

namespace Text

/-! ### Splitting -/

theorem not_mem_of_mem_splitBy {p : Char → Bool} {cs part : List Char}
    (h : part ∈ splitBy p cs) : ∀ c ∈ part, p c = false := by
  induction cs generalizing part with
  | nil =>
    intro c hc
    simp only [splitBy, List.mem_singleton] at h
    subst h
    simp at hc
  | cons a r ih =>
    intro c hc
    rw [splitBy] at h
    -- a separator starts a new part, another character goes to the first one
    by_cases ha : p a = true
    · rw [if_pos ha, List.mem_cons] at h
      rcases h with rfl | h
      · simp at hc
      · exact ih h c hc
    · rw [if_neg ha] at h
      cases hr : splitBy p r with
      | nil => exact absurd hr (splitBy_ne_nil p r)
      | cons first rest =>
        rw [hr] at h ih
        rcases List.mem_cons.1 h with rfl | h
        · rcases List.mem_cons.1 hc with rfl | hc
          · simpa using ha
          · exact ih List.mem_cons_self c hc
        · exact ih (List.mem_cons_of_mem _ h) c hc

/-- No character but the separators is lost. -/
theorem mem_splitBy_iff {p : Char → Bool} {c : Char} (hc : p c = false) (cs : List Char) :
    (∃ part ∈ splitBy p cs, c ∈ part) ↔ c ∈ cs := by
  induction cs with
  | nil => simp [splitBy]
  | cons a r ih =>
    rw [splitBy, List.mem_cons, ← ih]
    by_cases ha : p a = true
    · have hne : c ≠ a := by
        rintro rfl
        rw [hc] at ha
        cases ha
      rw [if_pos ha]
      simp [hne]
    · rw [if_neg ha]
      cases hr : splitBy p r with
      | nil => exact absurd hr (splitBy_ne_nil p r)
      | cons first rest => simp [or_assoc]

/-- A text that is cut off somewhere is cut off in one of its parts. -/
theorem splitBy_prefix {p : Char → Bool} {short cs : List Char} (h : short <+: cs) :
    ∃ before part last rest, splitBy p cs = before ++ part :: rest ∧
      splitBy p short = before ++ [last] ∧ last <+: part := by
  induction short generalizing cs with
  | nil =>
    cases hparts : splitBy p cs with
    | nil => exact absurd hparts (splitBy_ne_nil p cs)
    | cons part rest => exact ⟨[], part, [], rest, rfl, rfl, List.nil_prefix⟩
  | cons a short ih =>
    cases cs with
    | nil => simp at h
    | cons b cs =>
      obtain ⟨rfl, hrest⟩ := List.cons_prefix_cons.1 h
      obtain ⟨before, part, last, rest, hparts, hshort, hlast⟩ := ih hrest
      rw [splitBy, splitBy]
      by_cases ha : p a = true
      · rw [if_pos ha, if_pos ha, hparts, hshort]
        exact ⟨[] :: before, part, last, rest, rfl, rfl, hlast⟩
      · rw [if_neg ha, if_neg ha, hparts, hshort]
        cases before with
        | nil =>
          exact ⟨[], a :: part, a :: last, rest, rfl, rfl, List.cons_prefix_cons.2 ⟨rfl, hlast⟩⟩
        | cons first before => exact ⟨(a :: first) :: before, part, last, rest, rfl, rfl, hlast⟩

theorem splitAt_ne_nil (s : String) (sep : Char) : splitAt s sep ≠ [] := by
  intro h
  exact splitBy_ne_nil _ _ (List.map_eq_nil_iff.1 h)

/-- The separator does not occur in a part. -/
theorem not_mem_of_mem_splitAt {s part : String} {sep : Char} (h : part ∈ splitAt s sep) :
    sep ∉ part.toList := by
  obtain ⟨cs, hcs, rfl⟩ := List.mem_map.1 h
  intro hsep
  rw [String.toList_ofList] at hsep
  have := not_mem_of_mem_splitBy hcs sep hsep
  simp at this

theorem splitAt_of_not_mem {s : String} {sep : Char} (h : sep ∉ s.toList) :
    splitAt s sep = [s] := by
  have hnone : ∀ c ∈ s.toList, (c == sep) = false := by
    intro c hc
    rw [beq_eq_false_iff_ne]
    rintro rfl
    exact h hc
  rw [splitAt, splitBy_of_none _ _ hnone]
  simp

theorem splitAt_append (s t : String) (sep : Char) :
    splitAt (s ++ String.singleton sep ++ t) sep = splitAt s sep ++ splitAt t sep := by
  have hsides : (s ++ String.singleton sep ++ t).toList = s.toList ++ sep :: t.toList := by
    simp
  rw [splitAt, hsides, splitBy_append _ _ _ _ (by simp)]
  simp [splitAt]

/-- Parts without the separator are read back. -/
theorem splitAt_intercalate {parts : List String} {sep : Char} (hne : parts ≠ [])
    (h : ∀ part ∈ parts, sep ∉ part.toList) :
    splitAt (String.intercalate (String.singleton sep) parts) sep = parts := by
  induction parts with
  | nil => exact absurd rfl hne
  | cons part rest ih =>
    have hpart : sep ∉ part.toList := h part List.mem_cons_self
    cases rest with
    | nil => rw [String.intercalate_singleton, splitAt_of_not_mem hpart]
    | cons next more =>
      have hrest := ih (by simp) fun q hq => h q (List.mem_cons_of_mem _ hq)
      rw [String.intercalate_cons_cons, splitAt_append, hrest, splitAt_of_not_mem hpart]
      rfl

/-- The parts, with the separator between them, are the text. -/
theorem intercalate_splitAt (s : String) (sep : Char) :
    String.intercalate (String.singleton sep) (splitAt s sep) = s := by
  have hparts : ∀ cs : List Char, String.intercalate (String.singleton sep)
      ((splitBy (· == sep) cs).map String.ofList) = String.ofList cs := by
    intro cs
    induction cs with
    | nil => rfl
    | cons c r ih =>
      cases hr : splitBy (· == sep) r with
      | nil => exact absurd hr (splitBy_ne_nil _ r)
      | cons first rest =>
        rw [hr] at ih
        -- a separator is put between an empty part and the others
        by_cases hc : (c == sep) = true
        · rw [splitBy, if_pos hc, hr, List.map_cons, List.map_cons, String.intercalate_cons_cons,
            ← List.map_cons, ih, beq_iff_eq.1 hc]
          apply String.toList_inj.1
          simp
        · rw [splitBy, if_neg hc, hr]
          apply String.toList_inj.1
          have hrest := congrArg String.toList ih
          cases rest with
          | nil => simpa using hrest
          | cons next more => simpa [String.intercalate_cons_cons] using hrest
  rw [splitAt, hparts, String.ofList_toList]

end Text

namespace Path

open Text

/-! ### Segments of texts -/

theorem segments_ne_nil (p : Path) : p.segments ≠ [] := splitAt_ne_nil _ _

theorem slash_not_mem {p : Path} {segment : String} (h : segment ∈ p.segments) :
    '/' ∉ segment.toList := not_mem_of_mem_splitAt h

/-- The segments on the two sides of a slash. -/
theorem segments_append (s t : String) :
    segments ⟨s ++ "/" ++ t⟩ = segments ⟨s⟩ ++ segments ⟨t⟩ := splitAt_append s t '/'

/-- A path that is cut off somewhere is cut off in one of its segments. -/
theorem segments_prefix {p q : Path} (h : q.text.toList <+: p.text.toList) :
    ∃ before part last rest, p.segments = before ++ part :: rest ∧
      q.segments = before ++ [last] ∧ last.toList <+: part.toList := by
  obtain ⟨before, part, last, rest, hparts, hshort, hlast⟩ := splitBy_prefix (p := (· == '/')) h
  refine ⟨before.map String.ofList, String.ofList part, String.ofList last,
    rest.map String.ofList, ?_, ?_, ?_⟩
  · rw [segments, splitAt, hparts, List.map_append, List.map_cons]
  · rw [segments, splitAt, hshort, List.map_append, List.map_singleton]
  · rwa [String.toList_ofList, String.toList_ofList]

theorem segments_intercalate {parts : List String} (hne : parts ≠ [])
    (h : ∀ part ∈ parts, '/' ∉ part.toList) :
    segments ⟨String.intercalate "/" parts⟩ = parts := splitAt_intercalate hne h

/-- A path is its segments with slashes between them. -/
theorem eq_of_segments {p q : Path} (h : p.segments = q.segments) : p = q := by
  have htext : ∀ p : Path, String.intercalate "/" p.segments = p.text :=
    fun p => intercalate_splitAt p.text '/'
  obtain ⟨text⟩ := p
  obtain ⟨other⟩ := q
  exact congrArg Path.mk ((htext _).symm.trans ((congrArg _ h).trans (htext _)))

theorem segments_of_plain {name : String} (h : '/' ∉ name.toList) :
    segments ⟨name⟩ = [name] := splitAt_of_not_mem h

theorem mem_segments_iff {c : Char} (hc : c ≠ '/') (p : Path) :
    (∃ s ∈ p.segments, c ∈ s.toList) ↔ c ∈ p.text.toList := by
  have hb : (c == '/') = false := by simpa using hc
  rw [← mem_splitBy_iff (p := (· == '/')) hb]
  simp [segments, splitAt]

/-! ### The last segment -/

/-- The last segment of a path. -/
def leaf (p : Path) : String := p.segments.getLast?.getD ""

theorem segments_leaf (p : Path) : p.segments = p.segments.dropLast ++ [leaf p] := by
  have hne := segments_ne_nil p
  have hleaf : leaf p = p.segments.getLast hne := by
    rw [leaf, List.getLast?_eq_some_getLast hne]
    rfl
  rw [hleaf, List.dropLast_concat_getLast]

/-- Whether the last segment of a path is a name. -/
def Named (p : Path) : Prop := isIdle (leaf p) = false ∧ leaf p ≠ ".."

instance instDecidableNamed (p : Path) : Decidable (Named p) :=
  inferInstanceAs (Decidable (_ ∧ _))

theorem leaf_slash (s t : String) : leaf ⟨s ++ "/" ++ t⟩ = leaf ⟨t⟩ := by
  rw [leaf, leaf, segments_append, List.getLast?_append,
    List.getLast?_eq_some_getLast (segments_ne_nil ⟨t⟩)]
  rfl

theorem eq_append_slash {s : String} (h : endsWith s "/" = true) : ∃ before, s = before ++ "/" := by
  obtain ⟨cs, hcs⟩ := List.isSuffixOf_iff_suffix.1 h
  refine ⟨String.ofList cs, String.toList_inj.1 ?_⟩
  have hrest : (String.ofList cs).toList = cs := String.toList_ofList
  rw [String.toList_append, hrest]
  exact hcs.symm

/-- A join ends as its second part does. -/
theorem leaf_join (p q : Path) : leaf (p.join q) = leaf q := by
  unfold join
  split
  · rfl
  · split
    next h =>
      rcases h with h | h
      · rw [h, String.empty_append]
      · obtain ⟨before, htext⟩ := eq_append_slash h
        rw [htext]
        exact leaf_slash _ _
    next => exact leaf_slash _ _

theorem leaf_child (p : Path) (name : String) : leaf (p.child name) = leaf ⟨name⟩ := leaf_join p ⟨name⟩

theorem leaf_of_plain {name : String} (h : '/' ∉ name.toList) : leaf ⟨name⟩ = name := by
  rw [leaf, segments_of_plain h]
  rfl

/-- What is written after a path, without a slash, extends its last segment. -/
theorem segments_extend (s : String) {t : String} (h : '/' ∉ t.toList) :
    segments ⟨s ++ t⟩ = (segments ⟨s⟩).dropLast ++ [leaf ⟨s⟩ ++ t] := by
  have hplain : ∀ s : String, '/' ∉ s.toList → segments ⟨s ++ t⟩ = [s ++ t] := by
    intro s hs
    refine segments_of_plain ?_
    rw [String.toList_append, List.mem_append, not_or]
    exact ⟨hs, h⟩
  by_cases hs : '/' ∈ s.toList
  · -- only what follows the last slash counts
    obtain ⟨last, before, hsplit, hlast⟩ := List.eq_append_cons_of_mem (List.mem_reverse.2 hs)
    have htext : s = String.ofList before.reverse ++ "/" ++ String.ofList last.reverse := by
      have hreverse := congrArg List.reverse hsplit
      apply String.toList_inj.1
      simpa using hreverse
    have hplainLast : '/' ∉ (String.ofList last.reverse).toList := by
      rw [String.toList_ofList, List.mem_reverse]
      exact hlast
    have hwhole : s ++ t =
        String.ofList before.reverse ++ "/" ++ (String.ofList last.reverse ++ t) := by
      rw [htext, String.append_assoc]
    rw [hwhole, htext, leaf_slash, leaf_of_plain hplainLast, segments_append, segments_append,
      hplain _ hplainLast, segments_of_plain hplainLast, List.dropLast_concat]
  · rw [hplain s hs, segments_of_plain hs, leaf_of_plain hs]
    rfl

theorem leaf_append (s : String) {t : String} (h : '/' ∉ t.toList) :
    leaf ⟨s ++ t⟩ = leaf ⟨s⟩ ++ t := by
  have hsegments := segments_extend s h
  rw [leaf, hsegments, List.getLast?_concat]
  rfl

/-! ### Absolute paths -/

theorem segments_slash (s : String) : segments ⟨"/" ++ s⟩ = "" :: segments ⟨s⟩ :=
  splitAt_append "" s '/'

/-- An absolute path has an empty segment before its first slash. -/
theorem isAbsolute_iff (p : Path) :
    p.isAbsolute = true ↔ ∃ rest, rest ≠ [] ∧ p.segments = "" :: rest := by
  obtain ⟨text⟩ := p
  constructor
  · intro h
    obtain ⟨r, hr⟩ := List.isPrefixOf_iff_prefix.1 h
    have htext : text = "/" ++ String.ofList r := by
      apply String.toList_inj.1
      have hrest : (String.ofList r).toList = r := String.toList_ofList
      rw [String.toList_append, hrest]
      exact hr.symm
    subst htext
    exact ⟨_, segments_ne_nil _, segments_slash _⟩
  · rintro ⟨rest, hrest, h⟩
    cases hcs : text.toList with
    | nil =>
      simp only [segments, splitAt, hcs, splitBy, List.map_cons, List.map_nil, List.cons.injEq] at h
      exact absurd h.2.symm hrest
    | cons c r =>
      by_cases hc : c = '/'
      · subst hc
        simp [isAbsolute, startsWith, hcs]
      · -- the first segment would start with this character
        have hb : (c == '/') = false := by simpa using hc
        simp only [segments, splitAt, hcs, splitBy, hb, Bool.false_eq_true, if_false] at h
        split at h <;> simp at h

theorem isAbsolute_of_segments {p q : Path} {more : List String}
    (h : p.segments = q.segments ++ more) (hq : q.isAbsolute = true) : p.isAbsolute = true := by
  obtain ⟨rest, hrest, hsegments⟩ := (isAbsolute_iff q).1 hq
  refine (isAbsolute_iff p).2 ⟨rest ++ more, by simp [hrest], ?_⟩
  rw [h, hsegments, List.cons_append]

/-! ### Idle segments at the end -/

/-- The segments are those without the idle ones at the end, then idle ones. -/
theorem trimIdle_append (segments : List String) :
    ∃ idle, segments = trimIdle segments ++ idle ∧ ∀ s ∈ idle, isIdle s = true := by
  refine ⟨(segments.reverse.takeWhile isIdle).reverse, ?_, ?_⟩
  · rw [trimIdle, ← List.reverse_append, List.takeWhile_append_dropWhile, List.reverse_reverse]
  · intro s hs
    exact List.mem_takeWhile_imp (List.mem_reverse.1 hs)

theorem trimIdle_trimIdle (segments : List String) :
    trimIdle (trimIdle segments) = trimIdle segments := by
  rw [trimIdle, trimIdle, List.reverse_reverse, List.dropWhile_idempotent]

/-- What is left after trimming ends with a segment that names something. -/
theorem trimIdle_getLast (segments : List String) (h : trimIdle segments ≠ []) :
    isIdle ((trimIdle segments).getLast h) = false := by
  unfold trimIdle at h ⊢
  rw [List.getLast_reverse]
  exact List.head_dropWhile_not isIdle _

/-! ### Parents -/

/-- A path without idle segments at its end, but for the root. -/
def Tidy (p : Path) : Prop :=
  p = ⟨"/"⟩ ∨ ∃ first rest, p.segments = first :: rest ∧ trimIdle rest = rest

/-- The path of first segments of a path is as absolute, and has these
segments, but for one idle segment more in the root. -/
theorem segments_ofSegments {p : Path} {first : String} {rest : List String}
    (h : first :: rest <+: p.segments) :
    (ofSegments p.isAbsolute (first :: rest)).isAbsolute = p.isAbsolute ∧
      ((ofSegments p.isAbsolute (first :: rest)).segments = first :: rest ∨
        (ofSegments p.isAbsolute (first :: rest) = ⟨"/"⟩ ∧ first :: rest = [""])) := by
  -- the root is written with a slash, though its first segment is empty
  by_cases habs : p.isAbsolute = true ∧ first :: rest = [""]
  · have hroot : ofSegments p.isAbsolute (first :: rest) = ⟨"/"⟩ := if_pos habs
    refine ⟨?_, .inr ⟨hroot, habs.2⟩⟩
    rw [hroot, habs.1]
    rfl
  · have htext : ofSegments p.isAbsolute (first :: rest) =
        ⟨String.intercalate "/" (first :: rest)⟩ := if_neg habs
    have hsegments : (ofSegments p.isAbsolute (first :: rest)).segments = first :: rest := by
      rw [htext]
      exact segments_intercalate (by simp) fun part hpart => slash_not_mem (h.subset hpart)
    refine ⟨?_, .inl hsegments⟩
    obtain ⟨more, hmore⟩ := h
    apply Bool.eq_iff_iff.2
    constructor
    · exact isAbsolute_of_segments (by rw [hsegments, hmore])
    · intro hp
      obtain ⟨tail, -, htail⟩ := (isAbsolute_iff p).1 hp
      have hfirst : first = "" := by
        rw [← hmore] at htail
        exact (List.cons.inj htail).1
      subst hfirst
      have hlong : rest ≠ [] := fun hnil => habs ⟨hp, by rw [hnil]⟩
      exact (isAbsolute_iff _).2 ⟨_, hlong, hsegments⟩

/-- How a path goes on from its parent: idle segments, the last segment that
names something, and idle segments again. -/
structure Above (p q : Path) where
  /-- The segments of the parent. -/
  before : List String
  idle : List String
  last : String
  after : List String
  segments_eq : p.segments = before ++ (idle ++ last :: after)
  idle_idle : ∀ s ∈ idle, isIdle s = true
  last_busy : isIdle last = false
  after_idle : ∀ s ∈ after, isIdle s = true
  before_ne : before ≠ []
  absolute_eq : q.isAbsolute = p.isAbsolute
  parent_eq : q.segments = before ∨ (q = ⟨"/"⟩ ∧ before = [""])
  tidy : Tidy q

theorem Above.text_ne {p q : Path} (h : Above p q) : q.text ≠ "" := by
  intro hempty
  have hq : q = ⟨""⟩ := by
    obtain ⟨text⟩ := q
    exact congrArg Path.mk hempty
  have hsegments : q.segments = [""] := by
    rw [hq]
    decide
  have hrelative : q.isAbsolute = false := by
    rw [hq]
    decide
  rcases h.parent_eq with hbefore | ⟨hroot, -⟩
  · -- an empty segment and more make the path absolute
    have habs : p.isAbsolute = true := by
      refine (isAbsolute_iff p).2 ⟨h.idle ++ h.last :: h.after, by simp, ?_⟩
      rw [h.segments_eq, ← hbefore, hsegments]
      rfl
    rw [← h.absolute_eq, hrelative] at habs
    cases habs
  · rw [hq] at hroot
    exact absurd hroot (by decide)

/-- The segments of a parent are those of the path, but for empty ones. -/
theorem Above.mem_segments {p q : Path} (h : Above p q) {s : String} (hs : s ∈ q.segments) :
    s ∈ p.segments ∨ s = "" := by
  rcases h.parent_eq with hbefore | ⟨rfl, -⟩
  · rw [hbefore] at hs
    refine .inl ?_
    rw [h.segments_eq]
    exact List.mem_append_left _ hs
  · have hroot : segments ⟨"/"⟩ = ["", ""] := by decide
    rw [hroot] at hs
    refine .inr ?_
    simpa using hs

/-- A path that ends with a name ends right after its parent's child. -/
theorem Above.after_of_named {p q : Path} (h : Above p q) (hp : Named p) : h.after = [] := by
  by_contra hafter
  have hsegments : p.segments = (h.before ++ (h.idle ++ [h.last])) ++ h.after := by
    rw [h.segments_eq]
    simp
  have hmem : leaf p ∈ h.after := by
    rw [leaf, hsegments, List.getLast?_append, List.getLast?_eq_some_getLast hafter]
    exact List.getLast_mem hafter
  have hidle := h.after_idle _ hmem
  rw [hp.1] at hidle
  cases hidle

/-- A path without idle segments at its end ends right after its parent's
child. -/
theorem Above.after_nil {p q : Path} (h : Above p q) (hp : Tidy p) : h.after = [] := by
  by_contra hafter
  have hsegments : p.segments = (h.before ++ (h.idle ++ [h.last])) ++ h.after := by
    rw [h.segments_eq]
    simp
  rcases hp with rfl | ⟨first, rest, hall, htrim⟩
  · -- the root has idle segments only
    have hmem : h.last ∈ segments ⟨"/"⟩ := by
      rw [h.segments_eq]
      simp
    have hroot : segments ⟨"/"⟩ = ["", ""] := by decide
    rw [hroot] at hmem
    have hlast : h.last = "" := by simpa using hmem
    have hbusy := h.last_busy
    rw [hlast] at hbusy
    cases hbusy
  · have hrest : rest ≠ [] := by
      rintro rfl
      rw [h.segments_eq] at hall
      have hlength := congrArg List.length hall
      have hbefore := List.length_pos_iff.2 h.before_ne
      simp at hlength
      omega
    have hne : trimIdle rest ≠ [] := by
      rw [htrim]
      exact hrest
    have hbusy : isIdle (rest.getLast hrest) = false := by
      have := trimIdle_getLast rest hne
      simpa only [htrim] using this
    have hlast : rest.getLast hrest = h.after.getLast hafter := by
      have hleft : p.segments.getLast? = some (rest.getLast hrest) := by
        rw [hall, List.getLast?_cons, List.getLast?_eq_some_getLast hrest]
        rfl
      have hright : p.segments.getLast? = some (h.after.getLast hafter) := by
        rw [hsegments, List.getLast?_append, List.getLast?_eq_some_getLast hafter]
        rfl
      rw [hleft] at hright
      exact Option.some.inj hright
    rw [hlast, h.after_idle _ (List.getLast_mem hafter)] at hbusy
    cases hbusy

theorem idle_of_trimIdle {segments : List String} (h : trimIdle segments = []) :
    ∀ s ∈ segments, isIdle s = true := by
  obtain ⟨idle, hsegments, hidle⟩ := trimIdle_append segments
  rw [h, List.nil_append] at hsegments
  rw [hsegments]
  exact hidle

/-- A path without a parent names nothing. -/
theorem idle_of_no_parent {p : Path} (h : p.parent? = none) : ∀ s ∈ p.segments, isIdle s = true := by
  unfold parent? at h
  split at h
  next hnil => exact absurd hnil (segments_ne_nil p)
  next first rest hsegments =>
    -- a second name would have a parent
    cases hkept : trimIdle rest with
    | cons a more =>
      simp only [hkept] at h
      cases h
    | nil =>
      simp only [hkept] at h
      split at h
      next hfirst =>
        have hblank : first = "" := by
          rcases hfirst with habs | hblank
          · obtain ⟨tail, -, htail⟩ := (isAbsolute_iff p).1 habs
            rw [hsegments] at htail
            exact (List.cons.inj htail).1
          · exact hblank
        intro s hs
        rw [hsegments] at hs
        rcases List.mem_cons.1 hs with rfl | hs
        · rw [hblank]
          rfl
        · exact idle_of_trimIdle hkept s hs
      next => cases h

/-- If only idle segments follow the first one, a path that ends with a name has
no other segment. -/
theorem Named.single {p : Path} (hp : Named p) {first : String} {rest : List String}
    (hsegments : p.segments = first :: rest) (htrim : trimIdle rest = []) :
    p.segments = [first] := by
  cases rest with
  | nil => exact hsegments
  | cons a more =>
    have hmem : leaf p ∈ a :: more := by
      rw [leaf, hsegments, List.getLast?_cons_cons, List.getLast?_eq_some_getLast (by simp)]
      exact List.getLast_mem _
    have hidle := idle_of_trimIdle htrim _ hmem
    rw [hp.1] at hidle
    cases hidle

/-- A path that ends with a name has a parent. -/
theorem Named.parent_ne {p : Path} (hp : Named p) : p.parent? ≠ none := by
  intro hparent
  have hmem : leaf p ∈ p.segments := by
    rw [segments_leaf p]
    simp
  have hidle := idle_of_no_parent hparent _ hmem
  rw [hp.1] at hidle
  cases hidle

/-- The parent of a path is the empty path, or the path goes on from it. -/
theorem parent_above {p q : Path} (h : p.parent? = some q) :
    (q.text = "" ∧ ∃ first rest, p.segments = first :: rest ∧ trimIdle rest = []) ∨
      Nonempty (Above p q) := by
  unfold parent? at h
  split at h
  · cases h
  next first rest hsegments =>
    cases hkept : trimIdle rest with
    | nil =>
      simp only [hkept] at h
      split at h
      · cases h
      · cases h
        exact .inl ⟨rfl, first, rest, hsegments, hkept⟩
    | cons a more =>
      simp only [hkept] at h
      have hq : ofSegments p.isAbsolute (first :: trimIdle (a :: more).dropLast) = q :=
        Option.some.inj h
      -- the last segment that is kept goes, and the idle ones on both sides of it
      obtain ⟨after, hafter, hafterIdle⟩ := trimIdle_append rest
      obtain ⟨idle, hidle, hidleIdle⟩ := trimIdle_append (a :: more).dropLast
      have hne : trimIdle rest ≠ [] := by rw [hkept]; simp
      have hlast := trimIdle_getLast rest hne
      have hsplit : rest = trimIdle (a :: more).dropLast ++
          (idle ++ (trimIdle rest).getLast hne :: after) := by
        calc rest = trimIdle rest ++ after := hafter
          _ = ((trimIdle rest).dropLast ++ [(trimIdle rest).getLast hne]) ++ after := by
              rw [List.dropLast_concat_getLast]
          _ = ((trimIdle (a :: more).dropLast ++ idle) ++ [(trimIdle rest).getLast hne]) ++
              after := by rw [← hidle, ← hkept]
          _ = _ := by simp
      have hall : p.segments = (first :: trimIdle (a :: more).dropLast) ++
          (idle ++ (trimIdle rest).getLast hne :: after) := by
        rw [hsegments, List.cons_append, ← hsplit]
      obtain ⟨habs, hspell⟩ := segments_ofSegments (p := p) ⟨_, hall.symm⟩
      rw [hq] at habs hspell
      refine .inr ⟨⟨_, idle, _, after, hall, hidleIdle, hlast, hafterIdle, by simp, habs, hspell,
        ?_⟩⟩
      rcases hspell with hspell | ⟨hroot, -⟩
      · exact .inr ⟨_, _, hspell, trimIdle_trimIdle _⟩
      · exact .inl hroot

end Path

end ScreenHooks
