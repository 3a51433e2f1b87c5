/-
Paths without their extension.

The extension is taken off the end of the text, whatever idle segments stand there, and
the rest is cut after the stem of its last name. Unless the stem is a single dot, only
the last name is cut.

* **`segments_dropExtension`** — what is cut off a path;
* **`dropExtension_child`** — the path of a module without its extension.
-/
import ScreenHooks.Proofs.Path.Names

namespace ScreenHooks.Path

open Text

/-! ### Modules without their extension -/

/-- A stem of a file name: it is not empty, starts with no dot and has no slash. -/
structure Stem (name : String) : Prop where
  ne_empty : name ≠ ""
  no_dot : startsWith name "." = false
  no_slash : '/' ∉ name.toList

theorem Stem.append {name : String} (h : Stem name) {more : String} (hmore : '/' ∉ more.toList) :
    Stem (name ++ more) := by
  obtain ⟨hne, hdot, hslash⟩ := h
  cases hcs : name.toList with
  | nil => exact absurd (String.toList_inj.1 hcs) hne
  | cons c cs =>
    refine ⟨fun hempty => ?_, ?_, ?_⟩
    · have := congrArg String.toList hempty
      simp [hcs] at this
    · simpa [startsWith, hcs, List.isPrefixOf] using hdot
    · rw [String.toList_append, List.mem_append, not_or]
      exact ⟨hslash, hmore⟩

theorem Stem.not_idle {name : String} (h : Stem name) : isIdle name = false := by
  have hdot : name ≠ "." := by
    rintro rfl
    exact absurd h.no_dot (by decide)
  simp [isIdle, h.ne_empty, hdot]

theorem Stem.ne_up {name : String} (h : Stem name) : name ≠ ".." := by
  rintro rfl
  exact absurd h.no_dot (by decide)

theorem Stem.level {name : String} (h : Stem name) : Level ⟨name⟩ := level_of_plain h.no_slash h.ne_up

theorem Stem.names_child {name : String} (h : Stem name) (p : Path) :
    (p.child name).names = p.names ++ [name] := by
  rw [child, names_join p h.level.relative, names_of_plain h.no_slash h.not_idle]

/-- A module name is cut at the dot of its extension. -/
theorem splitExtension_stem {stem extension : String} (hstem : stem ≠ "")
    (hextension : '.' ∉ extension.toList) :
    splitExtension (stem ++ "." ++ extension) = (stem, some extension) := by
  have hreversed : (stem ++ "." ++ extension).toList.reverse =
      extension.toList.reverse ++ '.' :: stem.toList.reverse := by
    simp
  have hplain : ∀ c ∈ extension.toList.reverse, (c != '.') = true := by
    intro c hc
    rw [bne_iff_ne]
    rintro rfl
    exact hextension (List.mem_reverse.1 hc)
  unfold splitExtension
  simp only [hreversed]
  rw [List.dropWhile_append_of_pos hplain, List.takeWhile_append_of_pos hplain,
    List.dropWhile_cons_of_neg (by decide), List.takeWhile_cons_of_neg (by decide)]
  cases hcs : stem.toList.reverse with
  | nil => exact absurd (String.toList_inj.1 (by simpa using hcs)) hstem
  | cons c cs =>
    have hback : cs.reverse ++ [c] = stem.toList := by
      rw [← List.reverse_cons, ← hcs, List.reverse_reverse]
    simp [hback]

/-- The file name is the last name, unless that is a climb. -/
theorem fileName_eq (p : Path) : p.fileName? = p.names.getLast?.filter (· != "..") := by
  rw [fileName?, components_eq]
  rcases List.eq_nil_or_concat p.names with hnames | ⟨before, name, hnames⟩
  · rw [hnames, lead]
    cases p.isAbsolute <;> cases p.dotted <;> rfl
  · rw [hnames, List.concat_eq_append, List.map_append, ← List.append_assoc, List.map_singleton,
      List.getLast?_concat, List.getLast?_concat, Component.ofName, Option.filter]
    by_cases hup : name = ".." <;> simp [hup]

/-- A path with a last name that is no climb has that file name. -/
theorem fileName_of_segments {p : Path} {before idle : List String} {name : String}
    (hsegments : p.segments = before ++ name :: idle) (hidle : ∀ s ∈ idle, isIdle s = true)
    (hbusy : isIdle name = false) (hup : name ≠ "..") : p.fileName? = some name := by
  have hnames : p.names = (before.filter fun segment => !isIdle segment) ++ [name] := by
    rw [names, hsegments, List.filter_append, List.filter_cons_of_pos (by simp [hbusy]),
      filter_idle hidle]
  rw [fileName_eq, hnames, List.getLast?_concat, Option.filter, if_pos (by simp [hup])]

theorem child_append (p : Path) {name : String} (h : Stem name) (more : String) :
    p.child (name ++ more) = ⟨(p.child name).text ++ more⟩ := by
  have hmore : isAbsolute ⟨name ++ more⟩ = false := by
    rw [isAbsolute_append h.ne_empty]
    exact h.level.relative
  rw [child, child, join, join, hmore, h.level.relative, if_neg Bool.false_ne_true,
    if_neg Bool.false_ne_true]
  split <;> simp [String.append_assoc]

theorem segments_child (p : Path) {name : String} (h : Stem name) :
    ∃ before, (p.child name).segments = before ++ [name] ∧ ∀ more, '/' ∉ more.toList →
      (p.child (name ++ more)).segments = before ++ [name ++ more] := by
  have hleaf : leaf (p.child name) = name := by rw [leaf_child, leaf_of_plain h.no_slash]
  refine ⟨(p.child name).segments.dropLast, ?_, fun more hmore => ?_⟩
  · exact (segments_leaf _).trans (congrArg (fun last => _ ++ [last]) hleaf)
  · rw [child_append p h, segments_extend _ hmore]
    exact congrArg (fun last => _ ++ [last ++ more]) hleaf

/-- A path is cut after the stem of its file name. -/
theorem segments_cutAfterStem {p : Path} {before idle : List String} {name : String}
    (hsegments : p.segments = before ++ name :: idle) (hidle : ∀ s ∈ idle, isIdle s = true)
    (hbusy : isIdle name = false) (hup : name ≠ "..")
    (hslash : '/' ∉ (splitExtension name).1.toList) :
    (cutAfterStem p).segments = before ++ [(splitExtension name).1] := by
  have hname := fileName_of_segments hsegments hidle hbusy hup
  have htrim : ∀ kept : List String, (kept ++ idle).reverse.dropWhile isIdle =
      kept.reverse.dropWhile isIdle := by
    intro kept
    rw [List.reverse_append, List.dropWhile_append_of_pos fun s hs => hidle s (List.mem_reverse.1 hs)]
  -- the name is the first segment, or what is kept behind the first one ends with it
  cases before with
  | nil =>
    have hnone : trimIdle idle = [] := by
      rw [trimIdle, ← List.nil_append idle, htrim]
      rfl
    have hcut : cutAfterStem p = ⟨(splitExtension name).1⟩ := by
      rw [cutAfterStem, hname, hsegments]
      simp only [List.nil_append, hnone]
    rw [hcut]
    exact segments_of_plain hslash
  | cons first rest =>
    have hkept : trimIdle (rest ++ name :: idle) = rest ++ [name] := by
      rw [trimIdle, ← List.singleton_append, ← List.append_assoc, htrim, List.reverse_append,
        List.reverse_singleton, List.singleton_append, List.dropWhile_cons_of_neg (by simp [hbusy]),
        List.reverse_cons, List.reverse_reverse]
    have hcut : cutAfterStem p =
        ⟨String.intercalate "/" (first :: (rest ++ [(splitExtension name).1]))⟩ := by
      rw [cutAfterStem, hname, hsegments]
      simp only [List.cons_append, hkept]
      split
      next h => simp at h
      next => rw [List.dropLast_concat]
    rw [hcut]
    refine segments_intercalate (by simp) fun part hpart => ?_
    rw [← List.cons_append, List.mem_append, List.mem_singleton] at hpart
    rcases hpart with hpart | rfl
    · refine slash_not_mem (p := p) ?_
      rw [hsegments]
      exact List.mem_append_left _ hpart
    · exact hslash

/-! ### Taking off the extension -/

/-- The parts of a file name with an extension. -/
theorem eq_of_splitExtension {name stem extension : String}
    (h : splitExtension name = (stem, some extension)) :
    name = stem ++ "." ++ extension ∧ stem ≠ "" ∧ '.' ∉ extension.toList := by
  have hsplit := List.takeWhile_append_dropWhile (p := (· != '.')) (l := name.toList.reverse)
  -- what is taken off the end has no dot
  have hplain : '.' ∉ name.toList.reverse.takeWhile (· != '.') := fun hdot => by
    simpa using List.mem_takeWhile_imp hdot
  unfold splitExtension at h
  simp only [] at h
  split at h
  · cases h
  · cases h
  next dot rest hne hrest =>
    obtain ⟨rfl, hextension⟩ := Prod.mk.inj h
    obtain rfl := Option.some.inj hextension
    have hdot : dot = '.' := by
      have hhead := List.head?_dropWhile_not (· != '.') name.toList.reverse
      rw [hrest] at hhead
      simpa using hhead
    refine ⟨?_, ?_, by simpa using hplain⟩
    · rw [hrest, hdot] at hsplit
      have hback := congrArg List.reverse hsplit
      apply String.toList_inj.1
      simpa using hback.symm
    · intro hempty
      have hnil := congrArg String.toList hempty
      rw [String.toList_ofList, String.toList_empty, List.reverse_eq_nil_iff] at hnil
      exact hne hnil

theorem splitExtension_of_none {name : String} (h : (splitExtension name).2 = none) :
    (splitExtension name).1 = name := by
  unfold splitExtension at h ⊢
  simp only [] at h ⊢
  split at h
  · rfl
  · rfl
  · cases h

theorem intercalate_concat_append (before : List String) (s t : String) :
    String.intercalate "/" (before ++ [s ++ t]) = String.intercalate "/" (before ++ [s]) ++ t := by
  induction before with
  | nil => rw [List.nil_append, List.nil_append, String.intercalate_singleton,
      String.intercalate_singleton]
  | cons first rest ih =>
    cases hrest : rest with
    | nil => simp [String.intercalate_cons_cons, String.append_assoc]
    | cons next more =>
      rw [hrest] at ih
      simp only [List.cons_append, String.intercalate_cons_cons] at ih ⊢
      rw [ih, String.append_assoc, String.append_assoc, String.append_assoc]

/-- What stands after a segment. -/
theorem text_of_segments {p : Path} {before after : List String} {segment : String}
    (h : p.segments = before ++ segment :: after) :
    ∃ rest, p.text = String.intercalate "/" (before ++ [segment]) ++ rest := by
  have hslash : ∀ s ∈ before ++ segment :: after, '/' ∉ s.toList := by
    rw [← h]
    exact fun s => slash_not_mem
  have hfirst : segments ⟨String.intercalate "/" (before ++ [segment])⟩ = before ++ [segment] :=
    segments_intercalate (by simp) fun s hs => hslash s (by
      rw [List.mem_append, List.mem_singleton] at hs
      rw [List.mem_append, List.mem_cons]
      tauto)
  -- a slash and the other segments, if there are any
  cases after with
  | nil =>
    refine ⟨"", ?_⟩
    rw [String.append_empty]
    exact congrArg Path.text (eq_of_segments (h.trans hfirst.symm))
  | cons next more =>
    have hmore : segments ⟨String.intercalate "/" (next :: more)⟩ = next :: more :=
      segments_intercalate (by simp) fun s hs => hslash s (by simp [List.mem_cons.1 hs])
    refine ⟨"/" ++ String.intercalate "/" (next :: more), ?_⟩
    rw [← String.append_assoc]
    refine congrArg Path.text (eq_of_segments (h.trans ?_))
    rw [segments_append, hfirst, hmore, List.append_assoc]
    rfl

theorem isIdle_prefix {short segment : String} (h : isIdle segment = true)
    (hbegins : short.toList <+: segment.toList) : isIdle short = true := by
  have hsegment : segment = "" ∨ segment = "." := by simpa [isIdle] using h
  have hshort : short = "" ∨ short = "." := by
    rcases hsegment with rfl | rfl
    · exact .inl (String.toList_inj.1 (List.prefix_nil.1 hbegins))
    · rcases List.prefix_cons_iff.1 hbegins with hnil | ⟨rest, hrest, hnil⟩
      · exact .inl (String.toList_inj.1 hnil)
      · rw [List.prefix_nil.1 hnil] at hrest
        exact .inr (String.toList_inj.1 hrest)
  simpa [isIdle] using hshort

/-- As many characters less at its end as the extension has, a path still has the stem
and its dot in the place of its last name. -/
theorem segments_cutText {p q : Path} {before idle : List String} {stem extension : String}
    (hsegments : p.segments = before ++ (stem ++ "." ++ extension) :: idle)
    (hidle : ∀ s ∈ idle, isIdle s = true)
    (hq : q.text.toList = p.text.toList.take (p.text.toList.length - extension.toList.length)) :
    ∃ more rest, q.segments = before ++ (stem ++ "." ++ more) :: rest ∧
      more.toList <+: extension.toList ∧ ∀ s ∈ rest, isIdle s = true := by
  let start := String.intercalate "/" (before ++ [stem ++ "."])
  have hslash : ∀ s ∈ before ++ [stem ++ "."], '/' ∉ s.toList := by
    intro s hs hmem
    rcases List.mem_append.1 hs with hs | hs
    · exact slash_not_mem (p := p) (hsegments ▸ List.mem_append_left _ hs) hmem
    · rw [List.mem_singleton.1 hs] at hmem
      refine slash_not_mem (p := p) (hsegments ▸ List.mem_append_right _ List.mem_cons_self) ?_
      rw [String.toList_append]
      exact List.mem_append_left _ hmem
  have hstart : start.toList <+: q.text.toList := by
    obtain ⟨after, hafter⟩ := text_of_segments hsegments
    rw [intercalate_concat_append, String.append_assoc] at hafter
    rw [hq, hafter, String.toList_append, String.toList_append, List.take_append,
      List.take_of_length_le (by simp only [List.length_append]; omega)]
    exact List.prefix_append _ _
  have hshort : q.text.toList <+: p.text.toList := hq ▸ List.take_prefix _ _
  -- the path is cut off in the last name or behind it
  obtain ⟨_, part, last, rest, hpart, hlast, hbegins⟩ := segments_prefix (q := ⟨start⟩) hstart
  rw [segments_intercalate (by simp) hslash] at hlast
  obtain ⟨rfl, hstem⟩ := List.append_inj' hlast rfl
  obtain rfl := List.singleton_inj.1 hstem
  obtain ⟨chars, hchars⟩ := hbegins
  obtain ⟨more, rfl⟩ : ∃ more, part = stem ++ "." ++ more :=
    ⟨String.ofList chars, String.toList_inj.1 (by rw [← hchars]; simp)⟩
  obtain ⟨kept, whole, short, after, hwhole, hkept, hcut⟩ := segments_prefix hshort
  refine ⟨more, rest, hpart, ?_⟩
  rw [hpart] at hkept
  rw [hsegments] at hwhole
  rcases List.eq_nil_or_concat rest with rfl | ⟨init, final, rfl⟩
  · obtain ⟨rfl, hfinal⟩ := List.append_inj' hkept rfl
    obtain rfl := List.singleton_inj.1 hfinal
    obtain ⟨rfl, -⟩ := List.cons.inj (List.append_cancel_left hwhole)
    simp only [String.toList_append] at hcut
    exact ⟨(List.prefix_append_right_inj _).1 hcut, by simp⟩
  · rw [List.concat_eq_append, ← List.cons_append, ← List.append_assoc] at hkept
    obtain ⟨rfl, hfinal⟩ := List.append_inj' hkept rfl
    obtain rfl := List.singleton_inj.1 hfinal
    rw [List.append_assoc, List.append_cancel_left_eq, List.cons_append] at hwhole
    obtain ⟨hname, rfl⟩ := List.cons.inj hwhole
    rw [String.append_right_inj] at hname
    refine ⟨hname ▸ List.prefix_refl _, fun s hs => ?_⟩
    rw [List.concat_eq_append, List.mem_append, List.mem_singleton] at hs
    rcases hs with hs | rfl
    · exact hidle s (List.mem_append_left _ hs)
    · exact isIdle_prefix (hidle whole (List.mem_append_right _ List.mem_cons_self)) hcut

/-- What starts with a stem and a dot names something. -/
theorem not_idle_of_stem {stem : String} (hstem : stem ≠ "") (hdot : stem ≠ ".") (more : String) :
    isIdle (stem ++ "." ++ more) = false ∧ stem ++ "." ++ more ≠ ".." := by
  cases hcs : stem.toList with
  | nil => exact absurd (String.toList_inj.1 hcs) hstem
  | cons c cs =>
    have htext : (stem ++ "." ++ more).toList = c :: (cs ++ '.' :: more.toList) := by simp [hcs]
    have hne : ∀ other : String, other.toList.length ≤ 1 → stem ++ "." ++ more ≠ other := by
      rintro other hother rfl
      rw [htext] at hother
      simp at hother
    refine ⟨by simp [isIdle, hne "" (by decide), hne "." (by decide)], fun h => ?_⟩
    rw [h] at htext
    obtain ⟨rfl, hrest⟩ := List.cons.inj htext
    cases cs with
    | nil => exact hdot (String.toList_inj.1 hcs)
    | cons d cs => simp at hrest

/-- Only the last name of a path loses its extension, and what stands behind it. -/
theorem segments_dropExtension {p : Path} {before idle : List String} {name : String}
    (hsegments : p.segments = before ++ name :: idle) (hidle : ∀ s ∈ idle, isIdle s = true)
    (hbusy : isIdle name = false) (hup : name ≠ "..") (hdot : (splitExtension name).1 ≠ ".") :
    p.dropExtension.segments = before ++ [(splitExtension name).1] := by
  have hextension : p.extension? = (splitExtension name).2 := by
    rw [extension?, fileName_of_segments hsegments hidle hbusy hup]
    rfl
  have hslash : '/' ∉ name.toList :=
    slash_not_mem (p := p) (hsegments ▸ List.mem_append_right _ List.mem_cons_self)
  obtain ⟨stem, extension, hsplit⟩ : ∃ stem extension, splitExtension name = (stem, extension) :=
    ⟨_, _, rfl⟩
  rw [hsplit] at hextension hdot ⊢
  cases extension with
  | none =>
    have hstem : (splitExtension name).1 = name := splitExtension_of_none (by rw [hsplit])
    have hwhole : p.dropExtension = cutAfterStem p := by
      rw [dropExtension, hextension, Option.getD_none, String.length_empty, Nat.sub_zero,
        ← String.length_toList, List.take_length, String.ofList_toList]
    have hcut := segments_cutAfterStem hsegments hidle hbusy hup (by rwa [hstem])
    rwa [hsplit, ← hwhole] at hcut
  | some extension =>
    obtain ⟨rfl, hstem, hplain⟩ := eq_of_splitExtension hsplit
    -- the cut may leave a part of the extension, which the stem is cut from
    obtain ⟨more, rest, hcut, hbegins, hrest⟩ := segments_cutText hsegments hidle
      (q := ⟨String.ofList (p.text.toList.take (p.text.length - extension.length))⟩)
      (by rw [String.toList_ofList, String.length_toList, String.length_toList])
    have hsplit' : splitExtension (stem ++ "." ++ more) = (stem, some more) :=
      splitExtension_stem hstem fun h => hplain (hbegins.subset h)
    have hslash' : '/' ∉ stem.toList := fun h => hslash (by simp [h])
    obtain ⟨hbusy', hup'⟩ := not_idle_of_stem hstem hdot more
    have hfinal := segments_cutAfterStem hcut hrest hbusy' hup' (by rwa [hsplit'])
    rw [hsplit'] at hfinal
    rw [dropExtension, hextension]
    exact hfinal

/-- The path of a module without its extension. -/
theorem dropExtension_child (p : Path) {stem extension : String} (hstem : Stem stem)
    (hslash : '/' ∉ extension.toList) (hdot : '.' ∉ extension.toList) :
    (p.child (stem ++ "." ++ extension)).dropExtension = p.child stem := by
  have hplain : '/' ∉ ("." ++ extension).toList := by
    simpa using hslash
  have hfull := hstem.append hplain
  rw [← String.append_assoc] at hfull
  have hsplit := splitExtension_stem hstem.ne_empty hdot
  obtain ⟨before, hbefore, hmore⟩ := segments_child p hstem
  have hsegments := hmore _ hplain
  rw [← String.append_assoc] at hsegments
  apply eq_of_segments
  rw [segments_dropExtension hsegments (by simp) hfull.not_idle hfull.ne_up, hsplit, hbefore]
  rw [hsplit]
  rintro rfl
  exact absurd hstem.not_idle (by decide)

end ScreenHooks.Path
