/-
Where relative paths lead.

From a path that stays below its start, the climbs of a relative path undo what the two
paths do not share, and its names are the rest of the goal.

* **`collapsed_join_relative`** — joined to its start, a relative path leads to
  its goal;
* **`collapsed_join_moduleSpecifier`** — so does a specifier.
-/
import ScreenHooks.Path.Relative
import ScreenHooks.Proofs.Path.Extension

namespace ScreenHooks.Path

open Text

/-! ### The steps of a relative path -/

/-- A path has a step for each name, after the root or not. -/
theorem parts_eq (p : Path) :
    p.parts = (if p.isAbsolute then [.root] else []) ++ p.names.map Component.ofName := by
  have hnames : (p.names.map Component.ofName).filter (· != .here) =
      p.names.map Component.ofName := by
    rw [List.filter_eq_self]
    intro step hstep
    obtain ⟨name, -, rfl⟩ := List.mem_map.1 hstep
    simpa using ofName_ne_here name
  rw [parts, components_eq, List.filter_append, hnames, lead]
  cases p.isAbsolute <;> cases p.dotted <;> rfl

/-- A path that stays below its start has a step for each name. -/
theorem Level.parts_eq {p : Path} (hp : Level p) : p.parts = p.names.map Component.name := by
  rw [Path.parts_eq, hp.relative]
  refine List.map_congr_left fun name hname => ?_
  rw [Component.ofName, if_neg]
  rintro rfl
  exact hp.no_climb hname

/-- The first steps that two lists share. -/
theorem take_commonLength (a b : List Component) :
    commonLength a b ≤ a.length ∧ a.take (commonLength a b) = b.take (commonLength a b) := by
  induction a generalizing b with
  | nil => cases b <;> simp [commonLength]
  | cons x a ih =>
    cases b with
    | nil => simp [commonLength]
    | cons y b =>
      by_cases h : x = y
      · simp [commonLength, h, ih b]
      · simp [commonLength, h]

/-- No list that both start with has more steps than are counted. -/
theorem length_le_commonLength {other a b : List Component} (ha : other <+: a)
    (hb : other <+: b) : other.length ≤ commonLength a b := by
  induction other generalizing a b with
  | nil => exact Nat.zero_le _
  | cons step other ih =>
    obtain ⟨a, rfl⟩ := ha
    obtain ⟨b, rfl⟩ := hb
    have hrest := ih (List.prefix_append other a) (List.prefix_append other b)
    rw [List.cons_append, List.cons_append, commonLength, if_pos rfl]
    exact Nat.succ_le_succ hrest

/-- A relative path climbs from what is not shared and goes on with the rest of
the goal. -/
theorem relativeSegments_eq {start goal : Path} (hstart : Level start) (hgoal : Level goal) :
    ∃ shared ≤ start.names.length, start.names.take shared = goal.names.take shared ∧
      relativeSegments start goal =
        List.replicate (start.names.length - shared) ".." ++ goal.names.drop shared ∧
      ∀ other, other <+: start.names → other <+: goal.names → other.length ≤ shared := by
  have hinj : Function.Injective (List.map Component.name) :=
    List.map_injective_iff.2 fun _ _ h => Component.name.inj h
  obtain ⟨hle, htake⟩ := take_commonLength start.parts goal.parts
  have htexts : ∀ names : List String, (names.map Component.name).map Component.text = names :=
    fun names => by rw [List.map_map]; exact List.map_id names
  have hlongest : ∀ other, other <+: start.names → other <+: goal.names →
      other.length ≤ commonLength start.parts goal.parts := by
    intro other hleft hright
    have hcommon := length_le_commonLength (hleft.map Component.name) (hright.map Component.name)
    rwa [List.length_map, ← hstart.parts_eq, ← hgoal.parts_eq] at hcommon
  rw [hstart.parts_eq, hgoal.parts_eq] at hle htake hlongest
  rw [List.length_map] at hle
  rw [← List.map_take, ← List.map_take] at htake
  refine ⟨_, hle, hinj htake, ?_, hlongest⟩
  rw [relativeSegments, hstart.parts_eq, hgoal.parts_eq, List.length_map]
  simp only [← List.map_drop, htexts]

theorem relativeSegments_plain {start goal : Path} (hstart : Level start) (hgoal : Level goal) :
    ∀ segment ∈ relativeSegments start goal, '/' ∉ segment.toList ∧ isIdle segment = false := by
  obtain ⟨shared, -, -, hsegments, -⟩ := relativeSegments_eq hstart hgoal
  intro segment hsegment
  rw [hsegments, List.mem_append] at hsegment
  rcases hsegment with h | h
  · rw [List.eq_of_mem_replicate h]
    decide
  · have hmem := List.mem_of_mem_drop h
    exact ⟨slash_not_mem (List.mem_filter.1 hmem).1, not_idle_of_mem_names hmem⟩

/-- Whether segments start with a climb is told by the first of them. -/
theorem startsWith_intercalate (first : String) (rest : List String) :
    startsWith (String.intercalate "/" (first :: rest)) ".." = startsWith first ".." := by
  cases rest with
  | nil => rw [String.intercalate_singleton]
  | cons next more =>
    rw [String.intercalate_cons_cons, startsWith, startsWith, String.toList_append,
      String.toList_append]
    -- the slash after the first segment is no dot
    rcases first.toList with _ | ⟨a, _ | ⟨b, cs⟩⟩ <;> simp [List.isPrefixOf]

/-- The text of a relative path, by its first segment. -/
theorem relative_text {start goal : Path} {first : String} {rest : List String}
    (h : relativeSegments start goal = first :: rest) (hfirst : isIdle first = false) :
    relative start goal = (if startsWith first ".." then "" else "./") ++
      String.intercalate "/" (first :: rest) := by
  have hne : String.intercalate "/" (first :: rest) ≠ "" := by
    have hfirst : first ≠ "" := by
      rintro rfl
      cases hfirst
    cases rest with
    | nil => rwa [String.intercalate_singleton]
    | cons next more => simp [String.intercalate_cons_cons]
  simp only [relative, h, startsWith_intercalate, if_neg hne]
  split <;> simp

/-- A relative path is written as its steps, after a dot or not; there is none in front of
a climb. -/
theorem segments_relative {start goal : Path} (hstart : Level start) (hgoal : Level goal) :
    ∃ dots, segments ⟨relative start goal⟩ = dots ++ relativeSegments start goal ∧
      (∀ segment ∈ dots, segment = ".") ∧
      ((relativeSegments start goal).head? = some ".." → dots = []) := by
  have hplain := relativeSegments_plain hstart hgoal
  cases hsteps : relativeSegments start goal with
  | nil =>
    have hdot : relative start goal = "." := by
      rw [relative, hsteps]
      rfl
    exact ⟨["."], by rw [hdot]; decide, by simp, by simp⟩
  | cons first rest =>
    rw [hsteps] at hplain
    have hback : segments ⟨String.intercalate "/" (first :: rest)⟩ = first :: rest :=
      segments_intercalate (by simp) fun part hpart => (hplain part hpart).1
    rw [relative_text hsteps (hplain first List.mem_cons_self).2]
    -- the dot stands in front of a first step that does not start like a climb
    cases hclimb : startsWith first ".." with
    | true => exact ⟨[], by rw [if_pos rfl, String.empty_append, hback]; rfl, by simp, by simp⟩
    | false =>
      have hslash : "./" ++ String.intercalate "/" (first :: rest) =
          "." ++ "/" ++ String.intercalate "/" (first :: rest) := rfl
      have hdot : segments ⟨"."⟩ = ["."] := by decide
      refine ⟨["."], ?_, by simp, fun hhead => ?_⟩
      · rw [if_neg (by decide), hslash, segments_append, hback, hdot]
      · rw [Option.some.inj hhead] at hclimb
        cases hclimb

/-- A relative path is not empty, and has no slash at either end. -/
theorem relative_ends {start goal : Path} (hstart : Level start) (hgoal : Level goal) :
    relative start goal ≠ "" ∧ isAbsolute ⟨relative start goal⟩ = false ∧
      endsWith (relative start goal) "/" = false := by
  have hempty : "" ∉ segments ⟨relative start goal⟩ := by
    obtain ⟨dots, hsegments, hdots, -⟩ := segments_relative hstart hgoal
    rw [hsegments, List.mem_append, not_or]
    constructor
    · intro h
      exact absurd (hdots _ h) (by decide)
    · intro h
      exact absurd (relativeSegments_plain hstart hgoal _ h).2 (by decide)
  refine ⟨fun h => ?_, Bool.eq_false_iff.2 fun h => ?_, Bool.eq_false_iff.2 fun h => ?_⟩
  · rw [h] at hempty
    exact hempty (by decide)
  · obtain ⟨rest, -, hsegments⟩ := (isAbsolute_iff _).1 h
    rw [hsegments] at hempty
    exact hempty List.mem_cons_self
  · obtain ⟨before, htext⟩ := eq_append_slash h
    have hsegments := segments_append before ""
    rw [String.append_empty, ← htext] at hsegments
    rw [hsegments] at hempty
    exact hempty (List.mem_append_right _ (by decide))

/-- The names of a relative path are its steps. -/
theorem names_relative {start goal : Path} (hstart : Level start) (hgoal : Level goal) :
    names ⟨relative start goal⟩ = relativeSegments start goal := by
  obtain ⟨dots, hsegments, hdots, -⟩ := segments_relative hstart hgoal
  have hidle : ∀ segment ∈ dots, isIdle segment = true := by
    intro segment hsegment
    rw [hdots segment hsegment]
    rfl
  rw [names, hsegments, List.filter_append, filter_idle hidle, List.nil_append,
    List.filter_eq_self]
  intro segment hsegment
  simp [(relativeSegments_plain hstart hgoal segment hsegment).2]

/-! ### Collapsed paths -/

/-- One name of a path that is collapsed; the names so far are listed last first.
A climb undoes the name before it, and stays if there is none. -/
def undo (before : List String) (name : String) : List String :=
  if name = ".." then
    match before with
    | [] => [".."]
    | last :: rest => if last = ".." then ".." :: before else rest
  else name :: before

theorem undo_name {name : String} (h : name ≠ "..") (before : List String) :
    undo before name = name :: before := if_neg h

theorem undo_climb {last : String} (h : last ≠ "..") (rest : List String) :
    undo (last :: rest) ".." = rest := by
  simp [undo, h]

/-- The names of a path, without single dots and with climbs undone. -/
def collapsed (p : Path) : List String := (p.names.foldl undo []).reverse

theorem foldl_undo_of_no_climb {names : List String} (h : ".." ∉ names) (before : List String) :
    names.foldl undo before = names.reverse ++ before := by
  induction names generalizing before with
  | nil => rfl
  | cons name rest ih =>
    obtain ⟨hne, hrest⟩ := not_or.1 (mt List.mem_cons.2 h)
    rw [List.foldl_cons, undo_name (Ne.symm hne), ih hrest, List.reverse_cons,
      List.append_assoc]
    rfl

theorem foldl_undo_climbs {before : List String} (h : ".." ∉ before) {count : Nat}
    (hcount : count ≤ before.length) :
    (List.replicate count "..").foldl undo before = before.drop count := by
  induction count generalizing before with
  | zero => rfl
  | succ count ih =>
    cases before with
    | nil => cases hcount
    | cons last rest =>
      obtain ⟨hne, hrest⟩ := not_or.1 (mt List.mem_cons.2 h)
      rw [List.replicate_succ, List.foldl_cons, undo_climb (Ne.symm hne)]
      exact ih hrest (Nat.le_of_succ_le_succ hcount)

/-- A relative path leads to the same from two spellings of its start. -/
theorem collapsed_join_congr {p q r : Path} (hnames : p.names = q.names)
    (hr : r.isAbsolute = false) : (p.join r).collapsed = (q.join r).collapsed := by
  rw [collapsed, collapsed, names_join p hr, names_join q hr, hnames]

/-- From the names of its start the steps of a relative path lead to the goal. -/
theorem foldl_undo_relative {start goal : Path} (hstart : Level start) (hgoal : Level goal) :
    (start.names ++ relativeSegments start goal).foldl undo [] = goal.names.foldl undo [] := by
  obtain ⟨shared, hle, htake, hsegments, -⟩ := relativeSegments_eq hstart hgoal
  have hreverse : ".." ∉ start.names.reverse := mt List.mem_reverse.1 hstart.no_climb
  have hclimbs : start.names.reverse.drop (start.names.length - shared) =
      (goal.names.take shared).reverse := by
    rw [← htake, List.drop_reverse, Nat.sub_sub_self hle]
  have hdrop : ".." ∉ goal.names.drop shared := fun h => hgoal.no_climb (List.mem_of_mem_drop h)
  rw [List.foldl_append, foldl_undo_of_no_climb hstart.no_climb, List.append_nil, hsegments,
    List.foldl_append, foldl_undo_climbs hreverse (by simp), hclimbs,
    foldl_undo_of_no_climb hdrop, foldl_undo_of_no_climb hgoal.no_climb, List.append_nil,
    ← List.reverse_append, List.take_append_drop]

/-- Joined to its start, a relative path leads to its goal. -/
theorem collapsed_join_relative {start goal : Path} (hstart : Level start) (hgoal : Level goal) :
    (start.join ⟨relative start goal⟩).collapsed = goal.collapsed := by
  rw [collapsed, names_join start (relative_ends hstart hgoal).2.1, names_relative hstart hgoal,
    foldl_undo_relative hstart hgoal, collapsed]

theorem relative_slash_relative {start goal : Path} (hstart : Level start) (hgoal : Level goal)
    (more : String) : isAbsolute ⟨relative start goal ++ "/" ++ more⟩ = false := by
  obtain ⟨hne, habs, -⟩ := relative_ends hstart hgoal
  rw [String.append_assoc, isAbsolute_append hne]
  exact habs

/-- A path that goes on after a relative one leads on from the goal. -/
theorem collapsed_join_relative_slash {start goal : Path} (hstart : Level start)
    (hgoal : Level goal) {more : String} (hmore : isAbsolute ⟨more⟩ = false) :
    (start.join ⟨relative start goal ++ "/" ++ more⟩).collapsed =
      (goal.join ⟨more⟩).collapsed := by
  rw [collapsed, names_join start (relative_slash_relative hstart hgoal more), names_slash, names_relative hstart hgoal,
    ← List.append_assoc, List.foldl_append, foldl_undo_relative hstart hgoal,
    ← List.foldl_append, ← names_join goal hmore, collapsed]

/-- Joined to the directory of the module that it is written in, a specifier leads
to its module, without the extension. -/
theorem collapsed_join_moduleSpecifier {source dir : Path} {stem extension : String}
    (hsource : Level source) (hdir : Level dir) (hstem : Stem stem)
    (hslash : '/' ∉ extension.toList) (hdot : '.' ∉ extension.toList) :
    (source.directory.join
        ⟨moduleSpecifier source (dir.child (stem ++ "." ++ extension))⟩).collapsed =
      (dir.child stem).collapsed := by
  rw [moduleSpecifier, dropExtension_child dir hstem hslash hdot]
  exact collapsed_join_relative hsource.directory (hdir.join hstem.level)

/-- Without a slash at its end a text is not trimmed. -/
theorem trimEndOf_slash {s : String} (h : endsWith s "/" = false) : trimEndOf s '/' = s := by
  have hlast : ∀ rest, s.toList.reverse ≠ '/' :: rest := by
    intro rest hrest
    have hends : endsWith s "/" = true := by
      refine List.isSuffixOf_iff_suffix.2 ⟨rest.reverse, ?_⟩
      have hback := congrArg List.reverse hrest
      rw [List.reverse_reverse, List.reverse_cons] at hback
      rw [hback]
      rfl
    rw [h] at hends
    cases hends
  rw [trimEndOf]
  cases hcs : s.toList.reverse with
  | nil =>
    rw [List.reverse_eq_nil_iff] at hcs
    exact String.toList_inj.1 (by simp [hcs])
  | cons a rest =>
    have hne : ¬ (a == '/') = true := by
      intro ha
      exact hlast rest (by rw [hcs, beq_iff_eq.1 ha])
    rw [List.dropWhile_cons_of_neg (p := (· == '/')) hne, ← hcs, List.reverse_reverse,
      String.ofList_toList]

end ScreenHooks.Path
