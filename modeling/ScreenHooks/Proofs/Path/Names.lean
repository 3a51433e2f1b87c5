/-
The names of a path.

The names of a path are its segments without the idle ones; its steps are these names
after the root, a single dot or nothing. The directory of a path has its names but the
last.

* **`components_eq`** — the steps of a path;
* **`names_join`** — the names of a join;
* **`names_directory`** — the directory of a path.
-/
import ScreenHooks.Proofs.Path.Segments

namespace ScreenHooks.Path

open Text

/-! ### Names -/

/-- The segments of a path that name something or climb. -/
def names (p : Path) : List String := p.segments.filter fun segment => !isIdle segment

theorem not_idle_of_mem_names {p : Path} {name : String} (h : name ∈ p.names) :
    isIdle name = false := by
  simpa using (List.mem_filter.1 h).2

theorem filter_idle {segments : List String} (h : ∀ s ∈ segments, isIdle s = true) :
    (segments.filter fun segment => !isIdle segment) = [] := by
  rw [List.filter_eq_nil_iff]
  intro segment hsegment
  simp [h segment hsegment]

theorem names_of_idle {p : Path} (h : ∀ s ∈ p.segments, isIdle s = true) : p.names = [] :=
  filter_idle h

theorem names_of_plain {name : String} (hslash : '/' ∉ name.toList) (hbusy : isIdle name = false) :
    names ⟨name⟩ = [name] := by
  rw [names, segments_of_plain hslash, List.filter_singleton, hbusy]
  rfl

theorem names_slash (s t : String) : names ⟨s ++ "/" ++ t⟩ = names ⟨s⟩ ++ names ⟨t⟩ := by
  rw [names, segments_append, List.filter_append]
  rfl

theorem names_empty : names ⟨""⟩ = [] := by decide

/-- The names of a join are those of its two parts. -/
theorem names_join (p : Path) {q : Path} (hq : q.isAbsolute = false) :
    (p.join q).names = p.names ++ q.names := by
  rw [join, hq, if_neg (by decide)]
  split
  next h =>
    rcases h with h | h
    · obtain ⟨text⟩ := p
      subst h
      rw [names_empty, String.empty_append]
      rfl
    · obtain ⟨before, htext⟩ := eq_append_slash h
      obtain ⟨text⟩ := p
      subst htext
      have hbefore := names_slash before ""
      rw [String.append_empty, names_empty, List.append_nil] at hbefore
      rw [names_slash, hbefore]
  next => exact names_slash _ _

/-! ### Steps -/

/-- The step of a name. -/
def Component.ofName (name : String) : Component := if name = ".." then .up else .name name

theorem ofName_ne_here (name : String) : Component.ofName name ≠ .here := by
  unfold Component.ofName
  split <;> exact nofun

theorem filterMap_ofSegment (segments : List String) :
    segments.filterMap Component.ofSegment? =
      (segments.filter fun segment => !isIdle segment).map Component.ofName := by
  induction segments with
  | nil => rfl
  | cons segment rest ih =>
    cases hidle : isIdle segment with
    | true =>
      have hnone : Component.ofSegment? segment = none := by
        rw [Component.ofSegment?, if_pos (by simpa [isIdle] using hidle)]
      rw [List.filterMap_cons_none hnone, List.filter_cons_of_neg (by simp [hidle]), ih]
    | false =>
      have hstep : Component.ofSegment? segment = some (.ofName segment) := by
        rw [Component.ofSegment?, if_neg (by simpa [isIdle] using hidle), Component.ofName]
        split <;> rfl
      rw [List.filterMap_cons_some hstep, List.filter_cons_of_pos (by simp [hidle]), ih,
        List.map_cons]

/-- Whether a relative path is written with a single dot in front. -/
def dotted (p : Path) : Bool := !p.isAbsolute && p.segments.head? == some "."

/-- What a path starts with before its names: the root, a single dot or nothing. -/
def lead (p : Path) : List Component :=
  if p.isAbsolute then [.root] else if p.dotted then [.here] else []

/-- A path has a step for each name. -/
theorem components_eq (p : Path) : p.components = p.lead ++ p.names.map Component.ofName := by
  unfold components lead dotted names
  cases hsegments : p.segments with
  | nil => exact absurd hsegments (segments_ne_nil p)
  | cons first rest =>
    simp only [filterMap_ofSegment]
    cases habs : p.isAbsolute with
    | true =>
      -- the first segment of an absolute path is the empty one before the root
      obtain ⟨more, -, hmore⟩ := (isAbsolute_iff p).1 habs
      rw [hsegments] at hmore
      obtain ⟨rfl, -⟩ := List.cons.inj hmore
      rw [List.filter_cons_of_neg (by decide)]
      rfl
    | false =>
      by_cases hdot : first = "."
      · subst hdot
        rw [List.filter_cons_of_neg (by decide)]
        rfl
      · have hfirst : (Component.ofFirst? first).toList =
            ([first].filter fun segment => !isIdle segment).map Component.ofName := by
          rw [Component.ofFirst?, if_neg hdot, ← filterMap_ofSegment]
          cases hstep : Component.ofSegment? first with
          | none => rw [List.filterMap_cons_none hstep]; rfl
          | some step => rw [List.filterMap_cons_some hstep]; rfl
        rw [hfirst, ← List.map_append, ← List.filter_append]
        simp [hdot]

/-! ### Paths that stay below their start -/

/-- Whether a path starts neither at the root nor climbs. -/
structure Level (p : Path) : Prop where
  relative : p.isAbsolute = false
  no_climb : ".." ∉ p.names

instance instDecidableLevel (p : Path) : Decidable (Level p) :=
  decidable_of_iff (p.isAbsolute = false ∧ ".." ∉ p.names) ⟨fun h => ⟨h.1, h.2⟩, fun h => ⟨h.1, h.2⟩⟩

theorem isAbsolute_append {s : String} (hs : s ≠ "") (t : String) :
    isAbsolute ⟨s ++ t⟩ = isAbsolute ⟨s⟩ := by
  cases hcs : s.toList with
  | nil => exact absurd (String.toList_inj.1 hcs) hs
  | cons c cs => simp [isAbsolute, startsWith, hcs, List.isPrefixOf]

theorem isAbsolute_of_plain {name : String} (h : '/' ∉ name.toList) :
    isAbsolute ⟨name⟩ = false := by
  apply Bool.eq_false_iff.2
  intro habs
  obtain ⟨rest, hrest, hsegments⟩ := (isAbsolute_iff _).1 habs
  rw [segments_of_plain h, List.cons.injEq] at hsegments
  exact hrest hsegments.2.symm

theorem isAbsolute_join {p q : Path} (hp : p.isAbsolute = false) (hq : q.isAbsolute = false) :
    (p.join q).isAbsolute = false := by
  rw [join, hq, if_neg (by decide)]
  by_cases hempty : p.text = ""
  · rw [if_pos (.inl hempty), hempty, String.empty_append]
    exact hq
  · split
    next => rw [isAbsolute_append hempty]; exact hp
    next =>
      rw [String.append_assoc, isAbsolute_append hempty]
      exact hp

theorem Level.join {p q : Path} (hp : Level p) (hq : Level q) : Level (p.join q) := by
  refine ⟨isAbsolute_join hp.relative hq.relative, ?_⟩
  rw [names_join p hq.relative, List.mem_append, not_or]
  exact ⟨hp.no_climb, hq.no_climb⟩

theorem level_of_plain {name : String} (hslash : '/' ∉ name.toList) (hup : name ≠ "..") :
    Level ⟨name⟩ := by
  refine ⟨isAbsolute_of_plain hslash, fun h => hup ?_⟩
  have hmem := (List.mem_filter.1 h).1
  rw [segments_of_plain hslash, List.mem_singleton] at hmem
  exact hmem.symm

/-! ### Directories of modules -/

/-- The directory that a path lies in, empty if none is written. -/
def directory (p : Path) : Path := p.parent?.getD ⟨""⟩

/-- The directory of a path has its names but the last. -/
theorem names_directory {p : Path} (hp : p.isAbsolute = false) :
    p.directory.names = p.names.dropLast ∧ p.directory.isAbsolute = false := by
  unfold directory
  cases hparent : p.parent? with
  | none =>
    rw [names_of_idle (idle_of_no_parent hparent)]
    exact ⟨names_empty, by decide⟩
  | some q =>
    rw [Option.getD_some]
    -- the parent of a single name is the empty path
    rcases parent_above hparent with ⟨hempty, first, rest, hsegments, hrest⟩ | ⟨⟨habove⟩⟩
    · obtain ⟨text⟩ := q
      subst hempty
      have hnames : p.names = [first].filter fun segment => !isIdle segment := by
        rw [names, hsegments, ← List.singleton_append, List.filter_append,
          filter_idle (idle_of_trimIdle hrest), List.append_nil]
      refine ⟨?_, by decide⟩
      rw [hnames, names_empty, List.filter_singleton]
      cases isIdle first <;> rfl
    · have hq : q.isAbsolute = false := habove.absolute_eq.trans hp
      refine ⟨?_, hq⟩
      have hbefore : q.segments = habove.before := by
        rcases habove.parent_eq with h | ⟨rfl, -⟩
        · exact h
        · exact absurd hq (by decide)
      have hnames : p.names = q.names ++ [habove.last] := by
        rw [names, habove.segments_eq, List.filter_append, List.filter_append,
          filter_idle habove.idle_idle, List.filter_cons_of_pos (by simp [habove.last_busy]),
          filter_idle habove.after_idle, names, hbefore]
        rfl
      rw [hnames, List.dropLast_concat]

theorem Level.directory {p : Path} (hp : Level p) : Level p.directory := by
  obtain ⟨hnames, habs⟩ := names_directory hp.relative
  refine ⟨habs, ?_⟩
  rw [hnames]
  exact fun h => hp.no_climb ((List.dropLast_sublist _).subset h)

end ScreenHooks.Path
