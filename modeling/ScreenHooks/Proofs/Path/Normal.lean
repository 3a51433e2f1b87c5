/-
Normal forms of paths.

The normal form of a path is a root or none, a climb or none, and names. These are
the names of the path that no climb undoes; of the climbs that nothing undoes it
only keeps whether they are odd, since a climb undoes a climb there. The place that
it spells tells the names, so one file has at most four paths in normal form.

* **`Follows.leads`** — moves along a path, by its climbs and names;
* **`normalize_eq`** — the normal form of a path;
* **`normalize_normalize`** — a normal form is its own;
* **`keys_bounded`** — how many of them lead to files.
-/
import Mathlib.Data.List.Perm.Subperm
import ScreenHooks.Proofs.Disk.Places
import ScreenHooks.Proofs.Path.Relative
import ScreenHooks.Proofs.Path.Steps

namespace ScreenHooks

namespace Path

/-! ### Their steps -/

/-- A step that names an entry. -/
def Proper (name : String) : Prop := isIdle name = false ∧ name ≠ ".." ∧ '/' ∉ name.toList

/-- The path of a root or none, a climb or none, and names. -/
def spelled (root up : Bool) (names : List String) : Path :=
  ofComponents ((if root then [.root] else []) ++ ((if up then [.up] else []) ++
    names.map Component.name))

/-- The steps of a normal form so far, last first. -/
def stacked (root up : Bool) (names : List String) : List Component :=
  names.map Component.name ++ ((if up then [.up] else []) ++ (if root then [.root] else []))

/-- The segments of a normal form, without the root. -/
def legs (up : Bool) (names : List String) : List String := (if up then [".."] else []) ++ names

theorem spelled_text (root up : Bool) (names : List String) :
    (spelled root up names).text =
      (if root then "/" else "") ++ String.intercalate "/" (legs up names) := by
  have hnames : (names.map Component.name).map Component.text = names := by
    rw [List.map_map]
    exact List.map_id names
  cases root with
  | true =>
    cases up <;> simp [spelled, ofComponents, legs, hnames, Component.text]
  | false =>
    cases up with
    | true => simp [spelled, ofComponents, legs, hnames, Component.text]
    | false =>
      cases names with
      | nil => rfl
      | cons first rest =>
        show String.intercalate "/" (((first :: rest).map Component.name).map Component.text) = _
        rw [hnames, legs, if_neg (by decide), if_neg (by decide), String.empty_append]
        rfl

theorem legs_busy (up : Bool) {names : List String} (h : ∀ name ∈ names, Proper name) :
    ∀ leg ∈ legs up names, Busy leg := by
  intro leg hleg
  rcases List.mem_append.1 hleg with hleg | hleg
  · cases up with
    | true => rw [List.mem_singleton.1 hleg]; exact ⟨by decide, by decide⟩
    | false => cases hleg
  · exact ⟨(h leg hleg).1, (h leg hleg).2.2⟩

theorem map_legs (up : Bool) {names : List String} (h : ∀ name ∈ names, Proper name) :
    (legs up names).map Component.ofName =
      (if up then [.up] else []) ++ names.map Component.name := by
  have hnames : names.map Component.ofName = names.map Component.name :=
    List.map_congr_left fun name hname => by rw [Component.ofName, if_neg (h name hname).2.1]
  rw [legs, List.map_append, hnames]
  cases up <;> rfl

theorem segments_legs (up : Bool) {names : List String} (h : ∀ name ∈ names, Proper name) :
    segments ⟨String.intercalate "/" (legs up names)⟩ = legs up names ∨
      (segments ⟨String.intercalate "/" (legs up names)⟩ = [""] ∧ legs up names = []) := by
  by_cases hnone : legs up names = []
  · rw [hnone]
    exact .inr ⟨by decide, rfl⟩
  · exact .inl (segments_intercalate hnone fun leg hleg => (legs_busy up h leg hleg).2)

theorem spelled_segments (root up : Bool) {names : List String}
    (h : ∀ name ∈ names, Proper name) :
    ∃ idle, (spelled root up names).segments = idle ++ legs up names ∧
      ∀ s ∈ idle, isIdle s = true := by
  have hidle : ∀ n, ∀ s ∈ List.replicate n "", isIdle s = true := by
    intro n s hs
    rw [List.eq_of_mem_replicate hs]
    rfl
  have htext : spelled root up names =
      ⟨(if root then "/" else "") ++ String.intercalate "/" (legs up names)⟩ := by
    rw [← spelled_text]
  rw [htext]
  cases root with
  | true =>
    rw [if_pos rfl, segments_slash]
    rcases segments_legs up h with hlegs | ⟨hlegs, hnone⟩
    · exact ⟨[""], by rw [hlegs]; rfl, hidle 1⟩
    · exact ⟨["", ""], by rw [hlegs, hnone]; rfl, hidle 2⟩
  | false =>
    rw [if_neg (by decide), String.empty_append]
    rcases segments_legs up h with hlegs | ⟨hlegs, hnone⟩
    · exact ⟨[], by rw [hlegs]; rfl, hidle 0⟩
    · exact ⟨[""], by rw [hlegs, hnone]; rfl, hidle 1⟩

/-- The steps of a normal form are those that it is made of. -/
theorem components_spelled {root up : Bool} {names : List String}
    (h : ∀ name ∈ names, Proper name) :
    (spelled root up names).components =
      (if root then [.root] else []) ++ ((if up then [.up] else []) ++
        names.map Component.name) := by
  rw [spelled, ← map_legs up h]
  exact components_ofComponents (by cases root <;> simp) (legs_busy up h)

theorem spelled_made (root up : Bool) {names : List String} (h : ∀ name ∈ names, Proper name) :
    (spelled root up names).isAbsolute = root ∧ (spelled root up names).names = legs up names := by
  have hsteps : (spelled root up names).components =
      (if root then [.root] else []) ++ (legs up names).map Component.ofName := by
    rw [components_spelled h, map_legs up h]
  obtain ⟨hlead, hnames⟩ := lead_of_components (by cases root <;> simp) hsteps
  refine ⟨?_, hnames⟩
  rw [Bool.eq_iff_iff, ← lead_eq_root, hlead]
  cases root <;> simp

/-! ### Their climbs and names -/

/-- The number of climbs of a path that nothing undoes. -/
def overshoot (p : Path) : Nat := (p.collapsed.takeWhile (· == "..")).length

/-- The names of a path that no climb undoes. -/
def below (p : Path) : List String := p.collapsed.dropWhile (· == "..")

/-- Whether a number of climbs is odd. -/
def isOdd (climbs : Nat) : Bool := climbs % 2 = 1

theorem isOdd_succ (climbs : Nat) : isOdd (climbs + 1) = !isOdd climbs := by
  unfold isOdd
  rw [← decide_not]
  exact decide_eq_decide.2 (by omega)

/-- One is kept of an odd number. -/
theorem replicate_odd {α : Type} (climbs : Nat) (step : α) :
    List.replicate (climbs % 2) step = if isOdd climbs then [step] else [] := by
  obtain heven | hodd := Nat.mod_two_eq_zero_or_one climbs
  · simp [isOdd, heven]
  · simp [isOdd, hodd]

/-- Moves along a path that can be told by its names: by the number of climbs that nothing
undoes, and by the names after them, last first. -/
structure Follows {α : Type} (move : α → Component → α) (stand : Nat → List String → α) :
    Prop where
  here : ∀ place, move place .here = place
  name : ∀ climbs names name, move (stand climbs names) (.name name) = stand climbs (name :: names)
  undone : ∀ climbs last names, move (stand climbs (last :: names)) .up = stand climbs names
  kept : ∀ climbs, move (stand climbs []) .up = stand (climbs + 1) []

section Follows

variable {α : Type} {move : α → Component → α} {stand : Nat → List String → α}

/-- A move along one name, and the same name where all climbs are kept. -/
theorem Follows.step (h : Follows move stand) {names : List String} (hnames : ".." ∉ names)
    (climbs : Nat) (name : String) :
    ∃ climbs' names', undo (names ++ List.replicate climbs "..") name =
        names' ++ List.replicate climbs' ".." ∧
      move (stand climbs names) (Component.ofName name) = stand climbs' names' ∧
      ".." ∉ names' ∧ ∀ other ∈ names', other ∈ names ∨ other = name := by
  by_cases hup : name = ".."
  · subst hup
    cases names with
    | nil =>
      refine ⟨climbs + 1, [], ?_, h.kept climbs, by simp, by simp⟩
      cases climbs with
      | zero => rfl
      | succ climbs => simp [undo, List.replicate_succ]
    | cons last rest =>
      obtain ⟨hlast, hrest⟩ := not_or.1 (mt List.mem_cons.2 hnames)
      exact ⟨climbs, rest, undo_climb (Ne.symm hlast) _, h.undone climbs last rest, hrest,
        fun other hother => .inl (List.mem_cons_of_mem _ hother)⟩
  · refine ⟨climbs, name :: names, undo_name hup _, ?_, ?_, fun other hother => ?_⟩
    · rw [Component.ofName, if_neg hup, h.name]
    · rw [List.mem_cons, not_or]
      exact ⟨Ne.symm hup, hnames⟩
    · exact (List.mem_cons.1 hother).symm

theorem Follows.steps (h : Follows move stand) (steps : List String) {names : List String}
    (hnames : ".." ∉ names) (climbs : Nat) :
    ∃ climbs' names', steps.foldl undo (names ++ List.replicate climbs "..") =
        names' ++ List.replicate climbs' ".." ∧
      (steps.map Component.ofName).foldl move (stand climbs names) = stand climbs' names' ∧
      ".." ∉ names' ∧ ∀ other ∈ names', other ∈ names ∨ other ∈ steps := by
  induction steps generalizing names climbs with
  | nil => exact ⟨climbs, names, rfl, rfl, hnames, fun other hother => .inl hother⟩
  | cons step rest ih =>
    obtain ⟨mid, between, hundo, hmove, hbetween, hfrom⟩ := h.step hnames climbs step
    obtain ⟨climbs', names', hundos, hmoves, hnames', hfrom'⟩ := ih hbetween mid
    refine ⟨climbs', names', ?_, ?_, hnames', fun other hother => ?_⟩
    · rw [List.foldl_cons, hundo, hundos]
    · rw [List.map_cons, List.foldl_cons, hmove, hmoves]
    · rcases hfrom' other hother with hmem | hmem
      · rcases hfrom other hmem with hmem | rfl
        · exact .inl hmem
        · exact .inr List.mem_cons_self
      · exact .inr (List.mem_cons_of_mem _ hmem)

/-- Single dots do not move. -/
theorem Follows.foldl_parts (h : Follows move stand) (steps : List Component) (place : α) :
    (steps.filter (· != .here)).foldl move place = steps.foldl move place := by
  induction steps generalizing place with
  | nil => rfl
  | cons step rest ih =>
    by_cases hstep : step = .here
    · rw [hstep, List.filter_cons_of_neg (by decide), ih, List.foldl_cons, h.here]
    · rw [List.filter_cons_of_pos (by simpa using hstep), List.foldl_cons, List.foldl_cons, ih]

end Follows

/-- The climbs that nothing undoes stand in front. -/
theorem overshoot_of_collapsed {p : Path} {climbs : Nat} {names : List String}
    (h : p.collapsed = List.replicate climbs ".." ++ names) (hnames : ".." ∉ names) :
    p.overshoot = climbs ∧ p.below = names := by
  have hups : ∀ name ∈ List.replicate climbs "..", (name == "..") = true := by simp
  have hrest : names.takeWhile (· == "..") = [] ∧ names.dropWhile (· == "..") = names := by
    cases names with
    | nil => simp
    | cons first rest =>
      have hfirst : first ≠ ".." := Ne.symm (not_or.1 (mt List.mem_cons.2 hnames)).1
      simp [hfirst]
  constructor
  · rw [overshoot, h, List.takeWhile_append_of_pos hups, hrest.1, List.append_nil,
      List.length_replicate]
  · rw [below, h, List.dropWhile_append_of_pos hups, hrest.2]

/-- The climbs of a path and its names, and where moves along it lead. -/
theorem Follows.leads {α : Type} {move : α → Component → α} {stand : Nat → List String → α}
    (h : Follows move stand) {p : Path} {start : α}
    (hstart : (if p.isAbsolute then [.root] else []).foldl move start = stand 0 []) :
    p.components.foldl move start = stand p.overshoot p.below.reverse ∧
      p.collapsed = List.replicate p.overshoot ".." ++ p.below ∧
      ∀ name ∈ p.below, Proper name := by
  obtain ⟨climbs, names, hundo, hmove, hnames, hfrom⟩ :=
    h.steps p.names (List.not_mem_nil : ".." ∉ []) 0
  have hcollapsed : p.collapsed = List.replicate climbs ".." ++ names.reverse := by
    rw [collapsed]
    exact (congrArg List.reverse hundo).trans (by simp)
  obtain ⟨hovershoot, hbelow⟩ := overshoot_of_collapsed hcollapsed
    (mt List.mem_reverse.1 hnames)
  rw [hovershoot, hbelow, List.reverse_reverse]
  refine ⟨?_, hcollapsed, fun name hname => ?_⟩
  · rw [← h.foldl_parts]
    show p.parts.foldl move start = _
    rw [parts_eq, List.foldl_append, hstart, hmove]
  · have hmem := (hfrom name (List.mem_reverse.1 hname)).resolve_left List.not_mem_nil
    refine ⟨not_idle_of_mem_names hmem, ?_, slash_not_mem (List.mem_filter.1 hmem).1⟩
    rintro rfl
    exact hnames (List.mem_reverse.1 hname)

/-- The normal form drops a climb with the climb before it. -/
theorem follows_climb (root : Bool) :
    Follows climb fun climbs names => stacked root (isOdd climbs) names where
  here _ := rfl
  name _ _ _ := rfl
  undone _ _ _ := rfl
  kept climbs := by
    simp only [isOdd_succ]
    cases isOdd climbs <;> cases root <;> rfl

/-- The climbs of a path and its names, and the normal form that is made of them. -/
theorem normalize_eq (p : Path) :
    p.normalize = spelled p.isAbsolute (isOdd p.overshoot) p.below ∧
      p.collapsed = List.replicate p.overshoot ".." ++ p.below ∧
      ∀ name ∈ p.below, Proper name := by
  have hstart : (if p.isAbsolute then [Component.root] else []).foldl climb [] =
      stacked p.isAbsolute (isOdd 0) [] := by
    cases p.isAbsolute <;> rfl
  obtain ⟨hclimb, hcollapsed, hproper⟩ := (follows_climb p.isAbsolute).leads hstart
  refine ⟨?_, hcollapsed, hproper⟩
  rw [normalize, collapse, hclimb, stacked, spelled]
  cases p.isAbsolute <;> cases isOdd p.overshoot <;> simp

/-- A normal form is a root or none, a climb or none, and proper names. -/
theorem normalize_shape (p : Path) : ∃ root up names,
    p.normalize = spelled root up names ∧ ∀ name ∈ names, Proper name :=
  ⟨_, _, _, (normalize_eq p).1, (normalize_eq p).2.2⟩

/-! ### Normal forms of normal forms -/

/-- Nothing in a normal form is undone. -/
theorem collapsed_spelled (root up : Bool) {names : List String}
    (h : ∀ name ∈ names, Proper name) : (spelled root up names).collapsed = legs up names := by
  rw [collapsed, (spelled_made root up h).2, legs, List.foldl_append,
    foldl_undo_of_no_climb fun hmem => (h _ hmem).2.1 rfl]
  cases up <;> simp [undo]

/-- The normal form of a path has its start and its names, and one climb of an odd number. -/
theorem normalize_leads (p : Path) : p.normalize.isAbsolute = p.isAbsolute ∧
    p.normalize.overshoot = p.overshoot % 2 ∧ p.normalize.below = p.below := by
  obtain ⟨hnormal, -, hproper⟩ := normalize_eq p
  have hcollapsed : p.normalize.collapsed =
      List.replicate (p.overshoot % 2) ".." ++ p.below := by
    rw [hnormal, collapsed_spelled _ _ hproper, legs, replicate_odd]
  refine ⟨?_, overshoot_of_collapsed hcollapsed fun hmem => (hproper _ hmem).2.1 rfl⟩
  rw [hnormal, (spelled_made _ _ hproper).1]

/-- A normal form is its own. -/
theorem normalize_normalize (p : Path) : p.normalize.normalize = p.normalize := by
  obtain ⟨habs, hovershoot, hbelow⟩ := normalize_leads p
  have hodd : isOdd (p.overshoot % 2) = isOdd p.overshoot := by simp [isOdd]
  rw [(normalize_eq p.normalize).1, habs, hovershoot, hbelow, hodd, ← (normalize_eq p).1]

end Path

namespace Disk

open Path

/-- The place that the names of a normal form are below. -/
def stem (d : Disk) (root up : Bool) : Place :=
  let start := if root then [] else d.here
  if up then start.dropLast else start

theorem spell_proper {names : List String} (h : ∀ name ∈ names, Proper name) (place : Place) :
    spell place names = place ++ names := by
  induction names generalizing place with
  | nil => rw [List.append_nil]; rfl
  | cons name rest ih =>
    obtain ⟨hbusy, hup, -⟩ := h name List.mem_cons_self
    have hadvance : advance place name = place ++ [name] := by
      rw [advance, hbusy, if_neg (by decide), if_neg hup]
    show spell (advance place name) rest = _
    rw [hadvance, ih fun n hn => h n (List.mem_cons_of_mem _ hn), List.append_assoc]
    rfl

theorem spot_spelled (d : Disk) {root up : Bool} {names : List String}
    (h : ∀ name ∈ names, Proper name) :
    d.spot (spelled root up names) = d.stem root up ++ names := by
  obtain ⟨idle, hsegments, hidle⟩ := spelled_segments root up h
  have hup : spell (if root then [] else d.here) (if up then [".."] else []) =
      d.stem root up := by
    cases up <;> rfl
  rw [spot, start, (spelled_made root up h).1, hsegments, spell_append, spell_idle hidle, legs,
    spell_append, hup, spell_proper h]

theorem mem_files {d : Disk} {place : Place} {contents : Contents}
    (h : d.at? place = some (.file contents)) : (place, contents) ∈ d.files := by
  have hplace : place ≠ [] := by
    rintro rfl
    cases h
  have hlookup : d.entries.lookup place = some (.file contents) := by
    rwa [at?, if_neg hplace] at h
  obtain ⟨before, after, hentries, -⟩ := List.lookup_eq_some_iff.1 hlookup
  refine List.mem_filterMap.2 ⟨(place, .file contents), ?_, rfl⟩
  rw [hentries]
  exact List.mem_append_right _ List.mem_cons_self

/-- A file has at most four paths in normal form. -/
theorem keys_bounded (d : Disk) {keys : List Path} (hdistinct : keys.Nodup)
    (hkeys : ∀ key ∈ keys, (∃ p : Path, key = p.normalize) ∧ d.isFile key = true) :
    keys.length ≤ 4 * d.files.length := by
  let sides : List (Bool × Bool) := [(true, true), (true, false), (false, true), (false, false)]
  -- the place of a file and the start of its path tell the names
  let candidates := d.files.flatMap fun file => sides.map fun side =>
    spelled side.1 side.2 (file.1.drop (d.stem side.1 side.2).length)
  have hsub : keys ⊆ candidates := by
    intro key hkey
    obtain ⟨⟨p, rfl⟩, hfile⟩ := hkeys _ hkey
    obtain ⟨-, -, contents, hat⟩ := isFile_iff.1 hfile
    obtain ⟨root, up, names, hnormal, hproper⟩ := normalize_shape p
    rw [hnormal, spot_spelled d hproper] at hat
    refine List.mem_flatMap.2 ⟨_, mem_files hat, List.mem_map.2 ⟨(root, up), ?_, ?_⟩⟩
    · cases root <;> cases up <;> simp [sides]
    · rw [hnormal, List.drop_left]
  have hlength : candidates.length = 4 * d.files.length := by
    have hfour : ∀ file ∈ d.files, (sides.map fun side =>
        spelled side.1 side.2 (file.1.drop (d.stem side.1 side.2).length)).length = 4 :=
      fun _ _ => rfl
    rw [List.length_flatMap, List.map_congr_left hfour, List.map_const', List.sum_replicate_nat]
    exact Nat.mul_comm _ _
  rw [← hlength]
  exact (List.subperm_of_subset hdistinct hsub).length_le

end Disk

end ScreenHooks
