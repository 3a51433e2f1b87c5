/-
What the subpaths of a package stand for.

Which screens have a type module is decided three times: where the modules are
written, where they are listed, and where the package gets its subpaths. The
three agree on every list of screens: a subpath of types stands for a type
module exactly if that module is written, and for the hook module otherwise.

* **`typeArtifacts_eq`** — which type modules are written;
* **`entries_accounted`** — every subpath stands for a module of its screen.
-/
import Mathlib.Data.List.Nodup
import ScreenHooks.Output.Grouped
import ScreenHooks.Proofs.Path.Relative

namespace ScreenHooks.Output

open Hook

variable (layout : Layout)

/-! ### Type modules -/

/-- The type module that is written for a screen, if there is one. -/
def typeModule? (screen : EmittedScreen) : Option Artifact :=
  if screen.types.isEmpty then none else some (typeArtifact layout screen)

/-- The index of the type modules, if there are any. -/
def typeIndex? (screens : List EmittedScreen) : Option Artifact :=
  if (typed screens).isEmpty then none else some (indexArtifact layout.typeDir (typed screens))

variable {layout}

theorem typeModule?_eq_some {screen : EmittedScreen} {a : Artifact} :
    typeModule? layout screen = some a ↔ screen.types ≠ [] ∧ a = typeArtifact layout screen := by
  cases htypes : screen.types <;> simp [typeModule?, htypes, eq_comm]

/-- The typed screens are those with a type module. -/
theorem typed_eq (screens : List EmittedScreen) :
    typed screens = screens.filter fun screen => (typeModule? layout screen).isSome :=
  List.filter_congr fun screen _ => by cases htypes : screen.types <;> simp [typeModule?, htypes]

theorem typed_map (screens : List EmittedScreen) :
    (typed screens).map (typeArtifact layout) = screens.filterMap (typeModule? layout) := by
  induction screens with
  | nil => rfl
  | cons screen rest ih =>
    cases htypes : screen.types with
    | nil => simpa [typed, typeModule?, htypes] using ih
    | cons name more => simpa [typed, typeModule?, htypes] using ih

/-- The type modules that are written are those of the screens, in their order, with
the index after them. -/
theorem typeArtifacts_eq (screens : List EmittedScreen) :
    typeArtifacts layout screens =
      screens.filterMap (typeModule? layout) ++ (typeIndex? layout screens).toList := by
  rw [← typed_map]
  unfold typeArtifacts typeIndex?
  cases typed screens <;> rfl

theorem typeModule_written {screen : EmittedScreen} {screens : List EmittedScreen} {a : Artifact}
    (hscreen : screen ∈ screens) (h : typeModule? layout screen = some a) :
    a ∈ groupedArtifacts layout screens := by
  have htypes : a ∈ typeArtifacts layout screens := by
    rw [typeArtifacts_eq]
    exact List.mem_append_left _ (List.mem_filterMap.2 ⟨screen, hscreen, h⟩)
  rw [groupedArtifacts]
  exact List.mem_append_left _ (List.mem_append_right _ htypes)

/-! ### Paths of type modules -/

/-- The names of a module below a directory. -/
theorem names_module (p : Path) (stem : String) (hslash : '/' ∉ stem.toList) :
    (p.child (stem ++ ".ts")).names = p.names ++ [stem ++ ".ts"] := by
  have hplain : '/' ∉ (stem ++ ".ts").toList := by simpa using hslash
  have hbusy : Path.isIdle (stem ++ ".ts") = false := by
    have hlong : 2 < (stem ++ ".ts").length := by
      rw [String.length_append]
      exact Nat.lt_add_left _ (by decide)
    rw [Path.isIdle, Bool.or_eq_false_iff, decide_eq_false_iff_not, decide_eq_false_iff_not]
    constructor <;>
    · intro h
      rw [h] at hlong
      exact absurd hlong (by decide)
  rw [Path.child, Path.names_join p (Path.isAbsolute_of_plain hplain),
    Path.names_of_plain hplain hbusy]

/-- The names of a module in a directory of the grouped modules. -/
theorem names_grouped {sub stem : String} (hsub : Path.Stem sub) (hslash : '/' ∉ stem.toList) :
    ((layout.exportsDir.child sub).child (stem ++ ".ts")).names =
      layout.exportsDir.names ++ [sub, stem ++ ".ts"] := by
  rw [names_module _ _ hslash, hsub.names_child, List.append_assoc]
  rfl

/-- A grouped module at the path of a type module is the type module of a screen with
that name. -/
theorem typeModule_of_path {screens : List EmittedScreen} {stem : String} {a : Artifact}
    (hslash : '/' ∉ stem.toList) (hindex : stem ≠ "index")
    (hplain : ∀ screen ∈ screens, '/' ∉ screen.unit.kebab.toList)
    (ha : a ∈ groupedArtifacts layout screens) (hpath : a.path = layout.typeModule stem) :
    ∃ screen ∈ screens, typeModule? layout screen = some a ∧ screen.unit.kebab = stem := by
  have hscreens : Path.Stem "screens" := ⟨by decide, by decide, by decide⟩
  have htypes : Path.Stem "types" := ⟨by decide, by decide, by decide⟩
  have hnames : a.path.names = layout.exportsDir.names ++ ["types", stem ++ ".ts"] := by
    rw [hpath]
    exact names_grouped htypes hslash
  -- nothing in another directory has that path, and no other module in the same one
  have hother : ∀ name : String, '/' ∉ name.toList →
      a.path ≠ layout.namespaceDir.child (name ++ ".ts") := by
    intro name hname hsame
    rw [hsame, Layout.namespaceDir, names_grouped hscreens hname] at hnames
    simp at hnames
  have hsame : ∀ name : String, '/' ∉ name.toList → a.path = layout.typeModule name →
      name = stem := by
    intro name hname hsame
    rw [hsame, Layout.typeModule, Layout.typeDir, names_grouped htypes hname] at hnames
    simpa using hnames
  rw [groupedArtifacts, typeArtifacts_eq] at ha
  simp only [List.mem_append, List.mem_map, List.mem_filterMap, List.mem_singleton,
    Option.mem_toList] at ha
  rcases ha with ((⟨screen, hscreen, rfl⟩ | rfl) | ⟨screen, hscreen, ha⟩ | ha) | rfl
  · exact absurd rfl (hother _ (hplain screen hscreen))
  · exact absurd rfl (hother "index" (by decide))
  · refine ⟨screen, hscreen, ha, hsame _ (hplain screen hscreen) ?_⟩
    rw [(typeModule?_eq_some.1 ha).2]
    rfl
  · unfold typeIndex? at ha
    split at ha
    · cases ha
    · rw [← Option.some.inj ha] at hsame
      exact absurd (hsame "index" (by decide) rfl).symm hindex
  · have hlength := congrArg List.length hnames
    have hpath : (groupIndex layout screens).path.names = layout.exportsDir.names ++ ["index.ts"] :=
      names_module layout.exportsDir "index" (by decide)
    rw [hpath] at hlength
    simp at hlength

/-- Whether all screens have file names of their own, apart from the index. -/
structure OwnNames (screens : List EmittedScreen) : Prop where
  nodup : (screens.map (·.unit.kebab)).Nodup
  plain : ∀ screen ∈ screens, '/' ∉ screen.unit.kebab.toList
  no_clash : ∀ screen ∈ screens, screen.unit.kebab ≠ "index"

/-- Among screens with file names of their own, a type module is written to the path of a
screen exactly if the screen has types. -/
theorem OwnNames.typeModule_iff {screens : List EmittedScreen} (h : OwnNames screens)
    {screen : EmittedScreen} (hscreen : screen ∈ screens) :
    (∃ a ∈ groupedArtifacts layout screens, a.path = layout.typeModule screen.unit.kebab) ↔
      (typeModule? layout screen).isSome := by
  constructor
  · rintro ⟨a, ha, hpath⟩
    obtain ⟨other, hother, hsome, hkebab⟩ :=
      typeModule_of_path (h.plain screen hscreen) (h.no_clash screen hscreen) h.plain ha hpath
    obtain rfl := List.inj_on_of_nodup_map h.nodup hother hscreen hkebab
    rw [hsome, Option.isSome_some]
  · intro hsome
    obtain ⟨a, ha⟩ := Option.isSome_iff_exists.1 hsome
    refine ⟨a, typeModule_written hscreen ha, ?_⟩
    rw [(typeModule?_eq_some.1 ha).2]
    rfl

/-! ### Subpaths -/

/-- What the types of a screen are compiled from: its type module, if that is
written, or else its hook module. -/
def typesSource (layout : Layout) (screen : EmittedScreen) : Path :=
  match typeModule? layout screen with
  | some a => a.path
  | none => screen.module

theorem screenEntries_eq (screen : EmittedScreen) :
    screenEntries layout screen =
      [layout.entryOf ("./" ++ screen.unit.kebab) screen.module,
       layout.entryOf ("./" ++ screen.unit.kebab ++ "/types") (typesSource layout screen)] := by
  unfold screenEntries typesSource typeModule?
  cases screen.types <;> rfl

theorem typesSource_of_written {screen : EmittedScreen} {a : Artifact}
    (h : typeModule? layout screen = some a) :
    typesSource layout screen = a.path ∧ a.path = layout.typeModule screen.unit.kebab := by
  refine ⟨by rw [typesSource, h], ?_⟩
  rw [(typeModule?_eq_some.1 h).2]
  rfl

theorem typesSource_of_none {screen : EmittedScreen} (h : typeModule? layout screen = none) :
    typesSource layout screen = screen.module := by
  rw [typesSource, h]

/-- The types of a screen are compiled from its hook module or from a type module that
is written. -/
theorem typesSource_cases {screen : EmittedScreen} {screens : List EmittedScreen}
    (hscreen : screen ∈ screens) :
    typesSource layout screen = screen.module ∨
      ∃ a ∈ groupedArtifacts layout screens,
        typeModule? layout screen = some a ∧ typesSource layout screen = a.path := by
  cases h : typeModule? layout screen with
  | none => exact .inl (typesSource_of_none h)
  | some a => exact .inr ⟨a, typeModule_written hscreen h, rfl, (typesSource_of_written h).1⟩

/-- A subpath is compiled from a module that is written for its screen. -/
theorem entry_source {screens : List EmittedScreen} {entry : ManifestEntry}
    (h : entry ∈ manifestEntries layout screens) :
    ∃ source, (entry.importTarget, entry.typesTarget) = layout.distTargets source ∧
      ∃ screen ∈ screens, source = screen.module ∨
        ∃ a ∈ groupedArtifacts layout screens,
          typeModule? layout screen = some a ∧ source = a.path := by
  obtain ⟨screen, hscreen, hentry⟩ := List.mem_flatMap.1 h
  rw [screenEntries_eq] at hentry
  rcases List.mem_cons.1 hentry with rfl | hentry
  · exact ⟨screen.module, rfl, screen, hscreen, .inl rfl⟩
  · rw [List.mem_singleton.1 hentry]
    exact ⟨typesSource layout screen, rfl, screen, hscreen, typesSource_cases hscreen⟩

/-- Where the two modules of a screen are compiled to different files, the targets tell
whether the type module is written. -/
theorem typesSource_targets_iff {screen : EmittedScreen}
    (hapart : layout.distTargets screen.module ≠
      layout.distTargets (layout.typeModule screen.unit.kebab)) :
    layout.distTargets (typesSource layout screen) =
        layout.distTargets (layout.typeModule screen.unit.kebab) ↔
      (typeModule? layout screen).isSome := by
  cases h : typeModule? layout screen with
  | none =>
    rw [typesSource_of_none h]
    simp [hapart]
  | some a =>
    obtain ⟨hsource, hpath⟩ := typesSource_of_written h
    simp [hsource, hpath]

/-- What the subpaths of a list of screens stand for. -/
structure Accounted (layout : Layout) (screens : List EmittedScreen) : Prop where
  /-- The type modules that are written are those of the screens, with an index of just
  the screens that have one. -/
  written : groupedArtifacts layout screens =
    screens.map (namespaceArtifact layout) ++ [indexArtifact layout.namespaceDir screens] ++
      (screens.filterMap (typeModule? layout) ++ (typeIndex? layout screens).toList) ++
        [groupIndex layout screens]
  listed : typed screens = screens.filter fun screen => (typeModule? layout screen).isSome
  /-- A screen has a subpath for its hook module and one for its types. -/
  entries : manifestEntries layout screens = screens.flatMap fun screen =>
    [layout.entryOf ("./" ++ screen.unit.kebab) screen.module,
     layout.entryOf ("./" ++ screen.unit.kebab ++ "/types") (typesSource layout screen)]
  count : (manifestEntries layout screens).length = 2 * screens.length
  /-- The types are compiled from the type module exactly if that is written. -/
  types : ∀ screen ∈ screens,
    (∀ a, typeModule? layout screen = some a → typesSource layout screen = a.path ∧
      a.path = layout.typeModule screen.unit.kebab) ∧
    (typeModule? layout screen = none → typesSource layout screen = screen.module)
  /-- The same by the targets, where those of the two modules differ. -/
  targets : ∀ screen ∈ screens,
    layout.distTargets screen.module ≠
        layout.distTargets (layout.typeModule screen.unit.kebab) →
      (layout.distTargets (typesSource layout screen) =
          layout.distTargets (layout.typeModule screen.unit.kebab) ↔
        (typeModule? layout screen).isSome)
  /-- The same by the paths, where the screens have file names of their own. -/
  paths : OwnNames screens → ∀ screen ∈ screens,
    ((∃ a ∈ groupedArtifacts layout screens, a.path = layout.typeModule screen.unit.kebab) ↔
      (typeModule? layout screen).isSome)
  /-- No subpath stands for anything else. -/
  produced : ∀ entry ∈ manifestEntries layout screens, ∃ source,
    (entry.importTarget, entry.typesTarget) = layout.distTargets source ∧
      ∃ screen ∈ screens, source = screen.module ∨
        ∃ a ∈ groupedArtifacts layout screens,
          typeModule? layout screen = some a ∧ source = a.path
  root : layout.rootEntry = layout.entryOf "." (barrel layout screens).path

/-- Every subpath of a list of screens stands for a module that is written for them. -/
theorem entries_accounted (layout : Layout) (screens : List EmittedScreen) :
    Accounted layout screens where
  written := by rw [groupedArtifacts, typeArtifacts_eq]
  listed := typed_eq screens
  entries := congrArg (screens.flatMap ·) (funext screenEntries_eq)
  count := manifestEntries_length layout screens
  types := fun _ _ => ⟨fun _ => typesSource_of_written, typesSource_of_none⟩
  targets := fun _ _ => typesSource_targets_iff
  paths := fun h _ => h.typeModule_iff
  produced := fun _ => entry_source
  root := rfl

end ScreenHooks.Output
