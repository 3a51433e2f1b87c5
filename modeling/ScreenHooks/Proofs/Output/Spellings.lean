/-
Layouts that are spelled differently.

The paths of a layout may be written with or without a dot in front and a slash at the
end. The specifiers of the barrel and the grouped modules do not depend on it. The
targets in the package manifest do: the root of the compiled sources is cut off a source
only if both are written with the dot or both without it, and a dot that is left stands
in the target.

* **`distStem_eq`** — the target of a source;
* **`distTargets_eq_iff`** — sources with one target;
* **`respelled_outputs`** — a layout that is spelled differently;
* **`respelled_targets`** — a spelling that changes the targets.
-/
import ScreenHooks.Output.Grouped
import ScreenHooks.Proofs.Path.Spelling

namespace ScreenHooks.Output

open Path Hook Text

/-! ### How targets start -/

/-- How the target of a source starts. -/
inductive Start where
  /-- Below the root of the compiled sources. -/
  | below
  /-- With all names of the source. -/
  | whole
  /-- With a single dot and all names of the source. -/
  | dotted
  deriving DecidableEq

namespace Layout

/-- How the target of a source starts: the root of the compiled sources is cut off
where the source is spelled as it is. -/
def start (layout : Layout) (source : Path) : Start :=
  if layout.sourceDir.names ≠ [] ∧ layout.sourceDir.lead = source.lead ∧
      layout.sourceDir.names <+: source.names then .below
  else if source.dotted = true ∧ ¬ (layout.sourceDir.names = [] ∧ layout.sourceDir.dotted = true) then
    .dotted
  else .whole

/-- What stands in a target before the names. -/
def targetLead (layout : Layout) (source : Path) : List Component :=
  match layout.start source with
  | .below => []
  | .whole => if source.isAbsolute then [.root] else []
  | .dotted => [.here]

/-- The names of a source that stand in its target. -/
def targetNames (layout : Layout) (source : Path) : List String :=
  match layout.start source with
  | .below => source.names.drop layout.sourceDir.names.length
  | .whole | .dotted => source.names

variable {layout layout' : Layout} {source source' : Path}

theorem targetLead_cases (layout : Layout) (source : Path) :
    layout.targetLead source = [.root] ∨ layout.targetLead source = [.here] ∨
      layout.targetLead source = [] := by
  unfold targetLead
  cases layout.start source <;> cases source.isAbsolute <;> simp

theorem components_seen (hdir : layout.sourceDir.isAbsolute = false) (source : Path) :
    ((source.strip? layout.sourceDir).getD source).components =
      layout.targetLead source ++ (layout.targetNames source).map Component.ofName := by
  rw [components_strip hdir]
  -- without names of its own the source directory cuts off the dot at most
  by_cases hcut : layout.sourceDir.lead = source.lead ∧ layout.sourceDir.names <+: source.names
  · rw [if_pos hcut]
    by_cases hnames : layout.sourceDir.names = []
    · have habs : source.isAbsolute = false := by
        rw [← Bool.not_eq_true, ← lead_eq_root, ← hcut.1, lead_eq_root, hdir]
        exact Bool.false_ne_true
      have hstart : layout.start source = .whole := by
        rw [start, if_neg (by simp [hnames]), if_neg]
        rintro ⟨hdotted, hother⟩
        exact hother ⟨hnames, lead_eq_here.1 (hcut.1.trans (lead_eq_here.2 hdotted))⟩
      rw [targetLead, targetNames, hstart, habs, hnames]
      rfl
    · have hstart : layout.start source = .below := if_pos ⟨hnames, hcut⟩
      rw [targetLead, targetNames, hstart]
      rfl
  · rw [if_neg hcut, components_eq]
    have hbelow : ¬ (layout.sourceDir.names ≠ [] ∧ layout.sourceDir.lead = source.lead ∧
        layout.sourceDir.names <+: source.names) := fun h => hcut h.2
    cases hdotted : source.dotted with
    | true =>
      have hother : ¬ (layout.sourceDir.names = [] ∧ layout.sourceDir.dotted = true) := by
        rintro ⟨hnames, hdirDotted⟩
        refine hcut ⟨(lead_eq_here.2 hdirDotted).trans (lead_eq_here.2 hdotted).symm, ?_⟩
        rw [hnames]
        exact List.nil_prefix
      have hstart : layout.start source = .dotted := by
        rw [start, if_neg hbelow, if_pos ⟨hdotted, hother⟩]
      rw [targetLead, targetNames, hstart, lead_eq_here.2 hdotted]
    | false =>
      have hstart : layout.start source = .whole := by
        rw [start, if_neg hbelow, if_neg (by simp [hdotted])]
      rw [targetLead, targetNames, hstart, lead, hdotted]
      rfl

/-- The target of a source has the names that are left, without the extension. -/
theorem distStem_eq (hdir : layout.sourceDir.isAbsolute = false) (hsource : Regular source) :
    layout.distStem source = String.intercalate "/"
      ((layout.targetLead source).map Component.text ++ stemmed (layout.targetNames source)) := by
  obtain ⟨hlead, hnames⟩ := lead_of_components (targetLead_cases layout source)
    (components_seen hdir source)
  have hregular : Regular ((source.strip? layout.sourceDir).getD source) := by
    -- names are dropped in front, so the last one is that of the source
    intro name hname
    rw [hnames] at hname
    refine hsource name ?_
    unfold targetNames at hname
    split at hname
    · rw [List.getLast?_drop] at hname
      split at hname
      · cases hname
      · exact hname
    · exact hname
    · exact hname
  rw [distStem, components_dropExtension hregular, hlead, hnames, List.map_append, names_text]

theorem start_of_absolute (hdir : layout.sourceDir.isAbsolute = false)
    (habs : source.isAbsolute = true) : layout.start source = .whole := by
  have hdotted : source.dotted = false := by simp [dotted, habs]
  rw [start, if_neg, if_neg (by simp [hdotted])]
  rintro ⟨-, hlead, -⟩
  rw [lead_eq_root.2 habs, lead_eq_root, hdir] at hlead
  cases hlead

/-- Slashes at the end do not change how a target starts, but the dot in front of the
source or of the root of the compiled sources does. -/
theorem start_congr (hdirs : layout'.sourceDir.parts = layout.sourceDir.parts)
    (hdir : layout'.sourceDir.dotted = layout.sourceDir.dotted)
    (hsources : source'.parts = source.parts) (hsource : source'.dotted = source.dotted) :
    layout'.start source' = layout.start source := by
  obtain ⟨habs, hnames⟩ := parts_eq_iff.1 hsources
  obtain ⟨hdirAbs, hdirNames⟩ := parts_eq_iff.1 hdirs
  have hlead : source'.lead = source.lead := by rw [lead, lead, habs, hsource]
  have hdirLead : layout'.sourceDir.lead = layout.sourceDir.lead := by
    rw [lead, lead, hdirAbs, hdir]
  unfold start
  rw [hlead, hdirLead, hnames, hdirNames, hdir, hsource]

/-- A cut that is made leaves fewer names. -/
theorem lt_of_start_below (h : layout.start source = .below) :
    0 < layout.sourceDir.names.length ∧
      layout.sourceDir.names.length ≤ source.names.length := by
  unfold start at h
  split at h
  next hcut => exact ⟨List.length_pos_iff.2 hcut.1, hcut.2.2.length_le⟩
  next => split at h <;> cases h

/-- The number of segments in the target of a relative source tells how it starts. -/
theorem length_target (habs : source.isAbsolute = false) :
    ((layout.targetLead source).map Component.text ++
        stemmed (layout.targetNames source)).length =
      source.names.length + (if layout.start source = .dotted then 1 else 0) -
        (if layout.start source = .below then layout.sourceDir.names.length else 0) := by
  rw [List.length_append, List.length_map, length_stemmed, targetLead, targetNames]
  cases layout.start source with
  | below => simp
  | whole => simp [habs]
  | dotted => simp [Nat.add_comm]

/-- Of spellings of one relative source, targets with as many segments start in one way. -/
theorem start_of_length (habs : source'.isAbsolute = source.isAbsolute)
    (hroot : source.isAbsolute = false) (hnames : source'.names = source.names)
    (hdirNames : layout'.sourceDir.names = layout.sourceDir.names)
    (hlength : ((layout'.targetLead source').map Component.text ++
        stemmed (layout'.targetNames source')).length =
      ((layout.targetLead source).map Component.text ++
        stemmed (layout.targetNames source)).length) :
    layout'.start source' = layout.start source := by
  have hbelow' : layout'.start source' = .below →
      0 < layout.sourceDir.names.length ∧
        layout.sourceDir.names.length ≤ source.names.length := by
    rw [← hnames, ← hdirNames]
    exact lt_of_start_below
  have hbelow : layout.start source = .below → _ := lt_of_start_below
  -- each kind of start leaves another number of segments
  rw [length_target (habs.trans hroot), length_target hroot, hnames, hdirNames] at hlength
  cases hstart : layout.start source <;> cases hstart' : layout'.start source' <;>
    simp only [hstart, hstart', reduceCtorEq, if_true, if_false] at hlength
  case below.below | whole.whole | dotted.dotted => rfl
  case below.whole | below.dotted =>
    have := hbelow hstart
    omega
  case whole.below | dotted.below =>
    have := hbelow' hstart'
    omega
  case whole.dotted | dotted.whole => omega

theorem target_plain (habs : source.isAbsolute = false) :
    ∀ s ∈ (layout.targetLead source).map Component.text ++ stemmed (layout.targetNames source),
      s ≠ "" ∧ '/' ∉ s.toList := by
  have hlead : ∀ s ∈ (layout.targetLead source).map Component.text, s = "." := by
    unfold targetLead
    cases layout.start source <;> simp [habs, Component.text]
  have hnames : ∀ name ∈ layout.targetNames source, Busy name := by
    intro name hname
    refine busy_of_mem_names (p := source) ?_
    unfold targetNames at hname
    split at hname
    · exact List.mem_of_mem_drop hname
    · exact hname
    · exact hname
  intro s hs
  rcases List.mem_append.1 hs with hs | hs
  · rw [hlead s hs]
    decide
  · exact stemmed_plain hnames s hs

/-- Two spellings of a source have one target exactly if it starts in one way. -/
theorem distTargets_eq_iff (hdir : layout.sourceDir.isAbsolute = false)
    (hdirs : layout'.sourceDir.parts = layout.sourceDir.parts)
    (hdist : layout'.distDir = layout.distDir) (hsource : Regular source)
    (hsources : source'.parts = source.parts) :
    layout'.distTargets source' = layout.distTargets source ↔
      layout'.start source' = layout.start source := by
  obtain ⟨habs, hnames⟩ := parts_eq_iff.1 hsources
  obtain ⟨hdirAbs, hdirNames⟩ := parts_eq_iff.1 hdirs
  have hstems : layout'.distTargets source' = layout.distTargets source ↔
      layout'.distStem source' = layout.distStem source := by
    simp [distTargets, hdist]
  rw [hstems, distStem_eq hdir hsource, distStem_eq (hdirAbs.trans hdir) (hsource.congr hsources)]
  constructor
  · intro h
    cases hroot : source.isAbsolute with
    | true =>
      -- nothing is cut off an absolute source
      rw [start_of_absolute hdir hroot,
        start_of_absolute (hdirAbs.trans hdir) (habs.trans hroot)]
    | false =>
      have hlength := congrArg List.length
        (intercalate_injective (target_plain (habs.trans hroot)) (target_plain hroot) h)
      exact start_of_length habs hroot hnames hdirNames hlength
  · intro h
    have hlead : layout'.targetLead source' = layout.targetLead source := by
      rw [targetLead, targetLead, h, habs]
    have hkept : layout'.targetNames source' = layout.targetNames source := by
      rw [targetNames, targetNames, h, hnames, hdirNames]
    rw [hlead, hkept]

/-! ### Layouts and their screens -/

/-- Whether the paths of a layout that are spelled anew are relative. -/
structure Relative (layout : Layout) : Prop where
  sourceDir : layout.sourceDir.isAbsolute = false
  screensDir : layout.screensDir.isAbsolute = false
  exportsDir : layout.exportsDir.isAbsolute = false
  barrel : layout.barrel.isAbsolute = false

/-- Whether layouts differ only in how these paths are spelled. -/
structure Respelled (layout layout' : Layout) : Prop where
  sourceDir : Path.Respelled layout.sourceDir layout'.sourceDir
  screensDir : Path.Respelled layout.screensDir layout'.screensDir
  exportsDir : Path.Respelled layout.exportsDir layout'.exportsDir
  barrel : Path.Respelled layout.barrel layout'.barrel
  hooksDir : layout'.hooksDir = layout.hooksDir
  distDir : layout'.distDir = layout.distDir
  moduleExtension : layout'.moduleExtension = layout.moduleExtension

end Layout

/-- Whether a screen is the same under two layouts: its module has one path, or lies
where either layout puts it. -/
structure EmittedScreen.Respelled (layout layout' : Layout) (screen screen' : EmittedScreen) :
    Prop where
  unit : screen'.unit = screen.unit
  values : screen'.values = screen.values
  types : screen'.types = screen.types
  module : screen'.module = screen.module ∨
    screen.module = layout.screenModule screen.unit.kebab ∧
      screen'.module = layout'.screenModule screen'.unit.kebab

/-- The sources of a screen that the manifest lists. -/
def Layout.compiled (layout : Layout) (screen : EmittedScreen) : List Path :=
  [screen.module,
   if screen.types.isEmpty then screen.module else layout.typeModule screen.unit.kebab]

/-- How the targets of all screens start. -/
def Layout.starts (layout : Layout) (screens : List EmittedScreen) : List Start :=
  screens.flatMap fun screen => (layout.compiled screen).map layout.start

variable {layout layout' : Layout} {screen screen' : EmittedScreen}
  {screens screens' : List EmittedScreen}

theorem EmittedScreen.Respelled.module_parts (h : screen.Respelled layout layout' screen')
    (hlayout : layout.Respelled layout') (hrelative : layout.Relative) :
    screen'.module.parts = screen.module.parts := by
  rcases h.module with heq | ⟨hplaced, hplaced'⟩
  · rw [heq]
  · rw [hplaced, hplaced', h.unit, Layout.screenModule, Layout.screenModule,
      hlayout.moduleExtension]
    exact parts_join_congr hlayout.screensDir.parts_eq hrelative.screensDir _

/-- The modules below a directory of the exports have one directory. -/
theorem directory_grouped (hlayout : layout.Respelled layout') (hrelative : layout.Relative)
    (name : String) {group : String} (hgroup : isAbsolute ⟨group⟩ = false) :
    ((layout'.exportsDir.child group).child name).directory.parts =
      ((layout.exportsDir.child group).child name).directory.parts := by
  have hgroups := parts_join_congr hlayout.exportsDir.parts_eq hrelative.exportsDir ⟨group⟩
  have habs := isAbsolute_join hrelative.exportsDir hgroup
  cases hname : isAbsolute ⟨name⟩ with
  | true =>
    have hjoin : ∀ p : Path, p.child name = ⟨name⟩ := fun p => if_pos hname
    rw [hjoin, hjoin]
  | false =>
    exact parts_directory_congr (parts_join_congr hgroups habs ⟨name⟩) (isAbsolute_join habs hname)

/-! ### Specifiers -/

theorem specifierLiteral_congr {source source' target target' : Path}
    (hsource : source'.directory.parts = source.directory.parts)
    (htarget : target'.parts = target.parts) (hregular : Regular target) :
    specifierLiteral source' target' = specifierLiteral source target := by
  rw [specifierLiteral, specifierLiteral, moduleSpecifier_congr hsource htarget hregular]

theorem barrelLine_congr (hlayout : layout.Respelled layout') (hrelative : layout.Relative)
    (hscreen : screen.Respelled layout layout' screen') (hregular : Regular screen.module) :
    barrelLine? layout' screen' = barrelLine? layout screen := by
  have hspecifier : specifierLiteral layout'.barrel screen'.module =
      specifierLiteral layout.barrel screen.module :=
    specifierLiteral_congr (parts_directory_congr hlayout.barrel.parts_eq hrelative.barrel)
      (hscreen.module_parts hlayout hrelative) hregular
  rw [barrelLine?, barrelLine?, hscreen.unit, hscreen.values, hspecifier]

theorem barrel_congr (hlayout : layout.Respelled layout') (hrelative : layout.Relative)
    (hscreens : List.Forall₂ (EmittedScreen.Respelled layout layout') screens screens')
    (hregular : ∀ screen ∈ screens, Regular screen.module) :
    (barrel layout' screens').content = (barrel layout screens).content := by
  have hlines : screens'.filterMap (barrelLine? layout') =
      screens.filterMap (barrelLine? layout) := by
    induction hscreens with
    | nil => rw [List.filterMap_nil, List.filterMap_nil]
    | cons hscreen _ ih =>
      rw [List.forall_mem_cons] at hregular
      rw [List.filterMap_cons, List.filterMap_cons,
        barrelLine_congr hlayout hrelative hscreen hregular.1, ih hregular.2]
  have hhooks : ∀ name, specifierLiteral layout'.barrel (layout'.hooksModule name) =
      specifierLiteral layout.barrel (layout.hooksModule name) := by
    intro name
    rw [Layout.hooksModule, Layout.hooksModule, hlayout.hooksDir, specifierLiteral,
      specifierLiteral, moduleSpecifier_of_directory
        (parts_directory_congr hlayout.barrel.parts_eq hrelative.barrel)]
  simp only [barrel, Artifact.generated]
  rw [hlines, hhooks, hhooks]

/-- A module below a directory of the exports refers to a screen by one specifier. -/
theorem specifier_grouped (hlayout : layout.Respelled layout') (hrelative : layout.Relative)
    (hscreen : screen.Respelled layout layout' screen') (hregular : Regular screen.module)
    (name : String) {group : String} (hgroup : isAbsolute ⟨group⟩ = false) :
    specifierLiteral ((layout'.exportsDir.child group).child name) screen'.module =
      specifierLiteral ((layout.exportsDir.child group).child name) screen.module :=
  specifierLiteral_congr (directory_grouped hlayout hrelative name hgroup)
    (hscreen.module_parts hlayout hrelative) hregular

theorem namespaceArtifact_congr (hlayout : layout.Respelled layout')
    (hrelative : layout.Relative) (hscreen : screen.Respelled layout layout' screen')
    (hregular : Regular screen.module) :
    (namespaceArtifact layout' screen').content = (namespaceArtifact layout screen).content := by
  have hspecifier : specifierLiteral (layout'.namespaceModule screen.unit.kebab) screen'.module =
      specifierLiteral (layout.namespaceModule screen.unit.kebab) screen.module :=
    specifier_grouped hlayout hrelative hscreen hregular _ (by decide)
  simp only [namespaceArtifact, Artifact.generated]
  rw [hscreen.values, hscreen.unit, hspecifier]

theorem typeArtifact_congr (hlayout : layout.Respelled layout')
    (hrelative : layout.Relative) (hscreen : screen.Respelled layout layout' screen')
    (hregular : Regular screen.module) :
    (typeArtifact layout' screen').content = (typeArtifact layout screen).content := by
  have hspecifier : specifierLiteral (layout'.typeModule screen.unit.kebab) screen'.module =
      specifierLiteral (layout.typeModule screen.unit.kebab) screen.module :=
    specifier_grouped hlayout hrelative hscreen hregular _ (by decide)
  simp only [typeArtifact, Artifact.generated]
  rw [hscreen.types, hscreen.unit, hspecifier]

/-- An index does not depend on the layout. -/
theorem indexArtifact_congr
    (hscreens : List.Forall₂ (EmittedScreen.Respelled layout layout') screens screens')
    (directory directory' : Path) :
    (indexArtifact directory' screens').content = (indexArtifact directory screens).content := by
  have hlines : screens'.map indexLine = screens.map indexLine := by
    induction hscreens with
    | nil => rw [List.map_nil]
    | cons hscreen _ ih => rw [List.map_cons, List.map_cons, ih, indexLine, indexLine, hscreen.unit]
  simp only [indexArtifact, Artifact.generated]
  rw [hlines]

theorem typed_congr
    (hscreens : List.Forall₂ (EmittedScreen.Respelled layout layout') screens screens') :
    List.Forall₂ (EmittedScreen.Respelled layout layout') (typed screens) (typed screens') := by
  induction hscreens with
  | nil => exact .nil
  | @cons screen screen' _ _ hscreen _ ih =>
    unfold typed at ih ⊢
    rw [List.filter_cons, List.filter_cons, hscreen.types]
    split
    · exact .cons hscreen ih
    · exact ih

theorem map_content_congr {f f' : EmittedScreen → Artifact}
    (hscreens : List.Forall₂ (EmittedScreen.Respelled layout layout') screens screens')
    (hregular : ∀ screen ∈ screens, Regular screen.module)
    (h : ∀ {screen screen'}, screen.Respelled layout layout' screen' → Regular screen.module →
      (f' screen').content = (f screen).content) :
    (screens'.map f').map Artifact.content = (screens.map f).map Artifact.content := by
  induction hscreens with
  | nil => simp only [List.map_nil]
  | cons hscreen _ ih =>
    rw [List.forall_mem_cons] at hregular
    simp only [List.map_cons]
    rw [h hscreen hregular.1, ih hregular.2]

theorem typeArtifacts_congr (hlayout : layout.Respelled layout') (hrelative : layout.Relative)
    (hscreens : List.Forall₂ (EmittedScreen.Respelled layout layout') screens screens')
    (hregular : ∀ screen ∈ screens, Regular screen.module) :
    (typeArtifacts layout' screens').map Artifact.content =
      (typeArtifacts layout screens).map Artifact.content := by
  have htyped := typed_congr hscreens
  have hmodules := map_content_congr htyped
    (fun screen hscreen => hregular screen (List.mem_of_mem_filter hscreen))
    (typeArtifact_congr hlayout hrelative)
  have hindex := indexArtifact_congr htyped layout.typeDir layout'.typeDir
  unfold typeArtifacts
  generalize typed screens = types, typed screens' = types' at *
  cases htyped with
  | nil => rfl
  | cons hscreen hrest =>
    simp only [List.map_append, List.map_cons, List.map_nil] at hmodules ⊢
    rw [hmodules, hindex]

theorem groupedArtifacts_congr (hlayout : layout.Respelled layout') (hrelative : layout.Relative)
    (hscreens : List.Forall₂ (EmittedScreen.Respelled layout layout') screens screens')
    (hregular : ∀ screen ∈ screens, Regular screen.module) :
    (groupedArtifacts layout' screens').map Artifact.content =
      (groupedArtifacts layout screens).map Artifact.content := by
  have hindex : (groupIndex layout' screens').content = (groupIndex layout screens).content := by
    have hempty : (typed screens').isEmpty = (typed screens).isEmpty := by
      have htyped := typed_congr hscreens
      generalize typed screens = types, typed screens' = types' at htyped
      cases htyped <;> rfl
    simp only [groupIndex, Artifact.generated]
    rw [hempty]
  simp only [groupedArtifacts, List.map_append, List.map_cons, List.map_nil]
  rw [map_content_congr hscreens hregular (namespaceArtifact_congr hlayout hrelative),
    indexArtifact_congr hscreens layout.namespaceDir layout'.namespaceDir,
    typeArtifacts_congr hlayout hrelative hscreens hregular, hindex]

/-! ### Targets -/

theorem entryOf_eq_iff (hlayout : layout.Respelled layout') (hrelative : layout.Relative)
    {source source' : Path} (hsource : Regular source) (hsources : source'.parts = source.parts)
    (subpath : String) :
    layout'.entryOf subpath source' = layout.entryOf subpath source ↔
      layout'.start source' = layout.start source := by
  rw [← Layout.distTargets_eq_iff hrelative.sourceDir hlayout.sourceDir.parts_eq hlayout.distDir
    hsource hsources]
  simp [Layout.entryOf, Prod.ext_iff]

/-- The sources of a screen that the manifest lists have one path. -/
theorem compiled_parts (hlayout : layout.Respelled layout') (hrelative : layout.Relative)
    (hscreen : screen.Respelled layout layout' screen') :
    (layout'.compiled screen').map Path.parts = (layout.compiled screen).map Path.parts := by
  have hmodule := hscreen.module_parts hlayout hrelative
  have htypes : (layout'.typeModule screen.unit.kebab).parts =
      (layout.typeModule screen.unit.kebab).parts :=
    parts_join_congr (parts_join_congr hlayout.exportsDir.parts_eq hrelative.exportsDir _)
      (isAbsolute_join hrelative.exportsDir (by decide)) _
  simp only [Layout.compiled, List.map_cons, List.map_nil, hscreen.types, hscreen.unit]
  rw [apply_ite Path.parts, apply_ite Path.parts, hmodule, htypes]

theorem screenEntries_eq_iff (hlayout : layout.Respelled layout') (hrelative : layout.Relative)
    (hscreen : screen.Respelled layout layout' screen')
    (hregular : ∀ source ∈ layout.compiled screen, Regular source) :
    screenEntries layout' screen' = screenEntries layout screen ↔
      (layout'.compiled screen').map layout'.start = (layout.compiled screen).map layout.start := by
  have hparts := compiled_parts hlayout hrelative hscreen
  simp only [Layout.compiled, List.map_cons, List.map_nil, List.cons.injEq, and_true] at hparts
  simp only [Layout.compiled, List.forall_mem_cons] at hregular
  simp only [screenEntries, Layout.compiled, List.map_cons, List.map_nil, List.cons.injEq, and_true]
  rw [hscreen.unit, entryOf_eq_iff hlayout hrelative hregular.1 hparts.1,
    entryOf_eq_iff hlayout hrelative hregular.2.1 (hscreen.unit ▸ hparts.2)]

theorem manifestEntries_eq_iff (hlayout : layout.Respelled layout') (hrelative : layout.Relative)
    (hscreens : List.Forall₂ (EmittedScreen.Respelled layout layout') screens screens')
    (hregular : ∀ screen ∈ screens, ∀ source ∈ layout.compiled screen, Regular source) :
    manifestEntries layout' screens' = manifestEntries layout screens ↔
      layout'.starts screens' = layout.starts screens := by
  unfold manifestEntries Layout.starts
  induction hscreens with
  | nil => simp only [List.flatMap_nil]
  | @cons screen screen' _ _ hscreen _ ih =>
    rw [List.forall_mem_cons] at hregular
    have hentries : (screenEntries layout' screen').length = (screenEntries layout screen).length :=
      rfl
    have hstarts : ((layout'.compiled screen').map layout'.start).length =
        ((layout.compiled screen).map layout.start).length := rfl
    simp only [List.flatMap_cons]
    rw [List.append_eq_append_iff_of_size_eq_left hentries,
      List.append_eq_append_iff_of_size_eq_left hstarts,
      screenEntries_eq_iff hlayout hrelative hscreen hregular.1, ih hregular.2]

/-- Where a layout is spelled differently, the specifiers stay; the targets of the
manifest stay exactly if they start in the same way. -/
theorem respelled_outputs (hlayout : layout.Respelled layout') (hrelative : layout.Relative)
    (hscreens : List.Forall₂ (EmittedScreen.Respelled layout layout') screens screens')
    (hbarrel : Regular layout.barrel)
    (hregular : ∀ screen ∈ screens, ∀ source ∈ layout.compiled screen, Regular source) :
    (barrel layout' screens').content = (barrel layout screens).content ∧
      (groupedArtifacts layout' screens').map Artifact.content =
        (groupedArtifacts layout screens).map Artifact.content ∧
      (manifestEntries layout' screens' = manifestEntries layout screens ↔
        layout'.starts screens' = layout.starts screens) ∧
      (layout'.rootEntry = layout.rootEntry ↔
        layout'.start layout'.barrel = layout.start layout.barrel) := by
  have hmodules : ∀ screen ∈ screens, Regular screen.module := fun screen hscreen =>
    hregular screen hscreen _ List.mem_cons_self
  exact ⟨barrel_congr hlayout hrelative hscreens hmodules,
    groupedArtifacts_congr hlayout hrelative hscreens hmodules,
    manifestEntries_eq_iff hlayout hrelative hscreens hregular,
    entryOf_eq_iff hlayout hrelative hbarrel hlayout.barrel.parts_eq "."⟩

/-- The layout whose paths are all written with a dot in front. -/
def dottedLayout : Layout where
  sourceDir := ⟨"./src/"⟩
  screensDir := ⟨"./src/screens"⟩
  exportsDir := ⟨"./src/exports/"⟩
  barrel := ⟨"./src/index.ts"⟩

/-- The layout where only the root of the compiled sources has a dot in front. -/
def mixedLayout : Layout where
  sourceDir := ⟨"./src"⟩

/-- A screen where a layout puts it. -/
def placedScreen (layout : Layout) : EmittedScreen where
  unit := ⟨"LoginId", "login-id", true⟩
  module := layout.screenModule "login-id"
  values := ["useLoginId"]
  types := []

theorem respells_dot {p q : Path} (hp : p.isAbsolute = false) (hq : q.text = "./" ++ p.text) :
    Path.Respelled p q := by
  obtain rfl : q = ⟨"./" ++ p.text⟩ := congrArg Path.mk hq
  exact .rel _ _ (.dot p hp)

theorem respells_slash {p q : Path} (hp : p.text ≠ "") (hq : q.text = p.text ++ "/") :
    Path.Respelled p q := by
  obtain rfl : q = ⟨p.text ++ "/"⟩ := congrArg Path.mk hq
  exact .rel _ _ (.slash p hp)

theorem dottedLayout_respelled : Layout.Respelled {} dottedLayout where
  sourceDir := .trans _ ⟨"./src"⟩ _ (respells_dot (by decide) (by decide))
    (respells_slash (by decide) (by decide))
  screensDir := respells_dot (by decide) (by decide)
  exportsDir := .trans _ ⟨"./src/exports"⟩ _ (respells_dot (by decide) (by decide))
    (respells_slash (by decide) (by decide))
  barrel := respells_dot (by decide) (by decide)
  hooksDir := rfl
  distDir := rfl
  moduleExtension := rfl

theorem default_relative : Layout.Relative {} := ⟨by decide, by decide, by decide, by decide⟩

theorem respelled_outputs_dotted :
    Layout.Relative {} ∧ Layout.Respelled {} dottedLayout ∧
      (barrel dottedLayout [placedScreen dottedLayout]).content =
        (barrel {} [placedScreen {}]).content ∧
      (groupedArtifacts dottedLayout [placedScreen dottedLayout]).map Artifact.content =
        (groupedArtifacts {} [placedScreen {}]).map Artifact.content ∧
      manifestEntries dottedLayout [placedScreen dottedLayout] =
        manifestEntries {} [placedScreen {}] ∧
      dottedLayout.rootEntry = Layout.rootEntry {} := by
  have hscreens : List.Forall₂ (EmittedScreen.Respelled {} dottedLayout) [placedScreen {}]
      [placedScreen dottedLayout] := .cons ⟨rfl, rfl, rfl, .inr ⟨rfl, rfl⟩⟩ .nil
  obtain ⟨hbarrel, hgrouped, hentries, hroot⟩ := respelled_outputs dottedLayout_respelled
    default_relative hscreens (by decide) (by decide)
  exact ⟨default_relative, dottedLayout_respelled, hbarrel, hgrouped, hentries.2 (by decide),
    hroot.2 (by decide)⟩

/-- A dot in front of the root of the compiled sources changes the targets. -/
theorem respelled_targets :
    Layout.Relative {} ∧ Layout.Respelled {} mixedLayout ∧
      mixedLayout.rootEntry = ⟨".", "./dist/src/index.js", "./dist/src/index.d.ts"⟩ ∧
      Layout.rootEntry {} = ⟨".", "./dist/index.js", "./dist/index.d.ts"⟩ ∧
      manifestEntries mixedLayout [placedScreen {}] ≠
        manifestEntries {} [placedScreen {}] := by
  refine ⟨default_relative, ⟨respells_dot (by decide) (by decide), .refl _, .refl _,
    .refl _, rfl, rfl, rfl⟩, ?_⟩
  decide

end ScreenHooks.Output
