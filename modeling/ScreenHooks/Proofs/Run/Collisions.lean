/-
Artifacts of one run with one target.

Every path of the default layout ends with a suffix that tells hook modules,
documents and the manifest apart from each other and from the other modules. So
the hook module of a screen can only be written over by the hook module of
another screen, and a namespace module by another one or by an index or type
module that is written after it.

* **`screens_kept_iff`** — when every screen of a run keeps its modules;
* **`namespace_lost`** — a screen whose namespace module is lost.
-/
import ScreenHooks.Proofs.Run.Steady

namespace ScreenHooks

open Text

namespace Path

/-! ### How paths end -/

/-- The last character of the last segment. -/
def ending (p : Path) : Option Char := p.leaf.toList.getLast?

theorem named_of_long {p : Path} (h : 2 < p.leaf.length) : Named p := by
  constructor
  · rw [isIdle, Bool.or_eq_false_iff, decide_eq_false_iff_not, decide_eq_false_iff_not]
    constructor
    · intro hblank
      rw [hblank] at h
      exact absurd h (by decide)
    · intro hdot
      rw [hdot] at h
      exact absurd h (by decide)
  · intro hup
    rw [hup] at h
    exact absurd h (by decide)

/-- The end of a child whose name has the given suffix. -/
theorem child_ends (p : Path) (name : String) {suffix : String} (hslash : '/' ∉ suffix.toList)
    (hlong : 2 < suffix.length) :
    Named (p.child (name ++ suffix)) ∧
      ending (p.child (name ++ suffix)) = suffix.toList.getLast? := by
  have hleaf : leaf (p.child (name ++ suffix)) = leaf ⟨name⟩ ++ suffix := by
    rw [leaf_child, leaf_append name hslash]
  constructor
  · apply named_of_long
    rw [hleaf, String.length_append]
    omega
  · have hne : suffix.toList ≠ [] := by
      intro hnil
      have hlength : suffix.length = suffix.toList.length := rfl
      rw [hlength, hnil] at hlong
      simp at hlong
    rw [ending, hleaf, String.toList_append, List.getLast?_append,
      List.getLast?_eq_some_getLast hne]
    rfl

theorem named_join {p q : Path} (h : Named q) : Named (p.join q) := by
  unfold Named at h ⊢
  rw [leaf_join]
  exact h

theorem ending_join (p q : Path) : ending (p.join q) = ending q := by
  rw [ending, leaf_join, ending]

end Path

namespace Disk

/-- Paths that end differently spell different places. -/
theorem spot_ne_of_ending {p q : Path} (hp : Path.Named p) (hq : Path.Named q)
    (h : p.ending ≠ q.ending) (d : Disk) : d.spot p ≠ d.spot q := by
  intro hsame
  rw [spot_named hp, spot_named hq] at hsame
  have hleaf := (List.append_inj' hsame rfl).2
  apply h
  rw [Path.ending, Path.ending, (List.cons.inj hleaf).1]

end Disk

namespace Hook

/-! ### How modules begin -/

/-- A text that begins with two parts. -/
theorem prefix_append {whole a b : String} (h : whole = a ++ b) (rest : String) :
    whole ++ rest = a ++ (b ++ rest) := by
  rw [h, String.append_assoc]

/-- The text of lines begins with the first two. -/
theorem endLines_two (first second : String) (more : List String) :
    ∃ rest, endLines (first :: second :: more) = first ++ "\n" ++ (second ++ rest) := by
  unfold endLines joinLines
  cases more with
  | nil =>
    refine ⟨"\n", ?_⟩
    rw [List.cons_append, List.cons_append, List.nil_append, String.intercalate_cons_cons,
      String.intercalate_cons_cons, String.intercalate_singleton, String.append_empty]
  | cons third more =>
    refine ⟨"\n" ++ String.intercalate "\n" (third :: more ++ [""]), ?_⟩
    rw [List.cons_append, List.cons_append, List.cons_append, String.intercalate_cons_cons,
      String.intercalate_cons_cons]
    simp [String.append_assoc]

/-- Texts with one first line and second lines that begin differently differ. -/
theorem endLines_ne {first x y a b : String} {more others : List String}
    (hlength : x.toList.length = y.toList.length) (hne : x ≠ y) :
    endLines (first :: (x ++ a) :: more) ≠ endLines (first :: (y ++ b) :: others) := by
  obtain ⟨rest, hrest⟩ := endLines_two first (x ++ a) more
  obtain ⟨rest', hrest'⟩ := endLines_two first (y ++ b) others
  intro hsame
  rw [hrest, hrest'] at hsame
  have hlists := congrArg String.toList hsame
  simp only [String.toList_append] at hlists
  have htails := List.append_cancel_left hlists
  rw [List.append_assoc, List.append_assoc] at htails
  exact hne (String.toList_inj.1 (List.append_inj htails hlength).1)

end Hook

namespace Output

open Hook

/-! ### Endings of the default layout -/

/-- Whether the directories of a layout are the default ones. -/
def Layout.Default (layout : Layout) : Prop := layout = { root := layout.root }

/-- The artifacts that gather screens, apart from the namespace modules: the
indexes and the type modules. -/
def followers (layout : Layout) (screens : List EmittedScreen) : List Artifact :=
  indexArtifact layout.namespaceDir screens :: (typeArtifacts layout screens ++ [groupIndex layout screens])

theorem groupedArtifacts_eq (layout : Layout) (screens : List EmittedScreen) :
    groupedArtifacts layout screens =
      screens.map (namespaceArtifact layout) ++ followers layout screens := by
  simp [groupedArtifacts, followers]

/-- Whether an artifact has a named path with the given ending. -/
def Ends (c : Char) (a : Artifact) : Prop := Path.Named a.path ∧ a.path.ending = some c

theorem ends_ts {a : Artifact} (p : Path) (name : String) (h : a.path = p.child (name ++ ".ts")) :
    Ends 's' a := by
  rw [Ends, h]
  exact Path.child_ends p name (by decide) (by decide)

theorem ends_index {a : Artifact} (p : Path) (h : a.path = p.child "index.ts") : Ends 's' a :=
  ends_ts p "index" h

theorem namespaceArtifact_ends (layout : Layout) (screen : EmittedScreen) :
    Ends 's' (namespaceArtifact layout screen) :=
  ends_ts layout.namespaceDir screen.unit.kebab rfl

theorem typeArtifacts_spec {layout : Layout} {screens : List EmittedScreen} {a : Artifact}
    (h : a ∈ typeArtifacts layout screens) :
    (∃ screen ∈ screens, a = typeArtifact layout screen) ∨
      ∃ screen rest, a = indexArtifact layout.typeDir (screen :: rest) := by
  unfold typeArtifacts at h
  cases htyped : typed screens with
  | nil => simp [htyped] at h
  | cons screen rest =>
    simp only [htyped] at h
    rcases List.mem_append.1 h with h | h
    · obtain ⟨s, hs, rfl⟩ := List.mem_map.1 h
      rw [← htyped] at hs
      exact .inl ⟨s, List.mem_of_mem_filter hs, rfl⟩
    · exact .inr ⟨screen, rest, List.mem_singleton.1 h⟩

/-- Whether all artifacts of a list have paths of artifacts of another one. -/
def PathsAmong (fewer more : List Artifact) : Prop := ∀ a ∈ fewer, ∃ b ∈ more, b.path = a.path

theorem PathsAmong.refl (artifacts : List Artifact) : PathsAmong artifacts artifacts :=
  fun a ha => ⟨a, ha, rfl⟩

theorem PathsAmong.append {a b fewer more : List Artifact} (hfirst : PathsAmong a b)
    (hrest : PathsAmong fewer more) : PathsAmong (a ++ fewer) (b ++ more) := by
  intro x hx
  rcases List.mem_append.1 hx with hx | hx
  · obtain ⟨y, hy, hpath⟩ := hfirst x hx
    exact ⟨y, List.mem_append_left _ hy, hpath⟩
  · obtain ⟨y, hy, hpath⟩ := hrest x hx
    exact ⟨y, List.mem_append_right _ hy, hpath⟩

theorem PathsAmong.singleton {a b : Artifact} (h : b.path = a.path) : PathsAmong [a] [b] := by
  intro x hx
  rw [List.mem_singleton.1 hx]
  exact ⟨b, List.mem_singleton_self b, h⟩

theorem PathsAmong.map {α : Type} {fewer more : List α} (f : α → Artifact)
    (hsub : ∀ x ∈ fewer, x ∈ more) : PathsAmong (fewer.map f) (more.map f) := by
  intro a ha
  obtain ⟨x, hx, rfl⟩ := List.mem_map.1 ha
  exact ⟨f x, List.mem_map_of_mem (hsub x hx), rfl⟩

/-- With fewer screens there are no followers at other paths. -/
theorem followers_among {layout : Layout} {fewer screens : List EmittedScreen}
    (hsub : ∀ screen ∈ fewer, screen ∈ screens) :
    PathsAmong (followers layout fewer) (followers layout screens) := by
  have htyped : ∀ screen ∈ typed fewer, screen ∈ typed screens := by
    intro screen hscreen
    obtain ⟨hmem, htypes⟩ := List.mem_filter.1 hscreen
    exact List.mem_filter.2 ⟨hsub screen hmem, htypes⟩
  -- there is an index of types only if a screen has types
  have htypes : PathsAmong (typeArtifacts layout fewer) (typeArtifacts layout screens) := by
    unfold typeArtifacts
    cases hfewer : typed fewer with
    | nil => exact fun a ha => by cases ha
    | cons first rest =>
      rw [hfewer] at htyped
      cases hscreens : typed screens with
      | nil =>
        have hfirst := htyped first List.mem_cons_self
        rw [hscreens] at hfirst
        cases hfirst
      | cons other more =>
        rw [hscreens] at htyped
        exact (PathsAmong.map (typeArtifact layout) htyped).append (.singleton rfl)
  have hindex : PathsAmong [indexArtifact layout.namespaceDir fewer]
      [indexArtifact layout.namespaceDir screens] := .singleton rfl
  exact hindex.append (htypes.append (.singleton rfl))

theorem followers_ends {layout : Layout} {screens : List EmittedScreen} {a : Artifact}
    (h : a ∈ followers layout screens) : Ends 's' a := by
  rcases List.mem_cons.1 h with rfl | h
  · exact ends_index layout.namespaceDir rfl
  · rcases List.mem_append.1 h with h | h
    · rcases typeArtifacts_spec h with ⟨screen, -, rfl⟩ | ⟨screen, rest, rfl⟩
      · exact ends_ts layout.typeDir screen.unit.kebab rfl
      · exact ends_index layout.typeDir rfl
    · rw [List.mem_singleton.1 h]
      exact ends_index layout.exportsDir rfl

/-- The second line of a namespace module opens a brace. -/
theorem namespaceArtifact_content (layout : Layout) (screen : EmittedScreen) :
    ∃ rest, (namespaceArtifact layout screen).content =
      endLines [generatedHeader, "export \x7b" ++ rest] := by
  unfold namespaceArtifact
  show ∃ rest, endLines [generatedHeader, _] = _
  cases screen.values.isEmpty with
  | true => exact ⟨"\x7d;", rfl⟩
  | false =>
    refine ⟨" " ++ (String.intercalate ", " screen.values ++ " \x7d" ++ " from " ++
      specifierLiteral (layout.namespaceModule screen.unit.kebab) screen.module ++ ";"), ?_⟩
    have hline : exportLine screen.values
        (specifierLiteral (layout.namespaceModule screen.unit.kebab) screen.module) =
        "export \x7b" ++ (" " ++ (String.intercalate ", " screen.values ++ " \x7d" ++ " from " ++
          specifierLiteral (layout.namespaceModule screen.unit.kebab) screen.module ++ ";")) := by
      have hsplit : "export \x7b" ++ " " = "export " ++ "\x7b " := by decide
      rw [exportLine, braced]
      simp only [← String.append_assoc, hsplit]
    show endLines [generatedHeader, exportLine screen.values _] = _
    rw [hline]

/-- The second line of an index is a star. -/
theorem indexArtifact_content (directory : Path) (screen : EmittedScreen)
    (rest : List EmittedScreen) :
    ∃ tail more, (indexArtifact directory (screen :: rest)).content =
      endLines (generatedHeader :: ("export *" ++ tail) :: more) := by
  refine ⟨" as " ++ (screen.unit.name ++ (" from './" ++ (screen.unit.kebab ++ "';"))),
    rest.map indexLine, ?_⟩
  have hline : indexLine screen = "export *" ++
      (" as " ++ (screen.unit.name ++ (" from './" ++ (screen.unit.kebab ++ "';")))) := by
    have hparts : indexLine screen = "export * as " ++
        (screen.unit.name ++ (" from './" ++ (screen.unit.kebab ++ "';"))) := by
      unfold indexLine
      rw [String.append_assoc, String.append_assoc, String.append_assoc]
    exact hparts.trans (prefix_append (by decide) _)
  show endLines (generatedHeader :: indexLine screen :: rest.map indexLine) = _
  rw [hline]

/-- The second line of a type module exports types. -/
theorem typeArtifact_content (layout : Layout) (screen : EmittedScreen) :
    ∃ tail, (typeArtifact layout screen).content =
      endLines [generatedHeader, "export t" ++ tail] := by
  refine ⟨"ype " ++ (braced screen.types ++ (" from " ++
    (specifierLiteral (layout.typeModule screen.unit.kebab) screen.module ++ ";"))), ?_⟩
  have hline : exportTypeLine screen.types
      (specifierLiteral (layout.typeModule screen.unit.kebab) screen.module) =
      "export t" ++ ("ype " ++ (braced screen.types ++ (" from " ++
        (specifierLiteral (layout.typeModule screen.unit.kebab) screen.module ++ ";")))) := by
    have hparts : exportTypeLine screen.types
        (specifierLiteral (layout.typeModule screen.unit.kebab) screen.module) =
        "export type " ++ (braced screen.types ++ (" from " ++
          (specifierLiteral (layout.typeModule screen.unit.kebab) screen.module ++ ";"))) := by
      unfold exportTypeLine
      rw [String.append_assoc, String.append_assoc, String.append_assoc]
    exact hparts.trans (prefix_append (by decide) _)
  show endLines [generatedHeader, exportTypeLine screen.types _] = _
  rw [hline]

/-- No index and no type module has the text of a namespace module. -/
theorem followers_content {layout : Layout} {screens : List EmittedScreen} {a : Artifact}
    (h : a ∈ followers layout screens) (hscreens : screens ≠ []) (screen : EmittedScreen) :
    a.content ≠ (namespaceArtifact layout screen).content := by
  -- the second lines differ after `export `: a brace, a star or the word `type`
  obtain ⟨rest, hrest⟩ := namespaceArtifact_content layout screen
  rw [hrest]
  have hstar : ∀ {tail : String} {more : List String},
      endLines (generatedHeader :: ("export *" ++ tail) :: more) ≠
        endLines [generatedHeader, "export \x7b" ++ rest] :=
    endLines_ne (by decide) (by decide)
  rcases List.mem_cons.1 h with rfl | h
  · obtain ⟨first, more, rfl⟩ := List.exists_cons_of_ne_nil hscreens
    obtain ⟨tail, lines, hcontent⟩ := indexArtifact_content layout.namespaceDir first more
    rw [hcontent]
    exact hstar
  · rcases List.mem_append.1 h with h | h
    · rcases typeArtifacts_spec h with ⟨typed, -, rfl⟩ | ⟨first, more, rfl⟩
      · obtain ⟨tail, hcontent⟩ := typeArtifact_content layout typed
        rw [hcontent]
        exact endLines_ne (by decide) (by decide)
      · obtain ⟨tail, lines, hcontent⟩ := indexArtifact_content layout.typeDir first more
        rw [hcontent]
        exact hstar
    · have hline : a.content = endLines (generatedHeader ::
          ("export *" ++ " as Screens from './screens';") ::
          (if (typed screens).isEmpty then [] else ["export * as Types from './types';"])) := by
        rw [List.mem_singleton.1 h]
        rfl
      rw [hline]
      exact hstar

end Output

namespace Run.Generator

open Disk Output

variable {g : Generator} {options : Options} {d : Disk}

/-! ### Targets -/

/-- The namespace module of a screen. -/
def namespaceOf (g : Generator) (screen : PreparedUnit) : Artifact :=
  namespaceArtifact g.config.output (g.emitted screen)

/-- What is written after the namespace modules, apart from the manifest. -/
def followersOf (g : Generator) (screens : List PreparedUnit) : List Artifact :=
  followers g.config.output (screens.map g.emitted)

/-- Whether two artifacts of a run have one place. -/
def SamePlace (g : Generator) (d : Disk) (a b : Artifact) : Prop :=
  d.spot (g.target a) = d.spot (g.target b)

theorem target_ends {c : Char} {a : Artifact} (h : Ends c a) :
    Path.Named (g.target a) ∧ (g.target a).ending = some c :=
  ⟨Path.named_join h.1, by rw [target, Path.ending_join, h.2]⟩

/-- Artifacts with different endings have different places. -/
theorem not_samePlace {b c : Char} {x y : Artifact} (hx : Ends b x) (hy : Ends c y) (hne : b ≠ c) :
    ¬ g.SamePlace d x y := by
  obtain ⟨hxNamed, hxEnding⟩ := g.target_ends hx
  obtain ⟨hyNamed, hyEnding⟩ := g.target_ends hy
  refine spot_ne_of_ending hxNamed hyNamed ?_ d
  rw [hxEnding, hyEnding]
  exact fun h => hne (Option.some.inj h)

theorem screenArtifact_ends (hlayout : g.config.output.Default) (screen : PreparedUnit) :
    Ends 'x' (g.screenArtifact screen) := by
  have hpath : (g.screenArtifact screen).path =
      g.config.output.screensDir.child (screen.unit.kebab ++ ".tsx") := by
    show g.config.output.screensDir.child
      (screen.unit.kebab ++ "." ++ g.config.output.moduleExtension) = _
    rw [hlayout, String.append_assoc]
    rfl
  rw [Ends, hpath]
  exact Path.child_ends _ _ (by decide) (by decide)

theorem document_ends (package : String) (screen : PreparedUnit) :
    Ends 'd' (g.document package screen) :=
  Path.child_ends g.config.output.examplesDir screen.unit.kebab (by decide) (by decide)

theorem mergedManifest_ends (hlayout : g.config.output.Default) {manifest : Option String}
    {emitted : List EmittedScreen} {merged : Artifact}
    (h : g.mergedManifest manifest emitted = .ok merged) : Ends 'n' merged := by
  have hpath : merged.path = ⟨"package.json"⟩ := by
    obtain ⟨text, -, rfl⟩ := mergedManifest_ok_iff.1 h
    show g.config.output.manifest = _
    rw [hlayout]
  rw [Ends, hpath]
  exact ⟨Path.named_of_long (by decide), by decide⟩

theorem baseArtifacts_ends (hlayout : g.config.output.Default) {emitted : List EmittedScreen}
    {a : Artifact} (h : a ∈ g.baseArtifacts emitted) : Ends 's' a := by
  simp only [baseArtifacts, List.mem_cons, List.not_mem_nil, or_false] at h
  rcases h with rfl | rfl | rfl | rfl
  · exact ends_ts g.config.output.hooksDir Hook.contextHooksModule rfl
  · exact ends_ts g.config.output.hooksDir Hook.utilityModule rfl
  · exact ends_ts g.config.output.hooksDir Hook.commonModule rfl
  · have hbarrel : g.config.output.barrel = ⟨"src/index.ts"⟩ := by rw [hlayout]
    have hpath : (barrel g.config.output emitted).path = ⟨"src/index.ts"⟩ := hbarrel
    rw [Ends, hpath]
    exact ⟨Path.named_of_long (by decide), by decide⟩

theorem sharedArtifacts_eq (screens : List PreparedUnit) :
    g.sharedArtifacts (screens.map g.emitted) =
      g.baseArtifacts (screens.map g.emitted) ++
        (screens.map g.namespaceOf ++ g.followersOf screens) := by
  rw [sharedArtifacts, groupedArtifacts_eq, List.map_map]
  rfl

/-! ### What stands at the end of a run -/

/-- Whether the file of an artifact has its content. -/
def Holds (g : Generator) (after : Disk) (a : Artifact) : Prop :=
  after.readText (g.target a) = .ok a.content

theorem SamePlace.symm {a b : Artifact} (h : g.SamePlace d a b) : g.SamePlace d b a := Eq.symm h

/-- Two paths of one place read one text. -/
theorem SamePlace.text_eq {a b : Artifact} (h : g.SamePlace d a b) {after : Disk}
    (hhere : after.here = d.here) {x y : String} (hx : after.readText (g.target a) = .ok x)
    (hy : after.readText (g.target b) = .ok y) : x = y := by
  obtain ⟨-, -, hx⟩ := readText_ok_iff.1 hx
  obtain ⟨-, -, hy⟩ := readText_ok_iff.1 hy
  rw [spot_congr hhere] at hx hy
  rw [h, hy] at hx
  cases hx
  rfl

namespace Completed

variable (c : Completed g options d)

/-- An attempt is for the module of a screen, or its artifact ends in another
way. -/
theorem attempt_kind (hlayout : g.config.output.Default) {t : Attempt} (ht : t ∈ c.ts ++ c.us) :
    (∃ screen, t.artifact = g.screenArtifact screen ∧ (t.Succeeds → screen ∈ c.shipped)) ∨
      ∃ ending, ending ≠ 'x' ∧ Ends ending t.artifact := by
  rcases List.mem_append.1 ht with ht | ht
  · rcases (c.screens.attempts_spec ht).2 with hmodule | ⟨screen, hdoc⟩
    · exact .inl hmodule
    · rw [hdoc]
      exact .inr ⟨'d', by decide, document_ends _ screen⟩
  · have hmem : t.artifact ∈ c.us.map (·.artifact) := List.mem_map_of_mem ht
    rw [c.shared.artifacts_eq, sharedArtifacts_eq] at hmem
    refine .inr ?_
    rcases List.mem_append.1 hmem with hmem | hmem
    · rcases List.mem_append.1 hmem with hmem | hmem
      · exact ⟨'s', by decide, baseArtifacts_ends hlayout hmem⟩
      · rcases List.mem_append.1 hmem with hmem | hmem
        · obtain ⟨screen, -, hspace⟩ := List.mem_map.1 hmem
          rw [← hspace]
          exact ⟨'s', by decide, namespaceArtifact_ends _ _⟩
        · exact ⟨'s', by decide, followers_ends hmem⟩
    · rw [List.mem_singleton.1 hmem]
      exact ⟨'n', by decide, mergedManifest_ends hlayout c.merged_eq⟩

/-- The file of a hook module has the text of some hook module of its place. -/
theorem module_written (hlayout : g.config.output.Default) (hdry : options.dryRun = false)
    {screen : PreparedUnit} (hscreen : screen ∈ c.shipped) :
    ∃ other ∈ c.shipped, g.SamePlace d (g.screenArtifact other) (g.screenArtifact screen) ∧
      c.last.readText (g.target (g.screenArtifact screen)) =
        .ok (g.screenArtifact other).content := by
  -- what is at the place of a hook module is a hook module
  have hmodule : ∀ t ∈ c.ts ++ c.us, t.spot = d.spot (g.target (g.screenArtifact screen)) →
      ∃ other, t.artifact = g.screenArtifact other ∧ (t.Succeeds → other ∈ c.shipped) := by
    intro t ht hspot
    rw [(c.attempt_spot ht).2] at hspot
    rcases c.attempt_kind hlayout ht with hfound | ⟨ending, hne, hends⟩
    · exact hfound
    · exact absurd hspot (not_samePlace hends (screenArtifact_ends hlayout screen) hne)
  have halways : ∀ t ∈ c.ts ++ c.us, t.spot = d.spot (g.target (g.screenArtifact screen)) →
      t.artifact.policy = .always := by
    intro t ht hspot
    obtain ⟨other, hother, -⟩ := hmodule t ht hspot
    rw [hother]
    rfl
  have hwriter : ∀ t ∈ c.ts ++ c.us, t.writer.dryRun = false := by
    intro t ht
    rw [c.attempt_writer ht]
    exact hdry
  obtain ⟨t, ht, -, hartifact, hsucceeds⟩ := c.screens.shipped_spec hscreen
  have htAll := List.mem_append_left c.us ht
  have htarget : t.target = g.target (g.screenArtifact screen) := by
    rw [(c.attempt_spot htAll).1, hartifact]
  obtain ⟨u, hu, hspot, husucceeds, htext⟩ :=
    c.trail.text_written hwriter halways ⟨t, htAll, htarget, hsucceeds⟩
  obtain ⟨other, hother, hin⟩ := hmodule u hu hspot
  refine ⟨other, hin husucceeds, ?_, ?_⟩
  · rw [(c.attempt_spot hu).2, hother] at hspot
    exact hspot
  · rw [htext, hother]

/-- The file of an artifact among the last ones of a run has the text of one of
these last ones. -/
theorem shared_written (hdry : options.dryRun = false) (before after : List Artifact)
    (hsplit : g.sharedArtifacts (c.shipped.map g.emitted) ++ [c.merged] = before ++ after)
    (halways : ∀ a ∈ after, a.policy = .always) {a : Artifact} (ha : a ∈ after) :
    ∃ b ∈ after, g.SamePlace d b a ∧ c.last.readText (g.target a) = .ok b.content := by
  have hshared := c.shared
  rw [hsplit] at hshared
  obtain ⟨us, vs, mid, hus, -, hafter⟩ := hshared.split
  have hmem : ∀ t ∈ vs, t ∈ c.ts ++ c.us := fun t ht =>
    List.mem_append_right _ (by rw [hus]; exact List.mem_append_right _ ht)
  have hartifact : ∀ t ∈ vs, t.artifact ∈ after := by
    intro t ht
    rw [← hafter.artifacts_eq]
    exact List.mem_map_of_mem ht
  have hhere : mid.here = d.here := by
    rw [← hafter.trail.here_eq.1, c.trail.here_eq.1]
  rw [← hafter.artifacts_eq] at ha
  obtain ⟨t, ht, rfl⟩ := List.mem_map.1 ha
  have hwriter : ∀ t ∈ vs, t.writer.dryRun = false := by
    intro t ht
    rw [c.attempt_writer (hmem t ht)]
    exact hdry
  -- the last attempt at the place has left its text
  obtain ⟨u, hu, hspot, -, htext⟩ := hafter.trail.text_written hwriter
    (fun t ht _ => halways _ (hartifact t ht))
    ⟨t, ht, (c.attempt_spot (hmem t ht)).1, (hafter.succeeds ht).2⟩
  refine ⟨u.artifact, hartifact u hu, ?_, htext⟩
  rw [(c.attempt_spot (hmem u hu)).2, spot_congr hhere] at hspot
  exact hspot

end Completed

theorem follower_policy {screens : List EmittedScreen} {a : Artifact}
    (h : a ∈ followers g.config.output screens) : a.policy = .always := by
  rcases List.mem_cons.1 h with rfl | h
  · rfl
  · rcases List.mem_append.1 h with h | h
    · rcases typeArtifacts_spec h with ⟨screen, -, rfl⟩ | ⟨screen, rest, rfl⟩ <;> rfl
    · rw [List.mem_singleton.1 h]
      rfl

theorem mergedManifest_policy {manifest : Option String} {emitted : List EmittedScreen}
    {merged : Artifact} (h : g.mergedManifest manifest emitted = .ok merged) :
    merged.policy = .always := by
  obtain ⟨text, -, rfl⟩ := mergedManifest_ok_iff.1 h
  rfl

/-- The file of a namespace module has the text of a namespace module or of a
follower of its place. -/
theorem Completed.namespace_written (c : Completed g options d) (hlayout : g.config.output.Default)
    (hdry : options.dryRun = false) {screen : PreparedUnit} (hscreen : screen ∈ c.shipped) :
    ∃ b, (b ∈ c.shipped.map g.namespaceOf ∨ b ∈ g.followersOf c.shipped) ∧
      g.SamePlace d b (g.namespaceOf screen) ∧
      c.last.readText (g.target (g.namespaceOf screen)) = .ok b.content := by
  have hmem : g.namespaceOf screen ∈ c.shipped.map g.namespaceOf := List.mem_map_of_mem hscreen
  obtain ⟨b, hb, hplace, htext⟩ := c.shared_written hdry
    (g.baseArtifacts (c.shipped.map g.emitted))
    (c.shipped.map g.namespaceOf ++ g.followersOf c.shipped ++ [c.merged])
    (by rw [sharedArtifacts_eq, List.append_assoc]) (by
      intro a ha
      rcases List.mem_append.1 ha with ha | ha
      · rcases List.mem_append.1 ha with ha | ha
        · obtain ⟨other, -, rfl⟩ := List.mem_map.1 ha
          rfl
        · exact follower_policy ha
      · rw [List.mem_singleton.1 ha]
        exact mergedManifest_policy c.merged_eq)
    (List.mem_append_left _ (List.mem_append_left _ hmem))
  refine ⟨b, ?_, hplace, htext⟩
  -- the manifest has another extension, so it goes to another place
  rcases List.mem_append.1 hb with hb | hb
  · exact List.mem_append.1 hb
  · rw [List.mem_singleton.1 hb] at hplace
    exact absurd hplace (not_samePlace (mergedManifest_ends hlayout c.merged_eq)
      (namespaceArtifact_ends _ _) (by decide))

/-- The file of a follower has the text of a follower of its place. -/
theorem Completed.follower_written (c : Completed g options d) (hlayout : g.config.output.Default)
    (hdry : options.dryRun = false) {a : Artifact} (ha : a ∈ g.followersOf c.shipped) :
    ∃ b ∈ g.followersOf c.shipped, g.SamePlace d b a ∧
      c.last.readText (g.target a) = .ok b.content := by
  obtain ⟨b, hb, hplace, htext⟩ := c.shared_written hdry
    (g.baseArtifacts (c.shipped.map g.emitted) ++ c.shipped.map g.namespaceOf)
    (g.followersOf c.shipped ++ [c.merged])
    (by rw [sharedArtifacts_eq]; simp only [List.append_assoc]) (by
      intro a ha
      rcases List.mem_append.1 ha with ha | ha
      · exact follower_policy ha
      · rw [List.mem_singleton.1 ha]
        exact mergedManifest_policy c.merged_eq)
    (List.mem_append_left _ ha)
  rcases List.mem_append.1 hb with hb | hb
  · exact ⟨b, hb, hplace, htext⟩
  · rw [List.mem_singleton.1 hb] at hplace
    exact absurd hplace (not_samePlace (mergedManifest_ends hlayout c.merged_eq)
      (followers_ends ha) (by decide))

/-- Whether the screens of a run are kept apart: where two of them share the
place of a module they share its text, and no index and no type module takes the
place of a namespace module. -/
structure Separate (g : Generator) (d : Disk) (screens : List PreparedUnit) : Prop where
  modules : ∀ a ∈ screens, ∀ b ∈ screens, g.SamePlace d (g.screenArtifact a) (g.screenArtifact b) →
    (g.screenArtifact a).content = (g.screenArtifact b).content
  namespaces : ∀ a ∈ screens, ∀ b ∈ screens, g.SamePlace d (g.namespaceOf a) (g.namespaceOf b) →
    (g.namespaceOf a).content = (g.namespaceOf b).content
  followers : ∀ a ∈ screens, ∀ b ∈ g.followersOf screens, ¬ g.SamePlace d (g.namespaceOf a) b

/-- After a run with the default layout every screen of its report has its hook
module and its namespace module, exactly if the screens are kept apart. -/
theorem screens_kept_iff (hlayout : g.config.output.Default) (hdry : options.dryRun = false)
    {report : Report} (hok : (g.run options d).outcome = .ok report) :
    report.screens = (g.shipped options d).map (·.unit.name) ∧
      ((∀ screen ∈ g.shipped options d,
          g.Holds (g.run options d).disk (g.screenArtifact screen) ∧
          g.Holds (g.run options d).disk (g.namespaceOf screen)) ↔
        g.Separate d (g.shipped options d)) := by
  obtain ⟨c, rfl⟩ := completed_of_ok hok
  rw [c.shipped_eq, c.run_eq.2.1]
  refine ⟨rfl, ?_⟩
  have hhere : c.last.here = d.here := c.trail.here_eq.1
  constructor
  · intro h
    refine ⟨?_, ?_, ?_⟩
    · intro a ha b hb hplace
      exact hplace.text_eq hhere (h a ha).1 (h b hb).1
    · intro a ha b hb hplace
      exact hplace.text_eq hhere (h a ha).2 (h b hb).2
    · intro a ha b hb hplace
      -- the last follower at the place would have the text of the namespace module
      obtain ⟨f, hf, hsame, htext⟩ := c.follower_written hlayout hdry hb
      have hcontent := hplace.text_eq hhere (h a ha).2 htext
      have hscreens : c.shipped.map g.emitted ≠ [] := by
        intro hnil
        rw [List.map_eq_nil_iff.1 hnil] at ha
        cases ha
      exact followers_content hf hscreens (g.emitted a) hcontent.symm
  · intro h screen hscreen
    constructor
    · obtain ⟨other, hother, hplace, htext⟩ := c.module_written hlayout hdry hscreen
      rw [h.modules other hother screen hscreen hplace] at htext
      exact htext
    · obtain ⟨b, hb, hplace, htext⟩ := c.namespace_written hlayout hdry hscreen
      rcases hb with hb | hb
      · obtain ⟨other, hother, rfl⟩ := List.mem_map.1 hb
        rw [h.namespaces other hother screen hscreen hplace] at htext
        exact htext
      · exact absurd hplace.symm (h.followers screen hscreen b hb)

/-! ### The paths of a run -/

/-- The paths that a run writes to for screens of the given kebab names, or may write
to. -/
def writtenPaths (layout : Layout) (examples : Bool) (kebabs : List String) : List Path :=
  kebabs.flatMap (fun kebab =>
      layout.screenModule kebab :: if examples then [layout.exampleDoc kebab] else []) ++
    [layout.hooksModule Hook.contextHooksModule, layout.hooksModule Hook.utilityModule,
      layout.hooksModule Hook.commonModule, layout.barrel] ++
    kebabs.map layout.namespaceModule ++ [layout.namespaceDir.child "index.ts"] ++
    kebabs.map layout.typeModule ++
    [layout.typeDir.child "index.ts", layout.exportsDir.child "index.ts", layout.manifest]

theorem path_mem_writtenPaths {package : String} {screens : List PreparedUnit} {merged a : Artifact}
    (hmerged : merged.path = g.config.output.manifest)
    (ha : a ∈ g.screenArtifacts options package screens ++
      (g.sharedArtifacts (screens.map g.emitted) ++ [merged])) :
    a.path ∈ writtenPaths g.config.output options.writeExamples
      (screens.map (·.unit.kebab)) := by
  unfold writtenPaths
  simp only [List.mem_append, or_assoc]
  -- both lists name the artifacts in the order in which they are written
  rcases List.mem_append.1 ha with ha | ha
  · obtain ⟨screen, hscreen, ha⟩ := List.mem_flatMap.1 ha
    refine .inl (List.mem_flatMap.2 ⟨_, List.mem_map_of_mem hscreen, ?_⟩)
    rcases List.mem_cons.1 ha with rfl | ha
    · exact List.mem_cons_self
    · refine List.mem_cons_of_mem _ ?_
      cases hexamples : options.writeExamples with
      | false => simp [hexamples] at ha
      | true =>
        simp only [hexamples, if_true, List.mem_singleton] at ha ⊢
        rw [ha]
        rfl
  refine .inr ?_
  rcases List.mem_append.1 ha with ha | ha
  · rw [sharedArtifacts_eq] at ha
    rcases List.mem_append.1 ha with ha | ha
    · refine .inl ?_
      simp only [baseArtifacts, List.mem_cons, List.not_mem_nil, or_false] at ha ⊢
      rcases ha with rfl | rfl | rfl | rfl
      · exact .inl rfl
      · exact .inr (.inl rfl)
      · exact .inr (.inr (.inl rfl))
      · exact .inr (.inr (.inr rfl))
    refine .inr ?_
    rcases List.mem_append.1 ha with ha | ha
    · obtain ⟨screen, hscreen, rfl⟩ := List.mem_map.1 ha
      exact .inl (List.mem_map_of_mem (List.mem_map_of_mem hscreen))
    refine .inr ?_
    rcases List.mem_cons.1 ha with rfl | ha
    · exact .inl List.mem_cons_self
    refine .inr ?_
    rcases List.mem_append.1 ha with ha | ha
    · rcases typeArtifacts_spec ha with ⟨typed, htyped, rfl⟩ | ⟨first, rest, rfl⟩
      · obtain ⟨screen, hscreen, rfl⟩ := List.mem_map.1 htyped
        exact .inl (List.mem_map_of_mem (List.mem_map_of_mem hscreen))
      · exact .inr List.mem_cons_self
    · rw [List.mem_singleton.1 ha]
      exact .inr (List.mem_cons_of_mem _ List.mem_cons_self)
  · rw [List.mem_singleton.1 ha, hmerged]
    simp

/-- A run that finds no manifest succeeds where it writes new files only, to paths that
do not block each other. -/
theorem completed_of_paths {prepared : List Prepared} {paths : List Path}
    (hread : (g.readAll d).1 = .ok (none, prepared))
    (hpaths : ∀ below ∈ writtenPaths g.config.output options.writeExamples
      ((screensOf prepared).map (·.unit.kebab)), g.outputRoot.join below ∈ paths)
    (hclear : Clear d paths) (hnew : ∀ p ∈ paths, d.at? (d.spot p) = none) :
    ∃ c : Completed g options d, c.prepared = prepared ∧ c.shipped = screensOf prepared ∧
      ∀ t ∈ c.ts ++ c.us, t.Succeeds ∧ d.at? t.spot = none := by
  obtain ⟨merged, hmerged⟩ : ∃ merged, g.mergedManifest none
      ((screensOf prepared).map g.emitted) = .ok merged :=
    ⟨_, mergedManifest_ok_iff.2 ⟨_, rfl, rfl⟩⟩
  have htargets : ∀ a ∈ g.screenArtifacts options (packageName none) (screensOf prepared) ++
      (g.sharedArtifacts ((screensOf prepared).map g.emitted) ++ [merged]),
      g.target a ∈ paths := by
    intro a ha
    obtain ⟨text, -, hpath⟩ := mergedManifest_ok_iff.1 hmerged
    exact hpaths _ (path_mem_writtenPaths (by rw [hpath]; rfl) ha)
  have hlegible : ∀ p ∈ paths, ¬ Illegible d (d.spot p) := by
    rintro p hp ⟨bytes, hat⟩
    rw [hnew p hp] at hat
    cases hat
  obtain ⟨c, hprepared, hshipped, hsucceeds, hartifacts⟩ :=
    completed_of_clear hclear hlegible hread hmerged htargets
  refine ⟨c, hprepared, hshipped, fun t ht => ⟨hsucceeds t ht, ?_⟩⟩
  have hmem : t.artifact ∈ (c.ts ++ c.us).map (·.artifact) := List.mem_map_of_mem ht
  rw [hartifacts] at hmem
  rw [(c.attempt_spot ht).2]
  exact hnew _ (htargets _ hmem)

/-! ### A screen called `Index` -/

/-- A core package whose only screen is called like the index modules. -/
def indexDisk : Disk where
  entries := [(["c"], .directory),
    (["c", "all.ts"], .file (.text "export * from './index'")),
    (["c", "index.ts"], .file (.text "export class Index {}"))]

def indexGenerator : Generator where
  config :=
    { core :=
        { root := ⟨"/c"⟩
          screensBarrel := ⟨"all.ts"⟩
          implementationPattern := "\x7bkebab\x7d.ts"
          declarationPattern := "\x7bkebab\x7d.ts" }
      output := { root := ⟨"/o"⟩ } }
  home := none
  project := { root := ⟨"/c"⟩ }
  allow := .empty

/-- The places of all that is written for it. -/
def indexPlaces : List Place :=
  [["o", "src", "screens", "index.tsx"], ["o", "src", "hooks", "context-hooks.ts"],
    ["o", "src", "hooks", "utility.ts"], ["o", "src", "hooks", "common.ts"],
    ["o", "src", "index.ts"], ["o", "src", "exports", "screens", "index.ts"],
    ["o", "src", "exports", "types", "index.ts"], ["o", "src", "exports", "index.ts"],
    ["o", "package.json"]]

theorem index_clear : Clear indexDisk (indexPlaces.map pathOf) ∧
    ∀ p ∈ indexPlaces.map pathOf, indexDisk.at? (indexDisk.spot p) = none :=
  ⟨clear_of_forall (by decide +kernel), by decide +kernel⟩

/-- Whether there was no manifest and one screen, with the given names. -/
def findsOne (name kebab : String) : Except Failure (Option String × List Prepared) → Bool
  | .ok (none, [.ok screen]) => screen.unit.name = name ∧ screen.unit.kebab = kebab
  | _ => false

theorem of_findsOne {name kebab : String} {found : Except Failure (Option String × List Prepared)}
    (h : findsOne name kebab found = true) :
    ∃ screen, found = .ok (none, [.ok screen]) ∧ screen.unit.name = name ∧
      screen.unit.kebab = kebab := by
  unfold findsOne at h
  split at h
  next screen => exact ⟨screen, rfl, of_decide_eq_true h⟩
  next => cases h

/-- A run for the screen succeeds. -/
theorem index_completed : ∃ c : Completed indexGenerator {} indexDisk,
    c.report.screens = ["Index"] ∧ (∀ t ∈ c.ts ++ c.us, t.Succeeds ∧ indexDisk.at? t.spot = none) ∧
    ∃ screen, c.prepared = [.ok screen] ∧ c.shipped = [screen] ∧ screen.unit.name = "Index" ∧
      screen.unit.kebab = "index" := by
  have hfound : findsOne "Index" "index" (indexGenerator.readAll indexDisk).1 = true := by
    decide +kernel
  obtain ⟨screen, hread, hname, hkebab⟩ := of_findsOne hfound
  have hpaths : ∀ below ∈ writtenPaths indexGenerator.config.output false
      ((screensOf [Except.ok screen]).map (·.unit.kebab)),
      indexGenerator.outputRoot.join below ∈ indexPlaces.map pathOf := by
    show ∀ below ∈ writtenPaths _ false [screen.unit.kebab], _
    rw [hkebab]
    decide +kernel
  obtain ⟨c, hprepared, hshipped, hwritten⟩ :
      ∃ c : Completed indexGenerator {} indexDisk, _ :=
    completed_of_paths hread hpaths index_clear.1 index_clear.2
  refine ⟨c, ?_, hwritten, screen, hprepared, hshipped, hname, hkebab⟩
  show c.shipped.map _ = _
  rw [hshipped]
  exact congrArg (fun name => [name]) hname

theorem index_layout : indexGenerator.config.output.Default := rfl

theorem screens_kept_index : ∃ report, (indexGenerator.run {} indexDisk).outcome = .ok report ∧
    report.screens = ["Index"] ∧
    ((∀ screen ∈ indexGenerator.shipped {} indexDisk,
        indexGenerator.Holds (indexGenerator.run {} indexDisk).disk
          (indexGenerator.screenArtifact screen) ∧
        indexGenerator.Holds (indexGenerator.run {} indexDisk).disk
          (indexGenerator.namespaceOf screen)) ↔
      indexGenerator.Separate indexDisk (indexGenerator.shipped {} indexDisk)) := by
  obtain ⟨c, hscreens, -⟩ := index_completed
  exact ⟨c.report, c.run_eq.1, hscreens, (screens_kept_iff index_layout rfl c.run_eq.1).2⟩

/-- The index of the namespace modules takes the place of the namespace module of
the screen `Index`, which the report lists all the same. -/
theorem namespace_lost : open? indexDisk none indexGenerator.config = .ok indexGenerator ∧
    indexGenerator.config.output.Default ∧
    ∃ report, (indexGenerator.run {} indexDisk).outcome = .ok report ∧ report.screens = ["Index"] ∧
      ∃ screen ∈ indexGenerator.shipped {} indexDisk, screen.unit.name = "Index" ∧
        ¬ indexGenerator.Holds (indexGenerator.run {} indexDisk).disk
          (indexGenerator.namespaceOf screen) := by
  obtain ⟨c, hscreens, -, screen, -, hshipped, hname, hkebab⟩ := index_completed
  rw [c.shipped_eq, c.run_eq.2.1]
  refine ⟨rfl, index_layout, c.report, c.run_eq.1, hscreens, screen, by simp [hshipped], hname,
    fun hholds => ?_⟩
  -- the index of the namespace modules
  have hindex : indexArtifact indexGenerator.config.output.namespaceDir
      (c.shipped.map indexGenerator.emitted) ∈ indexGenerator.followersOf c.shipped :=
    List.mem_cons_self
  obtain ⟨f, hf, hsame, htext⟩ := c.follower_written index_layout rfl hindex
  have htarget : indexGenerator.target (indexArtifact indexGenerator.config.output.namespaceDir
      (c.shipped.map indexGenerator.emitted)) =
      indexGenerator.target (indexGenerator.namespaceOf screen) := by
    show indexGenerator.outputRoot.join (indexGenerator.config.output.namespaceDir.child "index.ts") =
      indexGenerator.outputRoot.join (indexGenerator.config.output.namespaceModule screen.unit.kebab)
    rw [hkebab]
    rfl
  rw [htarget, hholds] at htext
  have hsome : c.shipped.map indexGenerator.emitted ≠ [] := by simp [hshipped]
  exact followers_content hf hsome (indexGenerator.emitted screen) (Except.ok.inj htext).symm

end Run.Generator

end ScreenHooks
