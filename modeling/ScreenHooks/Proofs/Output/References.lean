/-
Where the specifiers of generated modules lead.

`Refers` lists the relative specifiers that a run writes, each with the artifact
and the line in which it stands and with what it stands for: a module without
its extension, or the directory of an index module. Read from the directory of
its artifact, each of them leads there.

* **`Refers.line_mem`** — the line stands in the artifact and quotes the
  specifier;
* **`Refers.leads`** — the specifier leads to what it stands for;
* **`refers_all`** — no other line of the barrel and the grouped modules has a
  specifier;
* **`refers_resolved`** — the line and where it leads, for a whole layout.
-/
import ScreenHooks.Proofs.Path.Relative
import ScreenHooks.Run.Generator

namespace ScreenHooks.Output

open Hook Path Text

/-! ### Layouts and screens -/

/-- Whether the directories and the barrel of a layout stay below the output
root, and its screen modules have one extension. -/
structure Layout.Inside (layout : Layout) : Prop where
  screens : Level layout.screensDir
  hooks : Level layout.hooksDir
  exports : Level layout.exportsDir
  barrel : Level layout.barrel
  extension_slash : '/' ∉ layout.moduleExtension.toList
  extension_dot : '.' ∉ layout.moduleExtension.toList

/-- Whether a screen's module lies where the layout puts it, under a name that can
be the stem of a file name. -/
structure EmittedScreen.Placed (layout : Layout) (screen : EmittedScreen) : Prop where
  module_eq : screen.module = layout.screenModule screen.unit.kebab
  stem : Stem screen.unit.kebab

/-- The hook module of a screen with the given interfaces. -/
def hookArtifact (config : Config) (screen : EmittedScreen) (interfaces : Screen.Interfaces) :
    Artifact :=
  .generated screen.module (Module.of config.settings screen.unit interfaces).text

/-! ### Lines with a specifier -/

/-- Whether a text has a line. -/
def HasLine (text line : String) : Prop := ∃ lines, text = endLines lines ∧ line ∈ lines

/-- Whether a line imports or re-exports from a specifier. -/
def Quotes (line specifier : String) : Prop :=
  ∃ start literal, line = start ++ " from " ++ literal ++ ";" ∧
    (literal = singleQuoted specifier ∨ literal = "'" ++ specifier ++ "'")

theorem hasLine_endLines {lines : List String} {line : String} (h : line ∈ lines) :
    HasLine (endLines lines) line := ⟨lines, rfl, h⟩

theorem generated_content (path : Path) (content : String) :
    (Artifact.generated path content).content = content := rfl

theorem quotes_singleQuoted (start specifier : String) :
    Quotes (start ++ " from " ++ singleQuoted specifier ++ ";") specifier :=
  ⟨start, _, rfl, .inl rfl⟩

theorem indexLine_quotes (screen : EmittedScreen) :
    Quotes (indexLine screen) ("./" ++ screen.unit.kebab) := by
  refine ⟨"export * as " ++ screen.unit.name, _, ?_, .inr rfl⟩
  apply String.toList_inj.1
  simp [indexLine]

/-- The relative specifiers that a run writes: the artifact, its line, the
specifier, and what the specifier stands for. -/
inductive Refers (config : Config) (screens : List EmittedScreen) :
    Artifact → String → String → Path → Prop where
  /-- The barrel re-exports the primary hook of a screen. -/
  | barrel_screen {screen : EmittedScreen} (hscreen : screen ∈ screens)
      (hvalue : screen.unit.primaryHook ∈ screen.values) :
      Refers config screens (barrel config.output screens)
        (exportLine [screen.unit.primaryHook] (specifierLiteral config.output.barrel screen.module))
        (moduleSpecifier config.output.barrel screen.module)
        (config.output.screensDir.child screen.unit.kebab)
  /-- The barrel re-exports the common hooks. -/
  | barrel_common :
      Refers config screens (barrel config.output screens)
        ("export * from " ++
          specifierLiteral config.output.barrel (config.output.hooksModule commonModule) ++ ";")
        (moduleSpecifier config.output.barrel (config.output.hooksModule commonModule))
        (config.output.hooksDir.child commonModule)
  /-- The barrel re-exports the factory of the context hooks. -/
  | barrel_context :
      Refers config screens (barrel config.output screens)
        (exportLine [contextHooksFactory]
          (specifierLiteral config.output.barrel (config.output.hooksModule contextHooksModule)))
        (moduleSpecifier config.output.barrel (config.output.hooksModule contextHooksModule))
        (config.output.hooksDir.child contextHooksModule)
  /-- The namespace module of a screen re-exports its values. -/
  | namespace_screen {screen : EmittedScreen} (hscreen : screen ∈ screens)
      (hvalues : screen.values ≠ []) :
      Refers config screens (namespaceArtifact config.output screen)
        (exportLine screen.values
          (specifierLiteral (config.output.namespaceModule screen.unit.kebab) screen.module))
        (moduleSpecifier (config.output.namespaceModule screen.unit.kebab) screen.module)
        (config.output.screensDir.child screen.unit.kebab)
  /-- The type module of a screen re-exports its types. -/
  | type_screen {screen : EmittedScreen} (hscreen : screen ∈ typed screens) :
      Refers config screens (typeArtifact config.output screen)
        (exportTypeLine screen.types
          (specifierLiteral (config.output.typeModule screen.unit.kebab) screen.module))
        (moduleSpecifier (config.output.typeModule screen.unit.kebab) screen.module)
        (config.output.screensDir.child screen.unit.kebab)
  /-- The hook module of a screen imports the factory of the context hooks. -/
  | screen_context {screen : EmittedScreen} (hscreen : screen ∈ screens)
      (interfaces : Screen.Interfaces) :
      Refers config screens (hookArtifact config screen interfaces)
        (importLine [contextHooksFactory]
          (singleQuoted (config.settings.hooksModule contextHooksModule)))
        (config.settings.hooksModule contextHooksModule)
        (config.output.hooksDir.child contextHooksModule)
  /-- The hook module of a screen imports or re-exports from the module of a
  utility hook, which is given by a bare name. -/
  | screen_utility {screen : EmittedScreen} (hscreen : screen ∈ screens)
      {interfaces : Screen.Interfaces} {method : Script.Method} {hook : UtilityHook}
      (hhook : (method, hook) ∈ hooked config.settings interfaces)
      (hrelative : startsWith hook.module "." = false)
      (hscoped : startsWith hook.module "@" = false)
      (habsolute : startsWith hook.module "/" = false) {line : String}
      (hline : line ∈
        match hook.factory with
        | some factory =>
          [importLine (factory :: hook.types.map ("type " ++ ·))
            (singleQuoted (config.settings.utilitySpecifier hook))]
        | none =>
          exportLine [hook.hook] (singleQuoted (config.settings.utilitySpecifier hook)) ::
            if hook.types.isEmpty then []
            else [exportTypeLine hook.types
              (singleQuoted (config.settings.utilitySpecifier hook))]) :
      Refers config screens (hookArtifact config screen interfaces) line
        (config.settings.utilitySpecifier hook) (config.output.hooksDir.child hook.module)
  /-- The index of the namespace modules lists a screen. -/
  | namespace_index {screen : EmittedScreen} (hscreen : screen ∈ screens) :
      Refers config screens (indexArtifact config.output.namespaceDir screens) (indexLine screen)
        ("./" ++ screen.unit.kebab) (config.output.namespaceDir.child screen.unit.kebab)
  /-- The index of the type modules lists a screen that exports types. -/
  | type_index {screen : EmittedScreen} (hscreen : screen ∈ typed screens) :
      Refers config screens (indexArtifact config.output.typeDir (typed screens))
        (indexLine screen) ("./" ++ screen.unit.kebab)
        (config.output.typeDir.child screen.unit.kebab)
  /-- The group index names the directory of the namespace modules. -/
  | group_screens :
      Refers config screens (groupIndex config.output screens)
        "export * as Screens from './screens';" "./screens" config.output.namespaceDir
  /-- The group index names the directory of the type modules, if there are any. -/
  | group_types (htyped : typed screens ≠ []) :
      Refers config screens (groupIndex config.output screens)
        "export * as Types from './types';" "./types" config.output.typeDir

variable {config : Config} {screens : List EmittedScreen} {artifact : Artifact}
  {line specifier : String} {target : Path}

/-! ### The lines of the artifacts -/

theorem mem_titled {title : String} {lines : List String} (h : line ∈ lines) :
    line ∈ titled title lines := by
  cases lines with
  | nil => cases h
  | cons first rest => exact List.mem_cons_of_mem _ (List.mem_cons_of_mem _ h)

theorem hookArtifact_hasLine {screen : EmittedScreen} {interfaces : Screen.Interfaces}
    (h : line ∈ (Module.of config.settings screen.unit interfaces).importLines ∨
      line ∈ (Module.of config.settings screen.unit interfaces).hooks.flatMap BoundHook.lines) :
    HasLine (hookArtifact config screen interfaces).content line := by
  rw [hookArtifact, generated_content, Module.text]
  refine hasLine_endLines ?_
  simp only [Module.lines, List.mem_append]
  rcases h with h | h
  · tauto
  · have : line ∈ titled "Utility hooks" _ := mem_titled h
    tauto

/-- A utility hook with a factory is imported, any other is re-exported. -/
theorem utility_hasLine {screen : EmittedScreen} {interfaces : Screen.Interfaces}
    {bound : BoundHook}
    (hbound : bound ∈ (Module.of config.settings screen.unit interfaces).hooks)
    (h : bound.factoryImport? = some line ∨ line ∈ bound.lines) :
    HasLine (hookArtifact config screen interfaces).content line := by
  rcases h with h | h
  · refine hookArtifact_hasLine (.inl ?_)
    have hmem : line ∈ Names.ofList ((Module.of config.settings screen.unit
        interfaces).hooks.filterMap (·.factoryImport?)) :=
      Names.mem_ofList.2 (List.mem_filterMap.2 ⟨bound, hbound, h⟩)
    simp only [Module.importLines, List.mem_append]
    exact .inr hmem
  · exact hookArtifact_hasLine (.inr (List.mem_flatMap.2 ⟨bound, hbound, h⟩))

/-- The line stands in its artifact, and quotes its specifier. -/
theorem Refers.line_mem (h : Refers config screens artifact line specifier target) :
    HasLine artifact.content line ∧ Quotes line specifier := by
  -- all but the lines of an index are written from two paths
  have hspecifier : ∀ (start : String) (source goal : Path),
      Quotes (start ++ " from " ++ specifierLiteral source goal ++ ";")
        (moduleSpecifier source goal) :=
    fun start source goal => quotes_singleQuoted start _
  cases h with
  | @barrel_screen screen hscreen hvalue =>
    rw [barrel, generated_content]
    refine ⟨hasLine_endLines ?_, hspecifier _ _ _⟩
    have hline : barrelLine? config.output screen = some (exportLine [screen.unit.primaryHook]
        (specifierLiteral config.output.barrel screen.module)) := by
      rw [barrelLine?, if_pos (by simpa using hvalue)]
    exact List.mem_cons_of_mem _ (List.mem_append_left _ (List.mem_filterMap.2 ⟨_, hscreen, hline⟩))
  | barrel_common =>
    rw [barrel, generated_content]
    exact ⟨hasLine_endLines (by simp), hspecifier "export *" _ _⟩
  | barrel_context =>
    rw [barrel, generated_content]
    exact ⟨hasLine_endLines (by simp), hspecifier _ _ _⟩
  | @namespace_screen screen hscreen hvalues =>
    rw [namespaceArtifact, generated_content, if_neg (by simpa using hvalues)]
    exact ⟨hasLine_endLines (by simp), hspecifier _ _ _⟩
  | type_screen hscreen =>
    rw [typeArtifact, generated_content]
    exact ⟨hasLine_endLines (by simp), hspecifier _ _ _⟩
  | screen_context hscreen interfaces =>
    refine ⟨hookArtifact_hasLine (.inl ?_), quotes_singleQuoted _ _⟩
    simp only [Module.importLines, List.mem_append]
    exact .inl (.inr (List.mem_singleton_self _))
  | @screen_utility screen hscreen interfaces method hook hhook hrelative hscoped habsolute _ hline =>
    -- a hook with a factory has its import above, the others have their own lines
    have hbound : ⟨method.name, hook, config.settings.utilitySpecifier hook⟩ ∈
        (Module.of config.settings screen.unit interfaces).hooks :=
      List.mem_map.2 ⟨_, hhook, rfl⟩
    cases hfactory : hook.factory with
    | some factory =>
      simp only [hfactory, List.mem_singleton] at hline
      subst hline
      refine ⟨utility_hasLine hbound (.inl ?_), quotes_singleQuoted _ _⟩
      rw [BoundHook.factoryImport?, hfactory]
      rfl
    | none =>
      simp only [hfactory] at hline
      refine ⟨utility_hasLine hbound (.inr ?_), ?_⟩
      · simpa only [BoundHook.lines, hfactory] using hline
      · rcases List.mem_cons.1 hline with rfl | hline
        · exact quotes_singleQuoted _ _
        · split at hline
          · cases hline
          · rw [List.mem_singleton.1 hline]
            exact quotes_singleQuoted _ _
  | namespace_index hscreen =>
    rw [indexArtifact, generated_content]
    exact ⟨hasLine_endLines (List.mem_cons_of_mem _ (List.mem_map_of_mem hscreen)),
      indexLine_quotes _⟩
  | type_index hscreen =>
    rw [indexArtifact, generated_content]
    exact ⟨hasLine_endLines (List.mem_cons_of_mem _ (List.mem_map_of_mem hscreen)),
      indexLine_quotes _⟩
  | group_screens =>
    rw [groupIndex, generated_content]
    exact ⟨hasLine_endLines (by simp), "export * as Screens", _, rfl, .inr rfl⟩
  | group_types htyped =>
    rw [groupIndex, generated_content, if_neg (by simpa using htyped)]
    exact ⟨hasLine_endLines (by simp), "export * as Types", _, rfl, .inr rfl⟩

/-! ### The other lines -/

/-- The lines of the barrel and the grouped modules that have no specifier. -/
def plainLines : List String := [generatedHeader, "", "export \x7b\x7d;"]

/-- Whether each line of an artifact has no specifier or is listed. -/
def Listed (config : Config) (screens : List EmittedScreen) (artifact : Artifact) : Prop :=
  ∃ lines, artifact.content = endLines lines ∧ ∀ line ∈ lines,
    line ∈ plainLines ∨ ∃ specifier target, Refers config screens artifact line specifier target

theorem header_plain : generatedHeader ∈ plainLines := List.mem_cons_self

theorem barrel_listed : Listed config screens (barrel config.output screens) := by
  rw [Listed, barrel, generated_content, ← barrel]
  refine ⟨_, rfl, fun line hline => ?_⟩
  simp only [List.mem_cons, List.mem_append, List.not_mem_nil, or_false] at hline
  rcases hline with rfl | hline | rfl | rfl | rfl
  · exact .inl header_plain
  · obtain ⟨screen, hscreen, hsome⟩ := List.mem_filterMap.1 hline
    rw [barrelLine?] at hsome
    split at hsome
    next hvalue =>
      rw [← Option.some.inj hsome]
      exact .inr ⟨_, _, .barrel_screen hscreen (by simpa using hvalue)⟩
    next => cases hsome
  · exact .inl (by simp [plainLines])
  · exact .inr ⟨_, _, .barrel_common⟩
  · exact .inr ⟨_, _, .barrel_context⟩

theorem namespace_listed {screen : EmittedScreen} (hscreen : screen ∈ screens) :
    Listed config screens (namespaceArtifact config.output screen) := by
  rw [Listed, namespaceArtifact, generated_content, ← namespaceArtifact]
  refine ⟨_, rfl, fun line hline => ?_⟩
  simp only [List.mem_cons, List.not_mem_nil, or_false] at hline
  rcases hline with rfl | rfl
  · exact .inl header_plain
  · split
    next => exact .inl (by simp [plainLines])
    next hvalues => exact .inr ⟨_, _, .namespace_screen hscreen (by simpa using hvalues)⟩

theorem index_listed {directory : Path} {listed : List EmittedScreen}
    (h : ∀ screen ∈ listed, ∃ specifier target,
      Refers config screens (indexArtifact directory listed) (indexLine screen) specifier target) :
    Listed config screens (indexArtifact directory listed) := by
  refine ⟨generatedHeader :: listed.map indexLine, by rw [indexArtifact, generated_content],
    fun line hline => ?_⟩
  rcases List.mem_cons.1 hline with rfl | hline
  · exact .inl header_plain
  · obtain ⟨screen, hscreen, rfl⟩ := List.mem_map.1 hline
    exact .inr (h screen hscreen)

theorem types_listed (h : artifact ∈ typeArtifacts config.output screens) :
    Listed config screens artifact := by
  rw [typeArtifacts] at h
  split at h
  next => cases h
  next =>
    rw [List.mem_append, List.mem_singleton] at h
    rcases h with h | rfl
    · obtain ⟨screen, hscreen, rfl⟩ := List.mem_map.1 h
      rw [Listed, typeArtifact, generated_content, ← typeArtifact]
      refine ⟨_, rfl, fun line hline => ?_⟩
      simp only [List.mem_cons, List.not_mem_nil, or_false] at hline
      rcases hline with rfl | rfl
      · exact .inl header_plain
      · exact .inr ⟨_, _, .type_screen hscreen⟩
    · exact index_listed fun screen hscreen => ⟨_, _, .type_index hscreen⟩

theorem group_listed : Listed config screens (groupIndex config.output screens) := by
  rw [Listed, groupIndex, generated_content, ← groupIndex]
  refine ⟨_, rfl, fun line hline => ?_⟩
  simp only [List.mem_append, List.mem_cons, List.not_mem_nil, or_false] at hline
  rcases hline with (rfl | rfl) | hline
  · exact .inl header_plain
  · exact .inr ⟨_, _, .group_screens⟩
  · split at hline
    next => cases hline
    next htyped =>
      rw [List.mem_singleton.1 hline]
      exact .inr ⟨_, _, .group_types (by simpa using htyped)⟩

/-- No line of the barrel and the grouped modules has a specifier that is not
listed. -/
theorem refers_all
    (h : artifact ∈ barrel config.output screens :: groupedArtifacts config.output screens) :
    Listed config screens artifact := by
  rcases List.mem_cons.1 h with rfl | h
  · exact barrel_listed
  · simp only [groupedArtifacts, List.mem_append, List.mem_map, List.mem_singleton] at h
    rcases h with ((⟨screen, hscreen, rfl⟩ | rfl) | h) | rfl
    · exact namespace_listed hscreen
    · exact index_listed fun screen hscreen => ⟨_, _, .namespace_index hscreen⟩
    · exact types_listed h
    · exact group_listed

/-- The screens of a run are placed, if their names can be stems of file names. -/
theorem emitted_placed (g : Run.Generator) {screen : Run.PreparedUnit}
    (h : Stem screen.unit.kebab) : (g.emitted screen).Placed g.config.output := ⟨rfl, h⟩

/-- The hook module of a run's screen is the artifact that the run writes. -/
theorem hookArtifact_emitted (g : Run.Generator) (screen : Run.PreparedUnit) :
    hookArtifact g.config (g.emitted screen) screen.interfaces = g.screenArtifact screen := rfl

/-! ### Where they lead -/

/-- A module below a directory that stays inside lies in that directory. -/
theorem directory_child {dir : Path} {stem more : String} (hdir : Level dir) (hstem : Stem stem)
    (hmore : '/' ∉ more.toList) :
    (dir.child (stem ++ more)).directory.names = dir.names := by
  have hname := hstem.append hmore
  have hnames := (names_directory (hdir.join hname.level).relative).1
  rw [← child, hname.names_child, List.dropLast_concat] at hnames
  exact hnames

/-- A specifier of one name, read from an index module, leads below its directory. -/
theorem index_leads {dir : Path} {name : String} (hdir : Level dir) (hname : Stem name) :
    ((dir.child "index.ts").directory.join ⟨"./" ++ name⟩).collapsed =
      (dir.child name).collapsed := by
  have hrelative : isAbsolute ⟨"./" ++ name⟩ = false := by
    rw [isAbsolute_append (by decide)]
    decide
  have hone : names ⟨"./" ++ name⟩ = [name] := by
    have hdot : (⟨"./" ++ name⟩ : Path) = ⟨"." ++ "/" ++ name⟩ := rfl
    have hnone : names ⟨"."⟩ = [] := by decide
    rw [hdot, names_slash, hnone, names_of_plain hname.no_slash hname.not_idle]
    rfl
  have hsplit : "index.ts" = "index" ++ ".ts" := by decide
  have hindex : (dir.child "index.ts").directory.names = dir.names := by
    rw [hsplit]
    exact directory_child hdir ⟨by decide, by decide, by decide⟩ (by decide)
  rw [collapsed_join_congr (q := dir) hindex hrelative, collapsed, names_join dir hrelative, hone,
    ← hname.names_child, collapsed]

/-- A module of the hooks directory, as seen from a hook module. -/
theorem hooksModule_leads (hlayout : config.output.Inside) {kebab module : String}
    (hkebab : Stem kebab) (hmodule : isAbsolute ⟨module⟩ = false) :
    ((config.output.screenModule kebab).directory.join
        ⟨config.settings.hooksModule module⟩).collapsed =
      (config.output.hooksDir.child module).collapsed := by
  have hspecifier : config.settings.hooksModule module =
      relative config.output.screensDir config.output.hooksDir ++ "/" ++ module := by
    rw [Settings.hooksModule, Config.settings, Layout.hooksSpecifier,
      trimEndOf_slash (relative_ends hlayout.screens hlayout.hooks).2.2]
  have hplain : '/' ∉ ("." ++ config.output.moduleExtension).toList := by
    simpa using hlayout.extension_slash
  have hdirectory : (config.output.screenModule kebab).directory.names =
      config.output.screensDir.names := by
    rw [Layout.screenModule, String.append_assoc]
    exact directory_child hlayout.screens hkebab hplain
  rw [hspecifier, collapsed_join_congr hdirectory (relative_slash_relative hlayout.screens
    hlayout.hooks module), collapsed_join_relative_slash hlayout.screens hlayout.hooks hmodule,
    child]

theorem Layout.Inside.namespaceDir {layout : Layout} (h : layout.Inside) :
    Level layout.namespaceDir := by
  rw [Layout.namespaceDir, child]
  exact h.exports.join (by decide)

theorem Layout.Inside.typeDir {layout : Layout} (h : layout.Inside) : Level layout.typeDir := by
  rw [Layout.typeDir, child]
  exact h.exports.join (by decide)

/-- A module below a directory that stays inside does so too. -/
theorem level_child {dir : Path} {stem more : String} (hdir : Level dir) (hstem : Stem stem)
    (hmore : '/' ∉ more.toList) : Level (dir.child (stem ++ more)) :=
  hdir.join (hstem.append hmore).level

/-- Read from the directory of its artifact, a specifier leads to what it stands
for. -/
theorem Refers.leads (hlayout : config.output.Inside)
    (hscreens : ∀ screen ∈ screens, screen.Placed config.output)
    (h : Refers config screens artifact line specifier target) :
    (artifact.path.directory.join ⟨specifier⟩).collapsed = target.collapsed := by
  -- the module of a screen is reached alike from all levels
  have hscreen : ∀ {source : Path} {screen : EmittedScreen}, Level source → screen ∈ screens →
      (source.directory.join ⟨moduleSpecifier source screen.module⟩).collapsed =
        (config.output.screensDir.child screen.unit.kebab).collapsed := by
    intro source screen hsource hscreen
    obtain ⟨hmodule, hstem⟩ := hscreens screen hscreen
    rw [hmodule]
    exact collapsed_join_moduleSpecifier hsource hlayout.screens hstem hlayout.extension_slash
      hlayout.extension_dot
  have hhooks : ∀ {name : String}, Stem name →
      (config.output.barrel.directory.join
          ⟨moduleSpecifier config.output.barrel (config.output.hooksModule name)⟩).collapsed =
        (config.output.hooksDir.child name).collapsed := by
    intro name hname
    have hmodule : config.output.hooksModule name =
        config.output.hooksDir.child (name ++ "." ++ "ts") := by
      rw [String.append_assoc]
      rfl
    rw [hmodule]
    exact collapsed_join_moduleSpecifier hlayout.barrel hlayout.hooks hname (by decide) (by decide)
  have htyped : ∀ {screen : EmittedScreen}, screen ∈ typed screens → screen ∈ screens :=
    fun h => (List.mem_filter.1 h).1
  cases h with
  | barrel_screen hmem => exact hscreen hlayout.barrel hmem
  | barrel_common => exact hhooks ⟨by decide, by decide, by decide⟩
  | barrel_context => exact hhooks ⟨by decide, by decide, by decide⟩
  | namespace_screen hmem =>
    exact hscreen (level_child hlayout.namespaceDir (hscreens _ hmem).stem (by decide)) hmem
  | type_screen hmem =>
    exact hscreen (level_child hlayout.typeDir (hscreens _ (htyped hmem)).stem (by decide))
      (htyped hmem)
  | screen_context hmem interfaces =>
    obtain ⟨hmodule, hstem⟩ := hscreens _ hmem
    rw [hookArtifact, hmodule]
    exact hooksModule_leads hlayout hstem (by decide)
  | @screen_utility screen hmem interfaces method hook hhook hrelative hscoped habsolute =>
    obtain ⟨hmodule, hstem⟩ := hscreens _ hmem
    have hbare : config.settings.utilitySpecifier hook = config.settings.hooksModule hook.module := by
      rw [Settings.utilitySpecifier, hrelative, hscoped]
      rfl
    rw [hookArtifact, hmodule, hbare]
    exact hooksModule_leads hlayout hstem habsolute
  | namespace_index hmem => exact index_leads hlayout.namespaceDir (hscreens _ hmem).stem
  | type_index hmem => exact index_leads hlayout.typeDir (hscreens _ (htyped hmem)).stem
  | group_screens =>
    have hspecifier : "./screens" = "./" ++ "screens" := by decide
    rw [hspecifier, Layout.namespaceDir, groupIndex]
    exact index_leads hlayout.exports ⟨by decide, by decide, by decide⟩
  | group_types =>
    have hspecifier : "./types" = "./" ++ "types" := by decide
    rw [hspecifier, Layout.typeDir, groupIndex]
    exact index_leads hlayout.exports ⟨by decide, by decide, by decide⟩

/-- The relative specifiers of the generated modules stand in their artifacts, and
each leads from the directory of its artifact to the module that it stands for,
without the extension, or to the directory of an index module. -/
theorem refers_resolved (hlayout : config.output.Inside)
    (hscreens : ∀ screen ∈ screens, screen.Placed config.output)
    (h : Refers config screens artifact line specifier target) :
    HasLine artifact.content line ∧ Quotes line specifier ∧
      (artifact.path.directory.join ⟨specifier⟩).collapsed = target.collapsed :=
  ⟨h.line_mem.1, h.line_mem.2, h.leads hlayout hscreens⟩

/-- A layout whose directories lie in one another. -/
def nestedConfig : Config where
  output :=
    { screensDir := ⟨"./src//ui"⟩, hooksDir := ⟨"src"⟩, exportsDir := ⟨"src/ui/exports"⟩ }

/-- A screen of it that exports one hook. -/
def nestedScreen : EmittedScreen where
  unit := { name := "LoginId", kebab := "login-id", defaultExport := true }
  module := ⟨"./src//ui/login-id.tsx"⟩
  values := ["useLoginId"]
  types := []

/-- From the namespace module of the screen two climbs lead to its hook module. -/
theorem refers_resolved_nested : nestedConfig.output.Inside ∧
    (∀ screen ∈ [nestedScreen], screen.Placed nestedConfig.output) ∧
    HasLine (namespaceArtifact nestedConfig.output nestedScreen).content
      (exportLine ["useLoginId"] (singleQuoted "../../login-id")) ∧
    ((namespaceArtifact nestedConfig.output nestedScreen).path.directory.join
      ⟨"../../login-id"⟩).collapsed = ["src", "ui", "login-id"] := by
  have hinside : nestedConfig.output.Inside :=
    ⟨by decide, by decide, by decide, by decide, by decide, by decide⟩
  have hplaced : ∀ screen ∈ [nestedScreen], screen.Placed nestedConfig.output := by
    intro screen hscreen
    rw [List.mem_singleton.1 hscreen]
    exact ⟨by decide, by decide, by decide, by decide⟩
  have hspecifier : moduleSpecifier (nestedConfig.output.namespaceModule nestedScreen.unit.kebab)
      nestedScreen.module = "../../login-id" := by decide
  have htarget : (nestedConfig.output.screensDir.child nestedScreen.unit.kebab).collapsed =
      ["src", "ui", "login-id"] := by decide
  obtain ⟨hline, -, hleads⟩ := refers_resolved hinside hplaced
    (.namespace_screen (List.mem_singleton_self nestedScreen) (by decide))
  rw [specifierLiteral, hspecifier] at hline
  rw [hspecifier, htarget] at hleads
  exact ⟨hinside, hplaced, hline, hleads⟩

end ScreenHooks.Output
