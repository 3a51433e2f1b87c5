/-
A hook module exports what the generator takes it to export.

The lines of a hook module are read back statement by statement, so the exports of
the text are known. The values among them are the primary hook, the accessors, the
wrappers and the utility hooks, in this order; the types and the star do not count.

* **`Module.Spelled.states`** — the statements of a module, line by line;
* **`Module.exports_statements`** — the exports of these statements;
* **`emitted_exports`** — the values of the module that is written for a screen, and
  the line of the barrel that they lead to;
* **`emitted_default`** — a published interface may be named `default`.
-/
import ScreenHooks.Proofs.Hook.Written
import ScreenHooks.Proofs.Output.References

namespace ScreenHooks.Hook

open Text Script Output

/-! ### Spelled modules -/

/-- Whether the names of a module are words, its types phrases, and its specifiers free
of what a literal escapes. -/
structure Module.Spelled (module : Module) : Prop where
  unit : isWord module.unit.name = true
  instanceType : isWord module.instanceType = true
  typeImports : ∀ name ∈ module.typeImports.toList, isWord name = true
  core : IsQuoted (singleQuoted module.coreSpecifier)
  context : IsQuoted (singleQuoted module.contextSpecifier)
  shared : ∀ hook ∈ module.sharedHooks, isWord hook = true
  accessors : ∀ accessor ∈ module.accessors, (isWord accessor.hook = true ∧ accessor.hook ≠ "enum") ∧
    isWord accessor.model = true ∧ ∀ type ∈ accessor.type, isWord type = true
  wrappers : ∀ wrapper ∈ module.wrappers, (isWord wrapper.name = true ∧ wrapper.name ≠ "enum") ∧
    isWord wrapper.method.name = true ∧
      ∀ parameter ∈ wrapper.method.parameters, isWord parameter.name = true ∧ IsPhrase parameter.type
  hooks : ∀ bound ∈ module.hooks, Identifier bound.hook.hook ∧
    (∀ factory ∈ bound.hook.factory, Identifier factory) ∧
      (∀ type ∈ bound.hook.types, isWord type = true) ∧
        isWord bound.method = true ∧ IsQuoted (singleQuoted bound.specifier)
  types : ∀ name ∈ module.typeExports, isWord name = true

/-- The exports of the lines of a utility hook. -/
def BoundHook.exports (bound : BoundHook) : List Export :=
  match bound.hook.factory with
  | some _ => [.declaration bound.hook.hook .variable]
  | none =>
    .reexport bound.hook.hook bound.hook.hook (unquote (singleQuoted bound.specifier)) false ::
      bound.hook.types.map fun type =>
        .reexport type type (unquote (singleQuoted bound.specifier)) true

/-- The re-exports of published types. -/
def Module.typeEntries (module : Module) : List Export :=
  if module.typeExports.isEmpty then []
  else
    module.typeExports.map (fun name =>
      .reexport name name (unquote (singleQuoted module.coreSpecifier)) true) ++
      [.star (unquote (singleQuoted module.coreSpecifier))]

/-- The functions that a module declares and exports. -/
def Module.functions (module : Module) : List String :=
  module.unit.primaryHook ::
    (module.sharedHooks ++ module.accessors.map (·.hook) ++ module.wrappers.map (·.name))

/-- The exports of a module. -/
def Module.exports (module : Module) : List Export :=
  module.functions.map (.declaration · .variable) ++ module.hooks.flatMap BoundHook.exports ++
    module.typeEntries

/-- The names that the import of a factory imports: the factory, and the types of its
hook. -/
def BoundHook.imported (bound : BoundHook) : List Specifier :=
  (bound.hook.factory.map Specifier.plain).toList ++ bound.hook.types.map Specifier.type

/-- The import of a factory. -/
def BoundHook.importStatement (bound : BoundHook) : Statement :=
  .imports bound.imported (unquote (singleQuoted bound.specifier))

/-- The hooks whose factories are imported, one for each line of an import. -/
def Module.factoryHooks (module : Module) : List BoundHook :=
  (Names.ofList (module.hooks.filterMap (·.factoryImport?))).toList.filterMap fun line =>
    module.hooks.find? (·.factoryImport? = some line)

/-- The imports of a module. -/
def Module.importStatements (module : Module) : List Statement :=
  let core := unquote (singleQuoted module.coreSpecifier)
  [.imports [.plain "useMemo"] "react",
   .imports [⟨if module.unit.defaultExport then "default" else module.unit.name,
     module.unit.name, false⟩] core] ++
  (if module.typeImports.isEmpty then []
    else [.imports (module.typeImports.toList.map Specifier.plain) core]) ++
  [.imports [.plain contextHooksFactory] (unquote (singleQuoted module.contextSpecifier))] ++
  module.factoryHooks.map BoundHook.importStatement

/-- The re-exports of published types, and of all types. -/
def Module.typeStatements (module : Module) : List Statement :=
  let core := unquote (singleQuoted module.coreSpecifier)
  if module.typeExports.isEmpty then []
  else [.exportList (module.typeExports.map Specifier.plain) (some core) true, .exportTypeStar core]

/-- The statements of a module. -/
def Module.statements (module : Module) : List Statement :=
  module.importStatements ++
    [.declaration (.bindings ["instance"]), .declaration (.bindings ["getInstance"])] ++
    [.exported (.bindings [module.unit.primaryHook])] ++
    (if module.sharedHooks.isEmpty then [] else [.exported (.bindings module.sharedHooks)]) ++
    module.accessors.map (fun accessor => .exported (.bindings [accessor.hook])) ++
    module.wrappers.map (fun wrapper => .exported (.bindings [wrapper.name])) ++
    module.hooks.flatMap BoundHook.statements ++ module.typeStatements

theorem states_flatMap {α : Type} {xs : List α} {lines : α → List String}
    {statements : α → List Statement} (h : ∀ x ∈ xs, States (lines x) (statements x)) :
    States (xs.flatMap lines) (xs.flatMap statements) := by
  induction xs with
  | nil => exact .nil
  | cons x more ih =>
    exact (h x List.mem_cons_self).append (ih fun y hy => h y (List.mem_cons_of_mem _ hy))

theorem states_map {α : Type} {xs : List α} {line : α → String} {statement : α → Statement}
    (h : ∀ x ∈ xs, States [line x] [statement x]) : States (xs.map line) (xs.map statement) := by
  rw [← List.flatMap_singleton' (xs.map line), ← List.flatMap_singleton' (xs.map statement),
    List.flatMap_map, List.flatMap_map]
  exact states_flatMap h

theorem states_filterMap {lines : List String} {statement? : String → Option Statement}
    (h : ∀ line ∈ lines, ∃ s, statement? line = some s ∧ States [line] [s]) :
    States lines (lines.filterMap statement?) := by
  induction lines with
  | nil => exact .nil
  | cons line more ih =>
    obtain ⟨s, hs, hline⟩ := h line List.mem_cons_self
    rw [List.filterMap_cons_some hs]
    exact hline.append (ih fun l hl => h l (List.mem_cons_of_mem _ hl))

/-- A section with a title states what its lines state. -/
theorem states_titled {title : String} {lines : List String} {ss : List Statement}
    (htitle : ∀ c ∈ title.toList, Token.isLineEnd c = false) (h : States lines ss) :
    States (titled title lines) ss := by
  cases lines with
  | nil => exact h
  | cons line more =>
    have htext : ∀ c ∈ (" " ++ title).toList, Token.isLineEnd c = false := by
      rw [String.toList_append, List.forall_mem_append]
      exact ⟨not_lineEnd (by decide), htitle⟩
    have hcomment : "//" ++ (" " ++ title) = "// " ++ title := by
      rw [← String.append_assoc]
      rfl
    exact .blank (hcomment ▸ States.comment (" " ++ title) htext h)

/-! ### Exports -/

theorem BoundHook.exports_statements (bound : BoundHook) :
    bound.statements.flatMap Statement.exports = bound.exports := by
  unfold BoundHook.statements BoundHook.exports
  cases bound.hook.factory with
  | some factory => rfl
  | none => cases bound.hook.types <;> simp [Statement.exports]

theorem Module.exports_importStatements (module : Module) :
    module.importStatements.flatMap Statement.exports = [] := by
  unfold Module.importStatements
  have hfactories : (module.factoryHooks.map BoundHook.importStatement).flatMap Statement.exports =
      [] := by
    simp [BoundHook.importStatement, Statement.exports]
  rw [List.flatMap_append, hfactories]
  split <;> simp [Statement.exports]

theorem Module.exports_typeStatements (module : Module) :
    module.typeStatements.flatMap Statement.exports = module.typeEntries := by
  unfold Module.typeStatements Module.typeEntries
  split
  · rfl
  · simp [Statement.exports]

/-- Exported variables, one for each statement. -/
theorem exports_exported {α : Type} (xs : List α) (name : α → String) :
    (xs.map fun x => Statement.exported (.bindings [name x])).flatMap Statement.exports =
      (xs.map name).map (.declaration · .variable) := by
  rw [List.flatMap_map, List.map_map, List.map_eq_flatMap]
  rfl

/-- The statements of a module export what the module is for. -/
theorem Module.exports_statements (module : Module) :
    module.statements.flatMap Statement.exports = module.exports := by
  have hshared : (if module.sharedHooks.isEmpty then []
      else [Statement.exported (.bindings module.sharedHooks)]).flatMap Statement.exports =
        module.sharedHooks.map (.declaration · .variable) := by
    cases module.sharedHooks <;> simp [Statement.exports, Declaration.names, Declaration.kind]
  have hhooks : (module.hooks.flatMap BoundHook.statements).flatMap Statement.exports =
      module.hooks.flatMap BoundHook.exports := by
    rw [List.flatMap_assoc]
    exact List.flatMap_congr fun bound _ => bound.exports_statements
  simp only [Module.statements, List.flatMap_append, module.exports_importStatements, hshared,
    exports_exported, hhooks, module.exports_typeStatements]
  simp [Module.exports, Module.functions, Statement.exports, Declaration.names, Declaration.kind]

/-! ### Reading -/

namespace Module.Spelled

variable {module : Module}

theorem states_header (h : module.Spelled) {lines : List String} {ss : List Statement}
    (hlines : States lines ss) :
    States (generatedHeader :: ("// Hooks for the " ++ module.unit.name ++ " screen") :: lines)
      ss := by
  have hheader : "//" ++ " AUTO-GENERATED FILE - DO NOT EDIT" = generatedHeader := by decide
  have htitle : "//" ++ " Hooks for the " = "// Hooks for the " := by decide
  have hcomment := states_comment " Hooks for the " " screen" h.unit (not_lineEnd (by decide))
    (not_lineEnd (by decide)) hlines
  rw [htitle] at hcomment
  exact hheader ▸ .comment _ (not_lineEnd (by decide)) hcomment

/-- An import of one name. -/
theorem states_importName {name literal : String} (h : isWord name = true)
    (hquoted : IsQuoted literal) :
    States [importLine [name] literal] [.imports [.plain name] (unquote literal)] :=
  @states_import literal [.plain name] (by simp) (by simpa using ⟨h, rfl⟩) hquoted

theorem states_unitImport (h : module.Spelled) :
    States
      [if module.unit.defaultExport then
         "import " ++ module.unit.name ++ " from " ++ singleQuoted module.coreSpecifier ++ ";"
       else importLine [module.unit.name] (singleQuoted module.coreSpecifier)]
      [.imports [⟨if module.unit.defaultExport then "default" else module.unit.name,
        module.unit.name, false⟩] (unquote (singleQuoted module.coreSpecifier))] := by
  split
  · exact states_importDefault h.unit h.core
  · exact states_importName h.unit h.core

/-- The import of a factory with its types. -/
theorem states_factoryImport (h : module.Spelled) {bound : BoundHook} (hb : bound ∈ module.hooks)
    {line : String} (hline : line ∈ bound.factoryImport?) :
    States [line] [bound.importStatement] := by
  obtain ⟨-, hfactory, htypes, -, hquoted⟩ := h.hooks bound hb
  obtain ⟨factory, hf, rfl⟩ := Option.map_eq_some_iff.1 hline
  have himported : bound.imported = .plain factory :: bound.hook.types.map Specifier.type := by
    simp [BoundHook.imported, hf]
  have htexts : factory :: bound.hook.types.map ("type " ++ ·) =
      bound.imported.map Specifier.text := by
    simp [himported, Specifier.text]
  have hkept : ∀ s ∈ bound.imported, s.Kept := by
    rw [himported, List.forall_mem_cons, List.forall_mem_map]
    exact ⟨⟨(hfactory factory hf).word, rfl⟩, fun type ht => ⟨htypes type ht, rfl⟩⟩
  rw [htexts]
  exact states_import (by simp [himported]) hkept hquoted

/-- The imports of factories, one for each line. -/
theorem states_factories (h : module.Spelled) :
    States (Names.ofList (module.hooks.filterMap (·.factoryImport?))).toList
      (module.factoryHooks.map BoundHook.importStatement) := by
  -- a line that several hooks give is read as the import of the first of them
  rw [Module.factoryHooks, List.map_filterMap]
  refine states_filterMap fun line hline => ?_
  obtain ⟨bound, hb, hfound⟩ := List.mem_filterMap.1 (Names.mem_ofList.1 hline)
  obtain ⟨first, hfirst⟩ : ∃ first, module.hooks.find? (·.factoryImport? = some line) = some first :=
    Option.isSome_iff_exists.1 (List.find?_isSome.2 ⟨bound, hb, by simpa using hfound⟩)
  have hline : first.factoryImport? = some line := by simpa using List.find?_some hfirst
  exact ⟨first.importStatement, by rw [hfirst]; rfl,
    h.states_factoryImport (List.mem_of_find?_eq_some hfirst) hline⟩

theorem states_imports (h : module.Spelled) :
    States module.importLines module.importStatements := by
  have hreact : IsQuoted "'react'" := ⟨"react".toList, by decide, by simp⟩
  have hmemo := states_importName (by decide : isWord "useMemo" = true) hreact
  have hfactory := states_importName (by decide : isWord contextHooksFactory = true) h.context
  have htypes : States (if module.typeImports.isEmpty then []
      else [importTypeLine module.typeImports.toList (singleQuoted module.coreSpecifier)])
      (if module.typeImports.isEmpty then []
      else [.imports (module.typeImports.toList.map Specifier.plain)
        (unquote (singleQuoted module.coreSpecifier))]) := by
    split
    · exact .nil
    next hne =>
      exact states_importTypes (by simpa [Names.isEmpty] using hne) h.typeImports h.core
  exact (((h.states_header (.blank (hmemo.append h.states_unitImport))).append htypes).append
    hfactory).append h.states_factories

theorem states_sharedLines (h : module.Spelled) : States module.sharedLines
    (if module.sharedHooks.isEmpty then [] else [.exported (.bindings module.sharedHooks)]) := by
  unfold Module.sharedLines
  cases hshared : module.sharedHooks with
  | nil => exact .nil
  | cons hook more =>
    have hwords := h.shared
    rw [hshared] at hwords
    exact states_titled (not_lineEnd (by decide))
      (states_destructured (by simp) hwords h.instanceType)

theorem states_accessorLines (h : module.Spelled) : States module.accessorLines
    (module.accessors.map fun accessor => .exported (.bindings [accessor.hook])) := by
  refine .blank (.comment " Screen-specific context hooks" (not_lineEnd (by decide)) (states_map ?_))
  intro accessor ha
  obtain ⟨⟨hhook, hne⟩, hmodel, htype⟩ := h.accessors accessor ha
  exact states_accessor hhook hne hmodel htype

theorem states_wrappers (h : module.Spelled) :
    States (titled "Methods" (module.wrappers.map Wrapper.line))
      (module.wrappers.map fun wrapper => .exported (.bindings [wrapper.name])) := by
  refine states_titled (not_lineEnd (by decide)) (states_map fun wrapper hw => ?_)
  obtain ⟨⟨hname, hne⟩, hmethod, hparameters⟩ := h.wrappers wrapper hw
  exact states_wrapper hname hne hmethod hparameters

theorem states_hooks (h : module.Spelled) :
    States (titled "Utility hooks" (module.hooks.flatMap BoundHook.lines))
      (module.hooks.flatMap BoundHook.statements) := by
  refine states_titled (not_lineEnd (by decide)) (states_flatMap fun bound hb => ?_)
  obtain ⟨hhook, hfactory, htypes, hmethod, hquoted⟩ := h.hooks bound hb
  exact states_hook hhook hfactory htypes hmethod hquoted

theorem states_types (h : module.Spelled) : States module.typeLines module.typeStatements := by
  unfold Module.typeLines Module.typeStatements
  split
  · exact .nil
  next hne =>
    have htypes : module.typeExports ≠ [] := by simpa using hne
    exact states_titled (not_lineEnd (by decide))
      ((states_typeList htypes h.types h.core).append (states_typeStar h.core))

/-- The lines of a module state what the module is for. -/
theorem states (h : module.Spelled) : States module.lines module.statements :=
  ((((((h.states_imports.append (states_instance h.unit h.instanceType)).append
    (states_primary h.unit h.instanceType)).append h.states_sharedLines).append
      h.states_accessorLines).append h.states_wrappers).append h.states_hooks).append
        h.states_types

theorem text_head (module : Module) : ∀ c ∈ module.text.toList.head?, c ≠ '#' := by
  obtain ⟨more, hmore⟩ : ∃ more, module.lines = generatedHeader :: more := ⟨_, rfl⟩
  have hhead : (ended (generatedHeader :: more)).head? = some '/' := rfl
  rw [Module.text, endLines_toList, hmore, hhead]
  rintro c hc
  obtain rfl := Option.some.inj hc
  decide

/-- The exports of the module's text. -/
theorem read_exports (h : module.Spelled) (dialect : Dialect) :
    (Script.Module.read dialect module.text).exports = module.exports := by
  rw [← module.exports_statements]
  exact h.states.read_exports dialect (endLines_toList _) (text_head module)

end Module.Spelled

/-- The name of an exported value, default exports left out. -/
def valueName? (e : Export) : Option String :=
  if e.isTypeOnly || e.isDefault then none else e.name?

/-! ### The module of a screen -/

/-- Whether a specifier needs no escapes in a literal. -/
def IsPlainSpecifier (s : String) : Prop := ∀ c ∈ s.toList, c ≠ '\'' ∧ c ≠ '\\' ∧ c ≠ '\n'

instance (s : String) : Decidable (IsPlainSpecifier s) :=
  decidable_of_iff (s.toList.all fun c => c ≠ '\'' ∧ c ≠ '\\' ∧ c ≠ '\n')
    (by simp only [IsPlainSpecifier, List.all_eq_true, decide_eq_true_eq])

/-- Whether the names that a module is written with are identifiers, the types of its
parameters built from names, and its specifiers plain. -/
structure Writable (settings : Settings) (unit : Screen.Unit) (interfaces : Screen.Interfaces) :
    Prop where
  screen : Identifier unit.name
  models : ∀ model ∈ settings.contextModels, Identifier model
  methods : ∀ method ∈ interfaces.methods, Identifier (settings.naming.escape method.name)
  parameters : ∀ method ∈ interfaces.methods, ∀ parameter ∈ method.parameters,
    Identifier parameter.name ∧ IsTypeText .one parameter.type
  hooks : ∀ hook ∈ settings.utilityHooks, Identifier hook.hook ∧
    (∀ factory ∈ hook.factory, Identifier factory) ∧ ∀ type ∈ hook.types, Identifier type
  core : IsPlainSpecifier (settings.coreSubpath unit)
  context : IsPlainSpecifier (settings.hooksModule contextHooksModule)
  utilities : ∀ hook ∈ settings.utilityHooks, IsPlainSpecifier (settings.utilitySpecifier hook)

/-- The values that the module of a screen is for: the primary hook, the accessors of the
shared models and of the screen's own, the wrappers, and the utility hooks. -/
def valueNames (settings : Settings) (unit : Screen.Unit) (interfaces : Screen.Interfaces) :
    List String :=
  unit.primaryHook ::
    (settings.sharedModels.map accessorName ++
      (Settings.screenModels.filter settings.contextModels.contains).map accessorName ++
      (wrapped settings interfaces).map (fun method => settings.naming.escape method.name) ++
      (hooked settings interfaces).map (·.2.hook))

section Emitted

variable {settings : Settings} {unit : Screen.Unit} {interfaces : Screen.Interfaces}

theorem mem_hooked {method : Script.Method} {hook : UtilityHook}
    (h : (method, hook) ∈ hooked settings interfaces) :
    method ∈ interfaces.methods ∧ hook ∈ settings.utilityHooks := by
  obtain ⟨m, hm, hbinding⟩ := List.mem_filterMap.1 h
  split at hbinding
  next hook' hbind =>
    obtain ⟨rfl, rfl⟩ := Prod.mk.inj (Option.some.inj hbinding)
    exact ⟨hm, List.mem_of_find?_eq_some ((bind_eq_hook_iff _ _ _ _).1 hbind)⟩
  next => cases hbinding

theorem mem_accessor? {model : String} {type : Option String} {accessor : Accessor}
    (h : accessor ∈ accessor? settings model type) :
    accessor = ⟨accessorName model, model, type⟩ := by
  unfold accessor? at h
  split at h
  · exact (Option.some.inj h).symm
  · cases h

/-- A name that starts like a hook is no keyword of a declaration. -/
theorem hook_ne (s : String) : "use" ++ s ≠ "enum" ∧ "use" ++ s ≠ "default" := by
  constructor <;>
  · intro h
    have hchars := congrArg String.toList h
    simp at hchars

theorem Writable.isWord_neededTypes (h : Writable settings unit interfaces) {name : String}
    (hname : name ∈ neededTypes settings unit interfaces) : isWord name = true := by
  simp only [neededTypes, List.mem_append, Option.mem_toList, List.mem_flatMap] at hname
  rcases hname with ((hmembers | hscreen) | htransaction) | ⟨method, -, hmention⟩
  · split at hmembers
    · rw [List.mem_singleton.1 hmembers]
      exact isWord_membersInterface h.screen.word
    · cases hmembers
  · exact isWord_specialized h.screen.word (by decide) hscreen
  · exact isWord_specialized h.screen.word (by decide) htransaction
  · obtain ⟨parameter, -, hmention⟩ := hmention
    exact isWord_mentions hmention

theorem Writable.spelled (h : Writable settings unit interfaces)
    (hpublished : ∀ name ∈ interfaces.published.toList, isWord name = true) :
    (Module.of settings unit interfaces).Spelled where
  unit := h.screen.word
  instanceType := by
    simp only [Module.of]
    split
    · exact isWord_membersInterface h.screen.word
    · exact h.screen.word
  typeImports name hname := by
    have hneeded := Names.mem_ofList.1 (Names.mem_def.2 (List.mem_of_mem_filter hname))
    exact h.isWord_neededTypes hneeded
  core := isQuoted_singleQuoted h.core
  context := isQuoted_singleQuoted h.context
  shared := List.forall_mem_map.2 fun model hmodel =>
    isWord_accessorName (h.models model (List.mem_of_mem_filter hmodel)).word
  accessors accessor ha := by
    have hscreen : isWord "Screen" = true ∧ isWord "screen" = true := by decide
    have htransaction : isWord "Transaction" = true ∧ isWord "transaction" = true := by decide
    rcases List.mem_append.1 ha with ha | ha
    · obtain rfl := mem_accessor? (Option.mem_toList.1 ha)
      exact ⟨⟨isWord_accessorName hscreen.2, (hook_ne _).1⟩, hscreen.2,
        fun type => isWord_specialized h.screen.word hscreen.1⟩
    · obtain rfl := mem_accessor? (Option.mem_toList.1 ha)
      exact ⟨⟨isWord_accessorName htransaction.2, (hook_ne _).1⟩, htransaction.2,
        fun type => isWord_specialized h.screen.word htransaction.1⟩
  wrappers := by
    refine List.forall_mem_map.2 fun method hm => ?_
    have hmethod := h.methods method (List.mem_of_mem_filter hm)
    refine ⟨⟨hmethod.word, hmethod.ne (by decide)⟩, isWord_of_escape hmethod, fun p hp => ?_⟩
    obtain ⟨hname, htype⟩ := h.parameters method (List.mem_of_mem_filter hm) p hp
    exact ⟨hname.word, htype.phrase⟩
  hooks := by
    refine List.forall_mem_map.2 fun pair hpair => ?_
    obtain ⟨hmethod, hhook⟩ := @mem_hooked _ _ pair.1 pair.2 hpair
    obtain ⟨hname, hfactory, htypes⟩ := h.hooks pair.2 hhook
    exact ⟨hname, hfactory, fun type ht => (htypes type ht).word,
      isWord_of_escape (h.methods pair.1 hmethod), isQuoted_singleQuoted (h.utilities pair.2 hhook)⟩
  types := hpublished

/-- The values among the exports of a module. -/
theorem Module.exports_values (module : Module) :
    module.exports.filterMap valueName? = module.functions ++ module.hookNames := by
  have hfunctions : ∀ names : List String,
      (names.map (Export.declaration · .variable)).filterMap valueName? = names := by
    intro names
    rw [List.filterMap_map]
    exact List.filterMap_some
  -- the types that a hook is exported with are no values
  have hhooks : ∀ hooks : List BoundHook,
      (hooks.flatMap BoundHook.exports).filterMap valueName? = hooks.map (·.hook.hook) := by
    intro hooks
    induction hooks with
    | nil => rfl
    | cons bound more ih =>
      rw [List.flatMap_cons, List.filterMap_append, ih, BoundHook.exports]
      split
      next => rfl
      next => simp [valueName?, Export.isTypeOnly, Export.isDefault, Export.name?]
  have htypes : module.typeEntries.filterMap valueName? = [] := by
    unfold Module.typeEntries
    split
    · rfl
    · simp [valueName?, Export.isTypeOnly, Export.isDefault, Export.name?]
  rw [Module.exports, List.filterMap_append, List.filterMap_append, hfunctions, hhooks, htypes,
    List.append_nil, Module.hookNames]

/-- The accessors of the screen's own models are those that are configured. -/
theorem accessors_of (settings : Settings) (unit : Screen.Unit) (interfaces : Screen.Interfaces) :
    (Module.of settings unit interfaces).accessors.map (·.hook) =
      (Settings.screenModels.filter settings.contextModels.contains).map accessorName := by
  have haccessor : ∀ (model : String) (type : Option String),
      ((accessor? settings model type).toList).map (·.hook) =
        ([model].filter settings.contextModels.contains).map accessorName := by
    intro model type
    simp only [accessor?, List.filter_cons, List.filter_nil]
    split <;> rfl
  have hmodels : Settings.screenModels = ["screen"] ++ ["transaction"] := rfl
  simp only [Module.of, List.map_append, haccessor, hmodels, List.filter_append]

theorem of_values (settings : Settings) (unit : Screen.Unit) (interfaces : Screen.Interfaces) :
    (Module.of settings unit interfaces).functions ++
      (Module.of settings unit interfaces).hookNames = valueNames settings unit interfaces := by
  rw [Module.functions, accessors_of]
  simp [Module.of, Module.hookNames, valueNames]
  rfl

/-- No export of a module is named `default` if no published interface is. -/
theorem Writable.no_default (h : Writable settings unit interfaces)
    (hpublished : ∀ name ∈ interfaces.published.toList, name ≠ "default") :
    ∀ e ∈ (Module.of settings unit interfaces).exports, e.name? ≠ some "default" := by
  have hvalues : ∀ name ∈ valueNames settings unit interfaces, name ≠ "default" := by
    simp only [valueNames, List.forall_mem_cons, List.forall_mem_append, List.forall_mem_map]
    refine ⟨(hook_ne _).2, ⟨⟨fun model _ => (hook_ne _).2, fun model _ => (hook_ne _).2⟩,
      fun method hm => (h.methods method (List.mem_of_mem_filter hm)).ne (by decide)⟩,
      fun pair hpair => ?_⟩
    exact (h.hooks pair.2 (@mem_hooked _ _ pair.1 pair.2 hpair).2).1.ne (by decide)
  -- functions, hooks with the types beside them, types
  rw [← of_values, List.forall_mem_append] at hvalues
  intro e he
  rcases List.mem_append.1 he with he | he
  · rcases List.mem_append.1 he with he | he
    · obtain ⟨name, hname, rfl⟩ := List.mem_map.1 he
      exact fun hdefault => hvalues.1 name hname (Option.some.inj hdefault)
    · obtain ⟨bound, hb, he⟩ := List.mem_flatMap.1 he
      obtain ⟨pair, hpair, rfl⟩ := List.mem_map.1 hb
      obtain ⟨hhook, -, htypes⟩ := h.hooks pair.2 (@mem_hooked _ _ pair.1 pair.2 hpair).2
      have hname : pair.2.hook ≠ "default" := hhook.ne (by decide)
      unfold BoundHook.exports at he
      split at he
      · rw [List.mem_singleton.1 he]
        exact fun hdefault => hname (Option.some.inj hdefault)
      · rcases List.mem_cons.1 he with rfl | he
        · exact fun hdefault => hname (Option.some.inj hdefault)
        · obtain ⟨type, ht, rfl⟩ := List.mem_map.1 he
          exact fun hdefault => (htypes type ht).ne (by decide) (Option.some.inj hdefault)
  · unfold Module.typeEntries at he
    split at he
    · cases he
    · rcases List.mem_append.1 he with he | he
      · obtain ⟨name, hname, rfl⟩ := List.mem_map.1 he
        exact fun hdefault => hpublished name hname (Option.some.inj hdefault)
      · rw [List.mem_singleton.1 he]
        nofun

/-- The text that is written for a screen is read back with the values that it is for,
and without a default export. So the barrel re-exports the screen's primary hook. -/
theorem emitted_exports (h : Writable settings unit interfaces)
    (hpublished : ∀ name ∈ interfaces.published, Identifier name) (dialect : Dialect) :
    let read := Script.Module.read dialect (Module.of settings unit interfaces).text
    read.valueExports = Names.ofList (valueNames settings unit interfaces) ∧
      read.hasDefaultExport = false ∧
      ∀ (layout : Layout) (path : Path) (types : List String) (before after : List EmittedScreen),
        HasLine
          (barrel layout
            (before ++ ⟨unit, path, read.valueExports.toList, types⟩ :: after)).content
          (exportLine [unit.primaryHook] (specifierLiteral layout.barrel path)) := by
  have hspelled := h.spelled fun name hname => (hpublished name hname).word
  have hread := hspelled.read_exports dialect
  intro read
  have hvalues : read.valueExports = Names.ofList (valueNames settings unit interfaces) := by
    rw [← of_values, ← Module.exports_values, ← hread]
    rfl
  refine ⟨hvalues, ?_, fun layout path types before after => ?_⟩
  · have hdefault := h.no_default fun name hname => (hpublished name hname).ne (by decide)
    rw [← hread] at hdefault
    simpa [Script.Module.hasDefaultExport] using hdefault
  -- the primary hook is the first of the values
  · have hexported : unit.primaryHook ∈ read.valueExports.toList := by
      rw [hvalues]
      exact Names.mem_ofList.2 List.mem_cons_self
    refine hasLine_endLines (List.mem_cons_of_mem _ (List.mem_append_left _ ?_))
    refine List.mem_filterMap.2 ⟨⟨unit, path, read.valueExports.toList, types⟩, by simp, ?_⟩
    rw [barrelLine?, if_pos (List.contains_iff_mem.2 hexported)]

end Emitted

/-! ### A screen -/

/-- A screen that is imported by name. -/
def loginUnit : Screen.Unit := ⟨"Login", "login", false⟩

/-- Methods with an argument, with a reserved word for a name, and with a utility hook. -/
def loginInterfaces (published : List String) : Screen.Interfaces where
  methods :=
    [⟨"login", [⟨"options", "LoginOptions | Hint<string, User>[]", true⟩]⟩, ⟨"delete", []⟩,
     ⟨"resendManager", []⟩]
  published := Names.ofList published
  membersFound := true

theorem isTypeText_login : IsTypeText .one "LoginOptions | Hint<string, User>[]" := by
  have hword : ∀ name ∈ ["LoginOptions", "Hint", "string", "User"], isWord name = true := by decide
  simp only [List.forall_mem_cons, List.not_mem_nil, false_imp_iff, implies_true, and_true] at hword
  obtain ⟨hoptions, hhint, hstring, huser⟩ := hword
  have harguments := IsTypeText.more (.name hstring) (.single (.name huser)) isGap_empty isGap_blank
  have hgeneric := IsTypeText.generic hhint (by decide) harguments isGap_empty isGap_empty isGap_empty
  exact .union (.name hoptions) (.array hgeneric isGap_empty isGap_empty) isGap_blank isGap_blank

theorem writable_login (published : List String) :
    Writable {} loginUnit (loginInterfaces published) where
  screen := by decide
  models := by decide
  methods := by simp only [loginInterfaces]; decide
  parameters := by
    have hname : Identifier "options" := by decide
    simpa [loginInterfaces] using ⟨hname, isTypeText_login⟩
  hooks := by decide
  core := by decide
  context := by decide
  utilities := by decide

theorem emitted_exports_login :
    (∀ name ∈ (loginInterfaces ["LoginMembers"]).published, Identifier name) ∧
      Writable {} loginUnit (loginInterfaces ["LoginMembers"]) ∧
      (Script.Module.read .markup (Module.of {} loginUnit (loginInterfaces ["LoginMembers"])).text
        ).valueExports.toList =
        ["useLogin", "useUser", "useTenant", "useBranding", "useClient", "useOrganization",
         "usePrompt", "useUntrustedData", "useScreen", "useTransaction", "login", "deleteMethod",
         "useResend"] := by
  have hpublished : ∀ name ∈ (loginInterfaces ["LoginMembers"]).published, Identifier name := by
    intro name hname
    have hall : ∀ name ∈ ["LoginMembers"], Identifier name := by decide
    exact hall name (Names.mem_ofList.1 hname)
  have hwritable := writable_login ["LoginMembers"]
  refine ⟨hpublished, hwritable, ?_⟩
  rw [(emitted_exports hwritable hpublished .markup).1]
  decide

/-- A published interface may be named `default`, and then the module has a default
export. -/
theorem emitted_default :
    Writable {} loginUnit (loginInterfaces ["default"]) ∧
      (Script.Module.read .markup (Module.of {} loginUnit (loginInterfaces ["default"])).text
        ).hasDefaultExport = true := by
  have hwritable := writable_login ["default"]
  have hword : ∀ name ∈ (loginInterfaces ["default"]).published.toList, isWord name = true := by
    decide
  refine ⟨hwritable, ?_⟩
  rw [Script.Module.hasDefaultExport, (hwritable.spelled hword).read_exports]
  decide

end ScreenHooks.Hook
