/-
The names that a hook module binds at its top level.

A hook module takes its names from several sources: its imports, the instance, the
primary hook, the accessors, the methods and the utility hooks. Each source gives
distinct names, but nothing compares names of different sources. So a screen `User`
has the primary hook `useUser` besides the accessor of the model `user`.

* **`Module.Spelled.boundNames`** — what the text of a module binds;
* **`bound_once_iff`** — a module binds each name once exactly when no two of its
  sources share a name and no method is named like an escaped one;
* **`bound_twice_user`** — a screen whose module binds a name twice.
-/
import ScreenHooks.Proofs.Hook.Exports
import Mathlib.Data.List.Nodup

namespace ScreenHooks.Script

/-! ### Bound names -/

/-- The name under which a value of another module is passed on. -/
def Export.passed? : Export → Option String
  | .reexport _ exported _ false => some exported
  | .space exported _ => some exported
  | _ => none

@[simp] theorem newName_plain (names : List String) :
    (names.map Specifier.plain).map (·.newName) = names := by
  rw [List.map_map]
  exact List.map_id names

@[simp] theorem newName_type (names : List String) :
    (names.map Specifier.type).map (·.newName) = names := by
  rw [List.map_map]
  exact List.map_id names

namespace Statement

/-- The names that a statement binds: those that it imports and declares, and the values
that it passes on. -/
def bound (s : Statement) : List String :=
  s.importedNames.map (·.1) ++ s.locals.map (·.1) ++ s.exports.filterMap Export.passed?

@[simp] theorem bound_imports (specifiers : List Specifier) (source : String) :
    (imports specifiers source).bound = specifiers.map (·.newName) := by
  simp [bound, importedNames, locals, declared?, exports]

/-- The names of a declaration without their kind. -/
theorem names_locals (names : List String) (kind : DeclarationKind) :
    (names.map (·, kind)).map (·.1) = names := by
  rw [List.map_map]
  exact List.map_id names

@[simp] theorem bound_declaration (names : List String) :
    (declaration (.bindings names)).bound = names := by
  have hlocals : (declaration (.bindings names)).locals = names.map (·, .variable) := rfl
  rw [bound, hlocals, names_locals]
  simp [importedNames, exports]

@[simp] theorem bound_exported (names : List String) :
    (exported (.bindings names)).bound = names := by
  have hlocals : (exported (.bindings names)).locals = names.map (·, .variable) := rfl
  rw [bound, hlocals, names_locals]
  simp [importedNames, exports, Export.passed?]

/-- Values that are passed on are bound, types are not. -/
@[simp] theorem bound_exportList (names : List String) (source : String) (typeOnly : Bool) :
    (exportList (names.map Specifier.plain) (some source) typeOnly).bound =
      if typeOnly then [] else names := by
  have hentry : ∀ name, Export.passed? (.reexport name name source typeOnly) =
      if typeOnly then none else some name := by
    intro name
    cases typeOnly <;> rfl
  have hpassed : (exportList (names.map Specifier.plain) (some source) typeOnly).exports.filterMap
      Export.passed? = names.filterMap fun name => if typeOnly then none else some name := by
    simp only [exports, List.map_map, List.filterMap_map]
    refine List.filterMap_congr fun name _ => ?_
    simpa using hentry name
  rw [bound, hpassed]
  cases typeOnly <;> simp [importedNames, locals, declared?]

@[simp] theorem bound_exportTypeStar (source : String) : (exportTypeStar source).bound = [] := rfl

end Statement

/-- The names that the statements of a script bind, with repeats. -/
def boundNames (dialect : Dialect) (source : String) : List String :=
  (statements (Forest.ofTokens (scan dialect source.toList)).forest).flatMap Statement.bound

end ScreenHooks.Script

namespace ScreenHooks.Hook

open Text Script

/-! ### The names of a module -/

namespace Module

/-- The names of the factories that are imported, and of their types. -/
def factoryNames (module : Module) : List String :=
  module.factoryHooks.flatMap fun bound => bound.hook.factory.toList ++ bound.hook.types

/-- The accessors of the shared models and of the screen's own. -/
def accessorNames (module : Module) : List String :=
  module.sharedHooks ++ module.accessors.map (·.hook)

/-- The names that a module binds, source by source. -/
def sources (module : Module) : List (List String) :=
  [["useMemo"], module.unit.name :: module.typeImports.toList, [contextHooksFactory],
   module.factoryNames, ["instance", "getInstance"], [module.unit.primaryHook],
   module.accessorNames, module.wrappers.map (·.name), module.hookNames]

/-- The names that a module binds, in the order of its text. -/
def bindings (module : Module) : List String := module.sources.flatten

theorem bound_importStatements (module : Module) :
    module.importStatements.flatMap Statement.bound =
      ["useMemo"] ++ (module.unit.name :: module.typeImports.toList) ++ [contextHooksFactory] ++
        module.factoryNames := by
  have htypes : (if module.typeImports.isEmpty then []
      else [Statement.imports (module.typeImports.toList.map Specifier.plain)
        (unquote (singleQuoted module.coreSpecifier))]).flatMap Statement.bound =
          module.typeImports.toList := by
    split
    next hempty =>
      rw [List.isEmpty_iff.1 hempty]
      rfl
    next => simp only [List.flatMap_singleton, Statement.bound_imports, newName_plain]
  have hfactories : (module.factoryHooks.map BoundHook.importStatement).flatMap Statement.bound =
      module.factoryNames := by
    rw [List.flatMap_map]
    refine List.flatMap_congr fun bound _ => ?_
    cases hfactory : bound.hook.factory <;>
      simp only [BoundHook.importStatement, BoundHook.imported, hfactory, Statement.bound_imports,
        List.map_append, newName_type] <;> rfl
  simp only [importStatements, List.flatMap_append, htypes, hfactories]
  simp

theorem bound_hookStatements (module : Module) :
    (module.hooks.flatMap BoundHook.statements).flatMap Statement.bound = module.hookNames := by
  rw [List.flatMap_assoc, hookNames, List.map_eq_flatMap]
  refine List.flatMap_congr fun bound _ => ?_
  unfold BoundHook.statements
  cases bound.hook.factory with
  | some factory => simp
  | none =>
    have hhook : (Statement.exportList [.plain bound.hook.hook]
        (some (unquote (singleQuoted bound.specifier))) false).bound = [bound.hook.hook] :=
      Statement.bound_exportList [bound.hook.hook] _ false
    have htypes : (if bound.hook.types.isEmpty then []
        else [Statement.exportList (bound.hook.types.map Specifier.plain)
          (some (unquote (singleQuoted bound.specifier))) true]).flatMap Statement.bound = [] := by
      split <;> simp only [List.flatMap_nil, List.flatMap_singleton, Statement.bound_exportList, if_true]
    rw [List.flatMap_cons, hhook, htypes, List.append_nil]

theorem bound_typeStatements (module : Module) :
    module.typeStatements.flatMap Statement.bound = [] := by
  unfold typeStatements
  split
  · rfl
  · simp only [List.flatMap_cons, List.flatMap_nil, Statement.bound_exportList, if_true,
      Statement.bound_exportTypeStar, List.append_nil]

/-- Exported variables, one for each statement. -/
theorem bound_each {α : Type} (xs : List α) (name : α → String) :
    (xs.map fun x => Statement.exported (.bindings [name x])).flatMap Statement.bound =
      xs.map name := by
  rw [List.flatMap_map, List.map_eq_flatMap]
  exact List.flatMap_congr fun x _ => Statement.bound_exported [name x]

/-- The statements of a module bind what its sources give. -/
theorem bound_statements (module : Module) :
    module.statements.flatMap Statement.bound = module.bindings := by
  have hshared : (if module.sharedHooks.isEmpty then []
      else [Statement.exported (.bindings module.sharedHooks)]).flatMap Statement.bound =
        module.sharedHooks := by
    cases module.sharedHooks <;> simp
  simp only [statements, List.flatMap_append, bound_importStatements, hshared, bound_each,
    bound_hookStatements, bound_typeStatements]
  simp [bindings, sources, accessorNames]

/-- What the text of a module binds. -/
theorem Spelled.boundNames {module : Module} (h : module.Spelled) (dialect : Dialect) :
    boundNames dialect module.text = module.bindings := by
  rw [← module.bound_statements]
  exact congrArg (List.flatMap Statement.bound)
    (h.states.read dialect (endLines_toList _) (Spelled.text_head module))

end Module

/-! ### Names of one source -/

section Sources

variable {settings : Settings} {unit : Screen.Unit} {interfaces : Screen.Interfaces}

theorem accessorNames_of (settings : Settings) (unit : Screen.Unit)
    (interfaces : Screen.Interfaces) :
    (Module.of settings unit interfaces).accessorNames =
      (settings.sharedModels ++ Settings.screenModels.filter settings.contextModels.contains).map
        accessorName := by
  rw [Module.accessorNames, accessors_of, List.map_append]
  rfl

/-- The models are those of the screen and the others, so no accessor is made twice. -/
theorem accessorNames_nodup (h : (settings.contextModels.map accessorName).Nodup) :
    (Module.of settings unit interfaces).accessorNames.Nodup := by
  have hmodels := h.of_map
  have hscreen : Settings.screenModels.Nodup := by decide
  have hapart : settings.sharedModels.Disjoint
      (Settings.screenModels.filter settings.contextModels.contains) := by
    intro model hshared hown
    have hother := (List.mem_filter.1 hshared).2
    rw [List.contains_iff_mem.2 (List.mem_filter.1 hown).1] at hother
    cases hother
  -- `accessorName` need not be injective but on the models that are configured
  have hsub : ∀ model ∈ settings.sharedModels ++
      Settings.screenModels.filter settings.contextModels.contains, model ∈ settings.contextModels := by
    simp only [Settings.sharedModels, List.mem_append, List.mem_filter, List.contains_iff_mem]
    rintro model (⟨hmem, -⟩ | ⟨-, hmem⟩) <;> exact hmem
  rw [accessorNames_of]
  refine List.Nodup.map_on (fun a ha b hb hab => ?_)
    ((hmodels.filter _).append (hscreen.filter _) hapart)
  exact List.inj_on_of_nodup_map h (hsub a ha) (hsub b hb) hab

theorem wrapperNames_of (settings : Settings) (unit : Screen.Unit)
    (interfaces : Screen.Interfaces) :
    (Module.of settings unit interfaces).wrappers.map (·.name) =
      (wrapped settings interfaces).map fun method => settings.naming.escape method.name := by
  simp [Module.of, List.map_map, Function.comp_def]

/-- Two names become one by the suffix of a reserved word only. -/
theorem escape_eq_iff {naming : Naming} {a b : String} (hne : a ≠ b) :
    naming.escape a = naming.escape b ↔
      (isReserved a = true ∧ isReserved b = false ∧ b = a ++ naming.reservedSuffix) ∨
        (isReserved b = true ∧ isReserved a = false ∧ a = b ++ naming.reservedSuffix) := by
  cases ha : isReserved a <;> cases hb : isReserved b <;>
    simp [Naming.escape, ha, hb, hne, eq_comm]

/-- Wrappers have different names unless a method is named like an escaped one. -/
theorem wrapperNames_nodup_iff (h : (interfaces.methods.map (·.name)).Nodup) :
    ((Module.of settings unit interfaces).wrappers.map (·.name)).Nodup ↔
      ∀ keyword ∈ wrapped settings interfaces, ∀ method ∈ wrapped settings interfaces,
        isReserved keyword.name = true → isReserved method.name = false →
          method.name ≠ keyword.name ++ settings.naming.reservedSuffix := by
  have hwrapped : ((wrapped settings interfaces).map (·.name)).Nodup :=
    h.sublist (List.filter_sublist.map _)
  rw [wrapperNames_of, List.nodup_map_iff_inj_on hwrapped.of_map]
  constructor
  · intro hinj keyword hk method hm hreserved hplain hname
    have hne : keyword.name ≠ method.name := by
      intro hsame
      rw [hsame, hplain] at hreserved
      cases hreserved
    have hsame := hinj keyword hk method hm ((escape_eq_iff hne).2 (.inl ⟨hreserved, hplain, hname⟩))
    exact hne (congrArg Script.Method.name hsame)
  · intro hapart a ha b hb hab
    -- two names that become one are a reserved word and the other method's name
    by_contra hdiffers
    have hne : a.name ≠ b.name := fun hname =>
      hdiffers (List.inj_on_of_nodup_map hwrapped ha hb hname)
    rcases (escape_eq_iff hne).1 hab with ⟨hreserved, hplain, hname⟩ | ⟨hreserved, hplain, hname⟩
    · exact hapart a ha b hb hreserved hplain hname
    · exact hapart b hb a ha hreserved hplain hname

theorem hooked_names (settings : Settings) (interfaces : Screen.Interfaces) :
    (hooked settings interfaces).map (fun bound => (bound.1.name, bound.2)) =
      (interfaces.methods.map (·.name)).filterMap fun name =>
        (settings.utilityHook? name).map (name, ·) := by
  rw [hooked, List.map_filterMap, List.filterMap_map]
  refine List.filterMap_congr fun method _ => ?_
  simp only [Function.comp_apply]
  cases hfound : settings.utilityHook? method.name with
  | some hook => rw [(bind_eq_hook_iff settings interfaces method hook).2 hfound]; rfl
  | none =>
    split
    next hook hbind => rw [(bind_eq_hook_iff _ _ _ _).1 hbind] at hfound; cases hfound
    next => rfl

theorem hookNames_of (settings : Settings) (unit : Screen.Unit) (interfaces : Screen.Interfaces) :
    (Module.of settings unit interfaces).hookNames =
      (interfaces.methods.map (·.name)).filterMap fun name =>
        (settings.utilityHook? name).map (·.hook) := by
  have hnames : (Module.of settings unit interfaces).hookNames =
      ((hooked settings interfaces).map fun bound => (bound.1.name, bound.2)).map (·.2.hook) := by
    simp [Module.hookNames, Module.of, List.map_map, Function.comp_def]
  rw [hnames, hooked_names, List.map_filterMap]
  simp only [Option.map_map, Function.comp_def]

theorem utilityHook?_spec {name : String} {hook : UtilityHook}
    (h : settings.utilityHook? name = some hook) :
    hook ∈ settings.utilityHooks ∧ hook.method = name := by
  unfold Settings.utilityHook? at h
  exact ⟨List.mem_of_find?_eq_some h, by simpa using List.find?_some h⟩

/-- The hooks that methods take belong to them, so different methods take different ones. -/
theorem hookNames_nodup (hmethods : (interfaces.methods.map (·.name)).Nodup)
    (hhooks : (settings.utilityHooks.map (·.hook)).Nodup) :
    (Module.of settings unit interfaces).hookNames.Nodup := by
  rw [hookNames_of]
  refine hmethods.filterMap fun a b name ha hb => ?_
  obtain ⟨hook, hfound, rfl⟩ := Option.map_eq_some_iff.1 ha
  obtain ⟨other, hother, hsame⟩ := Option.map_eq_some_iff.1 hb
  -- hooks of one name are one hook, and that has one method
  obtain ⟨hmem, rfl⟩ := utilityHook?_spec hfound
  obtain ⟨hotherMem, rfl⟩ := utilityHook?_spec hother
  rw [List.inj_on_of_nodup_map hhooks hotherMem hmem hsame]

/-- Only the imports of factories and the wrappers may give a name twice. -/
theorem sources_nodup_iff (hmethods : (interfaces.methods.map (·.name)).Nodup)
    (haccessors : (settings.contextModels.map accessorName).Nodup)
    (hhooks : (settings.utilityHooks.map (·.hook)).Nodup) :
    (∀ source ∈ (Module.of settings unit interfaces).sources, source.Nodup) ↔
      (Module.of settings unit interfaces).factoryNames.Nodup ∧
        ((Module.of settings unit interfaces).wrappers.map (·.name)).Nodup := by
  have hone : ∀ name : String, [name].Nodup := List.nodup_singleton
  have himports := List.nodup_cons.2 ⟨Module.typeImports_not_class settings unit interfaces,
    (Module.of settings unit interfaces).typeImports.nodup⟩
  have hinstance : ["instance", "getInstance"].Nodup := by decide
  have hnames := @accessorNames_nodup settings unit interfaces haccessors
  have hhookNames := @hookNames_nodup settings unit interfaces hmethods hhooks
  have hclass : (Module.of settings unit interfaces).unit = unit := rfl
  simp only [Module.sources, List.forall_mem_cons, hclass, hone, himports, hinstance, hnames,
    hhookNames, true_and, List.not_mem_nil, false_imp_iff, implies_true, and_true]

/-- A module binds each name once exactly when no two of its sources share a name and no
method is named like an escaped one. These are the names that its text binds. -/
theorem bound_once_iff (hmethods : (interfaces.methods.map (·.name)).Nodup)
    (haccessors : (settings.contextModels.map accessorName).Nodup)
    (hhooks : (settings.utilityHooks.map (·.hook)).Nodup)
    (hfactories : (Module.of settings unit interfaces).factoryNames.Nodup) :
    let module := Module.of settings unit interfaces
    (module.bindings.Nodup ↔
      (∀ keyword ∈ wrapped settings interfaces, ∀ method ∈ wrapped settings interfaces,
        isReserved keyword.name = true → isReserved method.name = false →
          method.name ≠ keyword.name ++ settings.naming.reservedSuffix) ∧
      module.sources.Pairwise List.Disjoint) ∧
    (module.Spelled → ∀ dialect, boundNames dialect module.text = module.bindings) := by
  refine ⟨?_, fun hspelled => hspelled.boundNames⟩
  rw [Module.bindings, List.nodup_flatten, sources_nodup_iff hmethods haccessors hhooks,
    and_iff_right hfactories, wrapperNames_nodup_iff hmethods]

end Sources

/-- The screen `Login` has no method, model or hook that gets in the way of another. -/
theorem bound_once_login :
    ((loginInterfaces []).methods.map (·.name)).Nodup ∧
      (({} : Settings).contextModels.map accessorName).Nodup ∧
      (({} : Settings).utilityHooks.map (·.hook)).Nodup ∧
      (Module.of {} loginUnit (loginInterfaces [])).factoryNames.Nodup ∧
      (boundNames .markup (Module.of {} loginUnit (loginInterfaces [])).text).Nodup := by
  have hmethods : ((loginInterfaces []).methods.map (·.name)).Nodup := by decide
  have haccessors : (({} : Settings).contextModels.map accessorName).Nodup := by decide
  have hhooks : (({} : Settings).utilityHooks.map (·.hook)).Nodup := by decide
  have hfactories : (Module.of {} loginUnit (loginInterfaces [])).factoryNames.Nodup := by decide
  obtain ⟨honce, htext⟩ := @bound_once_iff {} loginUnit (loginInterfaces []) hmethods haccessors
    hhooks hfactories
  refine ⟨hmethods, haccessors, hhooks, hfactories, ?_⟩
  have hapart : (Module.of {} loginUnit (loginInterfaces [])).sources.Pairwise
      fun a b => ∀ name ∈ a, name ∉ b := by decide +kernel
  rw [htext ((writable_login []).spelled (by decide)), honce]
  exact ⟨by decide, hapart⟩

/-! ### A screen with a clash -/

/-- A screen that is named like a model. -/
def userUnit : Screen.Unit := ⟨"User", "user", false⟩

theorem writable_user : Writable {} userUnit {} where
  screen := by decide
  models := by decide
  methods := by simp
  parameters := by simp
  hooks := by decide
  core := by decide
  context := by decide
  utilities := by decide

/-- The primary hook of a screen may be the accessor of a model, too. -/
theorem bound_twice_user :
    (({} : Screen.Interfaces).methods.map (·.name)).Nodup ∧
      (({} : Settings).contextModels.map accessorName).Nodup ∧
      (({} : Settings).utilityHooks.map (·.method)).Nodup ∧
      (({} : Settings).utilityHooks.map (·.hook)).Nodup ∧
      ¬ (boundNames .markup (Module.of {} userUnit {}).text).Nodup := by
  refine ⟨by decide, by decide, by decide, by decide, ?_⟩
  rw [(writable_user.spelled (by decide)).boundNames]
  decide

end ScreenHooks.Hook
