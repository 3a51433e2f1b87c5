/-
The types that a hook module imports.

A hook module has one line at most that imports types, and it stands after the import of
the class. The types are those that the module is written with: the members interface,
the published interfaces of the screen's own models, and what the parameters of wrappers
mention, each of them once and in this order. The class is not among them, since it is a
value already. What the parameters of other methods mention is not used at all.

* **`lines_eq`** — the lines of a module, with those that depend on types apart;
* **`filter_isTypeImport`** — the lines that import types;
* **`typeImports_exact`** — what is imported, and what does not matter for it.
-/
import ScreenHooks.Hook.Example
import ScreenHooks.Proofs.Hook.Bindings
import ScreenHooks.Proofs.Names
import ScreenHooks.Proofs.TypeText.Tuples

namespace ScreenHooks

open Text

namespace Hook

/-! ### Lines -/

/-- Whether a line imports types by their names. -/
def isTypeImport (line : String) : Bool := startsWith line "import type \x7b"

namespace Module

/-- The lines before the import of types. -/
def openingLines (module : Module) : List String :=
  [generatedHeader, "// Hooks for the " ++ module.unit.name ++ " screen", "",
   importLine ["useMemo"] "'react'",
   if module.unit.defaultExport then
     "import " ++ module.unit.name ++ " from " ++ singleQuoted module.coreSpecifier ++ ";"
   else importLine [module.unit.name] (singleQuoted module.coreSpecifier)]

/-- The import of types, if there is anything to import. -/
def typeImportLines (module : Module) : List String :=
  if module.typeImports.isEmpty then []
  else [importTypeLine module.typeImports.toList (singleQuoted module.coreSpecifier)]

/-- The lines between the import of types and the accessors of the screen's own models. -/
def middleLines (module : Module) : List String :=
  importLine [contextHooksFactory] (singleQuoted module.contextSpecifier) ::
    (Names.ofList (module.hooks.filterMap (·.factoryImport?))).toList ++
    module.instanceLines ++ module.primaryLines ++ module.sharedLines ++
    ["", "// Screen-specific context hooks"]

/-- The lines between the accessors and the re-exports of types. -/
def closingLines (module : Module) : List String :=
  titled "Methods" (module.wrappers.map Wrapper.line) ++
    titled "Utility hooks" (module.hooks.flatMap BoundHook.lines)

theorem lines_eq (module : Module) :
    module.lines = module.openingLines ++ module.typeImportLines ++ module.middleLines ++
      module.accessors.map Accessor.line ++ module.closingLines ++ module.typeLines := by
  simp [lines, importLines, openingLines, typeImportLines, middleLines, accessorLines, closingLines]

/-- An import of types starts like an import. -/
theorem isTypeImport_of_head {line : String} (h : line.toList.head? ≠ some 'i') :
    isTypeImport line = false := by
  apply Bool.eq_false_iff.2
  intro hstarts
  obtain ⟨rest, hrest⟩ := List.isPrefixOf_iff_prefix.1 hstarts
  rw [← hrest] at h
  simp at h

theorem isTypeImport_importLine (names : List String) (literal : String) :
    isTypeImport (importLine names literal) = false := by
  simp [isTypeImport, startsWith, importLine, braced, List.isPrefixOf]

theorem isTypeImport_titled {title : String} {lines : List String}
    (h : ∀ line ∈ lines, isTypeImport line = false) :
    ∀ line ∈ titled title lines, isTypeImport line = false := by
  cases lines with
  | nil => exact h
  | cons line more =>
    have htitle : isTypeImport ("// " ++ title) = false := isTypeImport_of_head (by simp)
    exact List.forall_mem_cons.2 ⟨by decide, List.forall_mem_cons.2 ⟨htitle, h⟩⟩

theorem isTypeImport_hook (bound : BoundHook) :
    ∀ line ∈ bound.lines, isTypeImport line = false := by
  have hheads : ∀ line ∈ bound.lines, line.toList.head? ≠ some 'i' := by
    unfold BoundHook.lines exportLine exportTypeLine
    split
    · simp
    · split <;> simp
  exact fun line hline => isTypeImport_of_head (hheads line hline)

theorem isTypeImport_middleLines (module : Module) :
    ∀ line ∈ module.middleLines, isTypeImport line = false := by
  have hfactories : ∀ line ∈ (Names.ofList (module.hooks.filterMap (·.factoryImport?))).toList,
      isTypeImport line = false := by
    intro line hline
    obtain ⟨bound, -, hbound⟩ := List.mem_filterMap.1 (Names.mem_ofList.1 (Names.mem_def.2 hline))
    obtain ⟨factory, -, rfl⟩ := Option.map_eq_some_iff.1 hbound
    exact isTypeImport_importLine _ _
  have hinstance : ∀ line ∈ module.instanceLines, line.toList.head? ≠ some 'i' := by
    unfold instanceLines
    simp
  have hprimary : ∀ line ∈ module.primaryLines, line.toList.head? ≠ some 'i' := by
    unfold primaryLines
    simp
  have hshared : ∀ line ∈ module.sharedLines, line.toList.head? ≠ some 'i' := by
    unfold sharedLines titled
    split <;> simp
  simp only [middleLines, List.cons_append, List.forall_mem_append, List.forall_mem_cons]
  exact ⟨isTypeImport_importLine _ _, ⟨⟨⟨hfactories,
    fun line hline => isTypeImport_of_head (hinstance line hline)⟩,
    fun line hline => isTypeImport_of_head (hprimary line hline)⟩,
    fun line hline => isTypeImport_of_head (hshared line hline)⟩, by decide, by decide,
    List.forall_mem_nil _⟩

theorem isTypeImport_accessor (accessor : Accessor) : isTypeImport accessor.line = false := by
  refine isTypeImport_of_head ?_
  unfold Accessor.line
  simp

theorem isTypeImport_wrapper (wrapper : Wrapper) : isTypeImport wrapper.line = false := by
  refine isTypeImport_of_head ?_
  unfold Wrapper.line
  simp

theorem isTypeImport_closingLines (module : Module) :
    ∀ line ∈ module.closingLines, isTypeImport line = false := by
  unfold closingLines
  refine List.forall_mem_append.2 ⟨isTypeImport_titled ?_, isTypeImport_titled ?_⟩
  · exact List.forall_mem_map.2 fun wrapper _ => isTypeImport_wrapper wrapper
  · exact List.forall_mem_flatMap.2 fun bound _ => isTypeImport_hook bound

theorem isTypeImport_typeLines (module : Module) :
    ∀ line ∈ module.typeLines, isTypeImport line = false := by
  have hheads : ∀ line ∈ module.typeLines, line.toList.head? ≠ some 'i' := by
    unfold typeLines titled exportTypeLine
    split <;> simp
  exact fun line hline => isTypeImport_of_head (hheads line hline)

/-- No line but the import of the class can look like an import of types. -/
theorem filter_isTypeImport (module : Module) :
    (module.lines.eraseIdx 4).filter isTypeImport = module.typeImportLines := by
  have hopening : ∀ line ∈ module.openingLines.take 4, isTypeImport line = false := by
    simp [openingLines, isTypeImport, startsWith, List.isPrefixOf, importLine, braced,
      generatedHeader]
  have himport : ∀ line ∈ module.typeImportLines, isTypeImport line = true := by
    unfold typeImportLines
    split
    · exact List.forall_mem_nil _
    · simp [importTypeLine, braced, isTypeImport, startsWith]
  have hrest : ∀ line ∈ module.middleLines ++ module.accessors.map Accessor.line ++
      module.closingLines ++ module.typeLines, isTypeImport line = false :=
    List.forall_mem_append.2 ⟨List.forall_mem_append.2 ⟨List.forall_mem_append.2
      ⟨module.isTypeImport_middleLines,
        List.forall_mem_map.2 fun accessor _ => isTypeImport_accessor accessor⟩,
        module.isTypeImport_closingLines⟩, module.isTypeImport_typeLines⟩
  -- the fifth line is the import of the class
  have hlines : module.lines.eraseIdx 4 = module.openingLines.take 4 ++ (module.typeImportLines ++
      (module.middleLines ++ module.accessors.map Accessor.line ++ module.closingLines ++
        module.typeLines)) := by
    rw [lines_eq]
    simp [openingLines]
  rw [hlines, List.filter_append, List.filter_append,
    List.filter_eq_nil_iff.2 (by simpa using hopening), List.filter_eq_self.2 himport,
    List.filter_eq_nil_iff.2 (by simpa using hrest)]
  simp

end Module

/-! ### What is imported -/

section Used

variable {settings : Settings} {unit : Screen.Unit} {interfaces other : Screen.Interfaces}

/-- The types that the module of a screen is written with: the members interface if there
is one, the interfaces of the screen's own models that are published, and the names in the
types of the parameters of methods with a wrapper. -/
def usedTypes (settings : Settings) (unit : Screen.Unit) (interfaces : Screen.Interfaces) :
    List String :=
  (if interfaces.membersFound then [unit.membersInterface] else []) ++
    (["Screen", "Transaction"].map (· ++ "MembersOn" ++ unit.name)).filter
      interfaces.published.contains ++
    (wrapped settings interfaces).flatMap fun method =>
      method.parameters.flatMap fun parameter => (TypeText.typeNames parameter.type).toList

theorem specialized?_toList (interfaces : Screen.Interfaces) (unit : Screen.Unit) (model : String) :
    (specialized? interfaces unit model).toList =
      [model ++ "MembersOn" ++ unit.name].filter interfaces.published.contains := by
  simp only [specialized?, List.filter_cons, List.filter_nil]
  split <;> rfl

/-- A type that several parameters mention is used once. -/
theorem ofList_neededTypes (settings : Settings) (unit : Screen.Unit)
    (interfaces : Screen.Interfaces) :
    Names.ofList (neededTypes settings unit interfaces) =
      Names.ofList (usedTypes settings unit interfaces) := by
  have hmodels : (["Screen", "Transaction"].map (· ++ "MembersOn" ++ unit.name)).filter
      interfaces.published.contains = (specialized? interfaces unit "Screen").toList ++
        (specialized? interfaces unit "Transaction").toList := by
    rw [specialized?_toList, specialized?_toList, ← List.filter_append, List.map_cons,
      List.map_cons, List.map_nil, List.singleton_append]
  have hmentions : ∀ before : List String, Names.ofList (before ++
      (wrapped settings interfaces).flatMap fun method => method.parameters.flatMap fun parameter =>
        (TypeText.typeNames parameter.type).toList) =
      Names.ofList (before ++ (wrapped settings interfaces).flatMap fun method =>
        method.parameters.flatMap fun parameter => TypeText.mentions parameter.type) := by
    intro before
    have hflat := Names.insertAll_flatMap (Names.ofList before)
      ((wrapped settings interfaces).flatMap (·.parameters))
      fun parameter => TypeText.mentions parameter.type
    rw [List.flatMap_assoc, List.flatMap_assoc] at hflat
    rw [Names.ofList, Names.ofList, Names.insertAll_append, Names.insertAll_append]
    exact hflat
  rw [neededTypes, usedTypes, hmodels, hmentions, ← List.append_assoc]

theorem typeImports_of (settings : Settings) (unit : Screen.Unit)
    (interfaces : Screen.Interfaces) :
    (Module.of settings unit interfaces).typeImports.toList =
      (usedTypes settings unit interfaces).eraseDups.filter (· ≠ unit.name) := by
  rw [← Names.toList_ofList, ← ofList_neededTypes]
  refine List.filter_congr fun name _ => ?_
  by_cases h : name = unit.name <;> simp [h]

/-! ### What does not matter -/

/-- Whether two screens differ in the parameters of methods without a wrapper only: those
that take a hook, and those that are tagged and take none. -/
structure SameButUnwrapped (settings : Settings) (interfaces other : Screen.Interfaces) : Prop where
  published : interfaces.published = other.published
  membersFound : interfaces.membersFound = other.membersFound
  utilityMethods : interfaces.utilityMethods = other.utilityMethods
  methods : List.Forall₂
    (fun m n => m = n ∨ m.name = n.name ∧ bind settings interfaces m ≠ .wrapper)
    interfaces.methods other.methods

namespace SameButUnwrapped

theorem bind_eq (h : SameButUnwrapped settings interfaces other) {m n : Script.Method}
    (hname : m.name = n.name) : bind settings interfaces m = bind settings other n := by
  rw [bind, bind, hname, h.utilityMethods]

theorem names_eq (h : SameButUnwrapped settings interfaces other) :
    interfaces.methods.map (·.name) = other.methods.map (·.name) := by
  have hmethods := h.methods
  revert hmethods
  generalize interfaces.methods = ms, other.methods = ns
  intro hmethods
  induction hmethods with
  | nil => rfl
  | cons hmn _ ih =>
    rw [List.map_cons, List.map_cons, ih]
    rcases hmn with rfl | ⟨hname, -⟩
    · rfl
    · rw [hname]

/-- A method with a wrapper is the same in both. -/
theorem wrapped_eq (h : SameButUnwrapped settings interfaces other) :
    wrapped settings interfaces = wrapped settings other := by
  have hmethods := h.methods
  unfold wrapped
  revert hmethods
  generalize interfaces.methods = ms, other.methods = ns
  intro hmethods
  induction hmethods with
  | nil => rfl
  | @cons m n _ _ hmn _ ih =>
    rcases hmn with rfl | ⟨hname, hunwrapped⟩
    · rw [List.filter_cons, List.filter_cons, ih, h.bind_eq rfl]
    · have hother : bind settings other n ≠ .wrapper := h.bind_eq hname ▸ hunwrapped
      rw [List.filter_cons_of_neg (by simpa using hunwrapped),
        List.filter_cons_of_neg (by simpa using hother), ih]

/-- The methods that take a hook have the same names in both, and take the same hooks. -/
theorem hooked_eq (h : SameButUnwrapped settings interfaces other) :
    (hooked settings interfaces).map (fun bound => (bound.1.name, bound.2)) =
      (hooked settings other).map fun bound => (bound.1.name, bound.2) := by
  rw [hooked_names, hooked_names, h.names_eq]

theorem module_eq (h : SameButUnwrapped settings interfaces other) (unit : Screen.Unit) :
    Module.of settings unit interfaces = Module.of settings unit other := by
  have hspecialized : ∀ model,
      specialized? interfaces unit model = specialized? other unit model := by
    intro model
    rw [specialized?, specialized?, h.published]
  have hneeded : neededTypes settings unit interfaces = neededTypes settings unit other := by
    rw [neededTypes, neededTypes, h.membersFound, hspecialized, hspecialized, h.wrapped_eq]
  have hhooks := congrArg (List.map fun bound : String × UtilityHook =>
    (⟨bound.1, bound.2, settings.utilitySpecifier bound.2⟩ : BoundHook)) h.hooked_eq
  rw [List.map_map, List.map_map] at hhooks
  have hinstance : (if interfaces.membersFound then unit.membersInterface else unit.name) =
      if other.membersFound then unit.membersInterface else unit.name := by rw [h.membersFound]
  unfold Module.of
  congr 1
  · rw [hneeded]
  · rw [hspecialized, hspecialized]
  · rw [h.wrapped_eq]
  · rw [h.published]

theorem document_eq (h : SameButUnwrapped settings interfaces other) (unit : Screen.Unit)
    (package : String) : exampleDocument settings unit interfaces package =
      exampleDocument settings unit other package := by
  have hhooks : ∀ {α : Type} (f : UtilityHook → α),
      (hooked settings interfaces).map (fun bound => f bound.2) =
      (hooked settings other).map fun bound => f bound.2 := by
    intro α f
    have hmapped := congrArg (List.map fun bound : String × UtilityHook => f bound.2) h.hooked_eq
    rwa [List.map_map, List.map_map] at hmapped
  have himports : exampleImports settings unit interfaces = exampleImports settings unit other := by
    rw [exampleImports, exampleImports, h.wrapped_eq, hhooks]
  have hcalls : exampleCalls settings interfaces = exampleCalls settings other := by
    rw [exampleCalls, exampleCalls, h.wrapped_eq]
  rw [exampleDocument, exampleDocument, himports, hcalls,
    hhooks fun hook => "  const " ++ hookBinding hook ++ " = " ++ hook.hook ++ "();"]

end SameButUnwrapped

/-- Apart from the import of the class no line of a module looks like an import of types,
but for the one of the types that are used, which is missing if there are none. And the
parameters of a method without a wrapper change neither the module nor the document. -/
theorem typeImports_exact (settings : Settings) (unit : Screen.Unit)
    (interfaces : Screen.Interfaces) :
    let module := Module.of settings unit interfaces
    let literal := singleQuoted (settings.coreSubpath unit)
    let names := (usedTypes settings unit interfaces).eraseDups.filter (· ≠ unit.name)
    module.lines[4]? = some (if unit.defaultExport then
        "import " ++ unit.name ++ " from " ++ literal ++ ";" else importLine [unit.name] literal) ∧
      (module.lines.eraseIdx 4).filter isTypeImport =
        (if names = [] then [] else [importTypeLine names literal]) ∧
      names.Nodup ∧
      ∀ other, SameButUnwrapped settings interfaces other →
        Module.of settings unit other = module ∧
          ∀ package, exampleDocument settings unit other package =
            exampleDocument settings unit interfaces package := by
  intro module literal names
  have hnames : module.typeImports.toList = names := typeImports_of settings unit interfaces
  refine ⟨?_, ?_, ?_, fun other h => ⟨(h.module_eq unit).symm, fun package =>
    (h.document_eq unit package).symm⟩⟩
  · rw [Module.lines_eq]
    rfl
  · rw [Module.filter_isTypeImport, Module.typeImportLines, Names.isEmpty, hnames]
    cases names <;> rfl
  · rw [← hnames]
    exact module.typeImports.nodup

end Used

/-- The screen `Login` with parameters of the method that takes a hook. -/
def loginResending : Screen.Interfaces :=
  { loginInterfaces [] with
    methods :=
      [⟨"login", [⟨"options", "LoginOptions | Hint<string, User>[]", true⟩]⟩, ⟨"delete", []⟩,
       ⟨"resendManager", [⟨"options", "ResendOptions", true⟩]⟩] }

/-- What is resent is not imported. -/
theorem typeImports_exact_login :
    SameButUnwrapped {} (loginInterfaces []) loginResending ∧
      ((Module.of {} loginUnit loginResending).lines.eraseIdx 4).filter isTypeImport =
        ["import type \x7b LoginMembers, LoginOptions, Hint, User \x7d from '@acme/auth-core/login';"] := by
  have hsame : SameButUnwrapped {} (loginInterfaces []) loginResending :=
    ⟨rfl, rfl, rfl, .cons (.inl rfl) (.cons (.inl rfl) (.cons (.inr ⟨rfl, by decide⟩) .nil))⟩
  obtain ⟨-, himports, -, hsames⟩ := typeImports_exact {} loginUnit (loginInterfaces [])
  refine ⟨hsame, ?_⟩
  rw [(hsames loginResending hsame).1, himports]
  decide +kernel

end Hook
end ScreenHooks
