/-
Screens among declarations of one name.

A class and an interface may have one name, and both are merged behind it. An
export of the name then stands for several declarations: as several export items,
or as one item of a name that is declared several times. The search for a
declaration settles for the first of them. So a screen is found behind a listed
name exactly if that first declaration is a class; a class after an interface is
no screen, although its name is listed as that of a value.

* **`exportedKinds_of_declared`** — what the search takes of several declarations;
* **`screen_of_first_declaration`** — the names behind which screens are found;
* **`screen_behind_interface`** — a class that an interface hides.
-/
import ScreenHooks.Proofs.Sdk.Limit
import ScreenHooks.Proofs.Sdk.Listing
import ScreenHooks.Proofs.Table

namespace ScreenHooks

/-! ### Declarations of a name -/

namespace Script

/-- The kinds of the declarations that a name has in a script, in their order. -/
def kindsOf (script : List Statement) (name : String) : List DeclarationKind :=
  ((script.flatMap Statement.locals).filter (·.1 == name)).map (·.2)

/-- The kinds of the declarations that an export item of a script stands for. -/
def Export.kinds (script : List Statement) : Export → List DeclarationKind
  | .declaration _ kind | .byDefault _ (some kind) => [kind]
  | .byDefault (some name) none | .ofLocal name _ _ => kindsOf script name
  | .byDefault none none | .reexport .. | .star _ | .space .. => []

/-- The kinds of the declarations that a script exports by a name, in the order of
the export items. -/
def exportedKinds (script : List Statement) (name : String) : List DeclarationKind :=
  ((script.flatMap Statement.exports).filter (Sdk.decides name)).flatMap (Export.kinds script)

/-- The statements of the script that a source spells. -/
def statementsOf (dialect : Dialect) (source : String) : List Statement :=
  statements (Forest.ofTokens (scan dialect source.toList)).forest

end Script

namespace Sdk

open Script Relation

variable {d : Disk} {p : Project} {path : Path} {name : String}

theorem lookup_locals (script : List Statement) (name : String) :
    (Module.ofStatements script).locals.lookup name = (kindsOf script name).head? := by
  rw [kindsOf, ← Table.lookup_eq_head?]
  exact Table.lookup_oldest _ name

theorem localLead_declared {script : List Statement} {localName : Option String}
    {kind : DeclarationKind}
    (h : localLead (Module.ofStatements script) name = .declared localName kind) :
    (kindsOf script name).head? = some kind := by
  rw [← lookup_locals]
  unfold localLead at h
  split at h
  next found hfound =>
    rw [hfound, (Lead.declared.inj h).2]
  next =>
    split at h
    · split at h <;> cases h
    · cases h

theorem itemLead_declared {script : List Statement} {item : Export} {localName : Option String}
    {kind : DeclarationKind}
    (h : itemLead (Module.ofStatements script) item = .declared localName kind) :
    (item.kinds script).head? = some kind := by
  unfold itemLead at h
  split at h
  next => exact congrArg some (Lead.declared.inj h).2
  next => exact congrArg some (Lead.declared.inj h).2
  next => exact localLead_declared h
  next => cases h
  next => exact localLead_declared h
  next => cases h
  next => cases h
  next => cases h

/-- A declaration that a module has for an exported name is the first one that its
script exports by it. -/
theorem exportedKinds_of_declared {script : List Statement} {localName : Option String}
    {kind : DeclarationKind}
    (h : explicitLead? (Module.ofStatements script) name = some (.declared localName kind)) :
    (exportedKinds script name).head? = some kind := by
  obtain ⟨item, hitem, hlead⟩ := Option.map_eq_some_iff.1 h
  have hfirst : ((script.flatMap Statement.exports).filter (decides name)).head? = some item := by
    rw [List.head?_filter]
    exact hitem
  obtain ⟨rest, hrest⟩ := List.head?_eq_some_iff.1 hfirst
  rw [exportedKinds, hrest, List.flatMap_cons, List.head?_append, itemLead_declared hlead]
  rfl

/-! ### Ends of a chain -/

/-- The statements of the module at a key. -/
def scriptAt (d : Disk) (key : Path) : List Statement :=
  match d.readText key with
  | .ok source => statementsOf (Module.dialectOf key) source
  | .error _ => []

/-- Whether the search for a name that the module at a path exports ends at a node,
with the declaration that is found there. -/
def EndsAt (d : Disk) (p : Project) (path : Path) (name : String) (node : Node) : Prop :=
  Reaches d p (path.normalize, name) node ∧ ∃ resolved,
    ((Project.resolveExport path name).run d p).1 = .ok (some resolved) ∧
      answer? d node = some resolved

/-- Where an export item leads depends on the local names and the imports. -/
theorem itemLead_congr {module other : Module} (hlocals : other.locals = module.locals)
    (himports : other.imports = module.imports) : itemLead other = itemLead module := by
  have hlocal : localLead other = localLead module := by
    funext name
    rw [localLead, localLead, hlocals, himports]
  funext item
  cases item with
  | byDefault localName kind => cases localName <;> cases kind <;> simp [itemLead, hlocal]
  | _ => simp [itemLead, hlocal]

/-- Errors of a module say nothing about where names lead. -/
theorem explicitLead?_hasErrors (module : Module) (hasErrors : Bool) :
    explicitLead? { module with hasErrors } name = explicitLead? module name := by
  have hitem : itemLead { module with hasErrors } = itemLead module := itemLead_congr rfl rfl
  rw [explicitLead?, explicitLead?, hitem]

theorem moduleAt?_eq_some {key : Path} {module : Module} (h : moduleAt? d key = some module) :
    explicitLead? module name =
      explicitLead? (Module.ofStatements (scriptAt d key)) name := by
  unfold moduleAt? readModule at h
  split at h
  · cases hread : d.readText key with
    | ok source =>
      rw [hread] at h
      obtain rfl := Option.some.inj h
      rw [scriptAt, hread, Module.read, explicitLead?_hasErrors]
      rfl
    | error e =>
      rw [hread] at h
      cases h
  · cases h

/-- The first declaration that a script exports by a name is the one that is found. -/
theorem exportedKinds_of_answer {node : Node} {resolved : Resolved}
    (h : answer? d node = some resolved) :
    (exportedKinds (scriptAt d node.1) node.2).head? = some resolved.kind := by
  obtain ⟨module, hmodule, hlead⟩ := Option.bind_eq_some_iff.1 h
  split at hlead
  next localName kind hdeclared =>
    rw [moduleAt?_eq_some hmodule] at hdeclared
    rw [← Option.some.inj hlead]
    exact exportedKinds_of_declared hdeclared
  next => cases hlead

/-! ### Screens behind listed names -/

theorem ends_screen? (naming : Naming) (barrel : Path) (name : String) :
    (screen? naming barrel name).Ends d (p.scope d) := by
  refine (ends_resolveExport barrel name).bind fun found => ?_
  cases found with
  | none => exact .pure none
  | some resolved => exact .pure _

/-- A name is listed only at a module that is there. -/
theorem Lists.module {typesToo : Bool} {start : Path} (h : Lists d p typesToo start name) :
    ∃ module, readModule d start = .ok (some module) := by
  obtain ⟨key, module, -, hreach, hmodule, -⟩ := h
  rcases ReflTransGen.cases_head hreach with rfl | ⟨next, hstep, -⟩
  · exact ⟨module, hmodule⟩
  · obtain ⟨first, -, -, hfirst, -⟩ := hstep
    exact ⟨first, hfirst⟩

/-- The screens of a barrel that lists a name are found, where all modules can be
read. -/
theorem discover_ok (hreadable : ∀ key, ∃ found, readModule d key = .ok found) (naming : Naming)
    {barrel : Path} {names : Names}
    (hnames : (barrelNames barrel).on d (p.scope d) = .ok names) (hname : name ∈ names) :
    ∃ found, (discover naming barrel).on d (p.scope d) = .ok found := by
  obtain ⟨names', hnames', hlists⟩ := mem_names_iff (p := p) barrel false fun key _ => hreadable key
  obtain rfl := Except.ok.inj (hnames.symm.trans hnames')
  -- a barrel that lists a name is there, and so are the readable modules behind it
  obtain ⟨module, hmodule⟩ := ((hlists name).1 hname).module
  have hload : (Project.load barrel).on d (p.scope d) = .ok (some module) :=
    (on_load barrel).trans hmodule
  obtain ⟨found, hfound⟩ := (Reading.Ends.filterMapM names.toList
    fun name => ends_screen? (d := d) (p := p) naming barrel name).ok hreadable
  refine ⟨found, ?_⟩
  unfold discover
  rw [Reading.on_bind hload]
  exact (Reading.on_bind hnames _).trans hfound

/-- Where all modules can be read, the search for the screens of a barrel ends, and
there is one behind a listed name exactly if the first declaration is a class that is
exported by it in the module where the search for the name ends. -/
theorem screen_of_first_declaration (hp : Inquiry.Sound d p)
    (hreadable : ∀ key, ∃ found, readModule d key = .ok found) (naming : Naming) (barrel : Path)
    (names : Names) (name : String)
    (hnames : ((Project.exportedNames barrel false).run d p).1 = .ok names)
    (hname : name ∈ names) :
    ∃ found, ((discover naming barrel).run d p).1 = .ok found ∧
      ∀ node, EndsAt d p barrel name node →
        ((∃ screen ∈ found, screen.name = name) ↔
          (exportedKinds (scriptAt d node.1) node.2).head? = some .classType) := by
  rw [Reading.run_eq hp] at hnames ⊢
  obtain ⟨found, hfound⟩ := discover_ok hreadable naming hnames hname
  refine ⟨found, hfound, fun node ⟨_, resolved, hresolved, hanswer⟩ => ?_⟩
  rw [Reading.run_eq hp] at hresolved
  rw [exportedKinds_of_answer hanswer, Option.some.injEq]
  constructor
  · rintro ⟨screen, hscreen, rfl⟩
    obtain ⟨-, hscreenResolved, hclass, -⟩ := (mem_discover_iff hfound).1 hscreen
    rw [hresolved] at hscreenResolved
    rwa [Option.some.inj (Except.ok.inj hscreenResolved)]
  · intro hclass
    exact ⟨⟨name, naming.kebab name, resolved⟩,
      (mem_discover_iff hfound).2 ⟨⟨names, hnames, hname⟩, hresolved, hclass, rfl⟩, rfl⟩

/-- A module that declares a class and an interface of one name, in the order of the
texts, and exports the name. -/
def mergedDisk (first second : String) : Disk :=
  { entries := [(["core"], .directory),
      (["core", "all.ts"], .file (.text "export * from './a'")),
      (["core", "a.ts"], .file (.text (first ++ "\n" ++ second ++ "\nexport \x7b X \x7d;")))] }

/-- The class stands before the interface. -/
def classFirst : Disk := mergedDisk "class X \x7b\x7d" "interface X \x7b\x7d"

/-- The interface stands before the class. -/
def interfaceFirst : Disk := mergedDisk "interface X \x7b\x7d" "class X \x7b\x7d"

theorem readModule_merged (first second : String) (key : Path) :
    ∃ found, readModule (mergedDisk first second) key = .ok found :=
  readModule_of_text (by simp [mergedDisk, Disk.files]) key

theorem screen_of_first_declaration_class :
    ∃ found, ((discover {} ⟨"/core/all.ts"⟩).run classFirst flatProject).1 = .ok found ∧
      ∃ screen ∈ found, screen.name = "X" := by
  have hsound : Inquiry.Sound classFirst flatProject := fun _ _ h => by cases h
  obtain ⟨names, hnames, hname⟩ : ∃ names, ((Project.exportedNames ⟨"/core/all.ts"⟩ false).run
      classFirst flatProject).1 = .ok names ∧ "X" ∈ names := exists_ok_and (by decide +kernel)
  obtain ⟨found, hrun, hends⟩ := screen_of_first_declaration hsound (readModule_merged _ _) {}
    ⟨"/core/all.ts"⟩ names "X" hnames hname
  have hnext : (⟨"/core/a.ts"⟩, "X") ∈ successors classFirst flatProject
      (Path.normalize ⟨"/core/all.ts"⟩, "X") := by decide +kernel
  have hend : EndsAt classFirst flatProject ⟨"/core/all.ts"⟩ "X" (⟨"/core/a.ts"⟩, "X") :=
    ⟨.single hnext, ⟨⟨"/core/a.ts"⟩, some "X", .classType⟩, by decide +kernel, by decide +kernel⟩
  exact ⟨found, hrun, (hends _ hend).2 (by decide +kernel)⟩

/-- A class after an interface of its name is not found, although it is exported and
its name is listed. -/
theorem screen_behind_interface :
    (∀ key, ∃ found, readModule interfaceFirst key = .ok found) ∧
    (∃ names, ((Project.exportedNames ⟨"/core/all.ts"⟩ false).run interfaceFirst
      flatProject).1 = .ok names ∧ "X" ∈ names) ∧
    EndsAt interfaceFirst flatProject ⟨"/core/all.ts"⟩ "X" (⟨"/core/a.ts"⟩, "X") ∧
    .classType ∈ exportedKinds (scriptAt interfaceFirst ⟨"/core/a.ts"⟩) "X" ∧
    ∃ found, ((discover {} ⟨"/core/all.ts"⟩).run interfaceFirst flatProject).1 = .ok found ∧
      ∀ screen ∈ found, screen.name ≠ "X" := by
  have hnext : (⟨"/core/a.ts"⟩, "X") ∈ successors interfaceFirst flatProject
      (Path.normalize ⟨"/core/all.ts"⟩, "X") := by decide +kernel
  have hend : EndsAt interfaceFirst flatProject ⟨"/core/all.ts"⟩ "X" (⟨"/core/a.ts"⟩, "X") :=
    ⟨.single hnext, ⟨⟨"/core/a.ts"⟩, some "X", .interfaceType⟩, by decide +kernel,
      by decide +kernel⟩
  obtain ⟨found, hrun⟩ : ∃ found, ((discover {} ⟨"/core/all.ts"⟩).run interfaceFirst
      flatProject).1 = .ok found := exists_ok (by decide +kernel)
  have hnone : ((discover {} ⟨"/core/all.ts"⟩).run interfaceFirst flatProject).1.toOption.map
      (·.map (·.name)) = some [] := by decide +kernel
  rw [hrun] at hnone
  obtain rfl : found = [] := List.map_eq_nil_iff.1 (Option.some.inj hnone)
  exact ⟨readModule_merged _ _, exists_ok_and (by decide +kernel), hend, by decide +kernel, [],
    hrun, fun screen hscreen => by cases hscreen⟩

end Sdk

end ScreenHooks
