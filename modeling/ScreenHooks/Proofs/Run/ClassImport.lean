/-
What the module of a screen imports as its class.

A screen is the class that the barrel exports by a name. Its module imports the class
from the implementation file, which the kebab name alone tells: by `default` if some
export item there goes by this name, and by the screen's own name otherwise. Nothing
compares what the two files lead to. So the import is that of the class exactly if the
name that is imported leads to it; it is whenever the barrel itself goes this way and
there is nothing else to be found.

* **`resolved_iff_leadsTo`** — names that lead to one declaration;
* **`default_of_leadsTo`** — a default export that leads anywhere is seen;
* **`classImport_iff`** — when the class is imported;
* **`classImport_helper`** — a default export beside the class is imported instead.
-/
import ScreenHooks.Proofs.Hook.Exports
import ScreenHooks.Proofs.Run.Preparing
import ScreenHooks.Proofs.Sdk.Namesakes

namespace ScreenHooks

/-- The name by which the module of a screen imports the class. -/
def Screen.Unit.importName (unit : Screen.Unit) : String :=
  if unit.defaultExport then "default" else unit.name

/-! ### Names and the declarations that they lead to -/

namespace Sdk

open Script Relation

variable {d : Disk} {p : Project} {path : Path} {name : String} {start node : Node}
  {resolved : Resolved}

/-- Whether a name leads to a declaration. -/
def LeadsTo (d : Disk) (p : Project) (node : Node) (resolved : Resolved) : Prop :=
  ∃ last, Reaches d p node last ∧ answer? d last = some resolved

/-- Whether a name leads to one declaration at most. -/
def Unambiguous (d : Disk) (p : Project) (node : Node) : Prop :=
  ∀ one other, LeadsTo d p node one → LeadsTo d p node other → one = other

theorem LeadsTo.of_reaches (h : LeadsTo d p node resolved) (hreach : Reaches d p start node) :
    LeadsTo d p start resolved := by
  obtain ⟨last, hlast, hanswer⟩ := h
  exact ⟨last, hreach.trans hlast, hanswer⟩

theorem Unambiguous.of_reaches (h : Unambiguous d p start) (hreach : Reaches d p start node) :
    Unambiguous d p node :=
  fun one other hone hother => h one other (hone.of_reaches hreach) (hother.of_reaches hreach)

theorem leadsTo_of_resolved
    (h : (Project.resolveExport path name).on d (p.scope d) = .ok (some resolved)) :
    LeadsTo d p (path.normalize, name) resolved :=
  (within_of_resolved h).reaches

/-- A name that leads to one declaration is resolved to it. -/
theorem resolved_iff_leadsTo (hreadable : ∀ key, ∃ found, readModule d key = .ok found)
    (honly : Unambiguous d p (path.normalize, name)) (hshort : Short d p (path.normalize, name)) :
    (Project.resolveExport path name).on d (p.scope d) = .ok (some resolved) ↔
      LeadsTo d p (path.normalize, name) resolved := by
  refine ⟨leadsTo_of_resolved, fun hleads => ?_⟩
  obtain ⟨last, hreach, hanswer⟩ := hleads
  obtain ⟨other, hother⟩ := (resolved_iff (fun node _ => hreadable node.1) hshort).2
    ⟨last, hreach, by simp [hanswer]⟩
  rw [hother, honly resolved other ⟨last, hreach, hanswer⟩ (leadsTo_of_resolved hother)]

theorem hasDefaultExport_iff {module : Module} :
    module.hasDefaultExport = true ↔ ∃ item ∈ module.exports, item.name? = some "default" := by
  simp [Module.hasDefaultExport]

/-- A module whose default export leads anywhere has one: no star export leads on from
this name. -/
theorem default_of_leadsTo {key : Path} {module : Module}
    (hmodule : readModule d key = .ok (some module))
    (h : LeadsTo d p (key, "default") resolved) : module.hasDefaultExport = true := by
  rw [hasDefaultExport_iff]
  cases hlead : explicitLead? module "default" with
  | some lead => exact item_of_explicitLead hlead
  | none =>
    -- nothing is declared by this name, and star exports are not searched for it
    exfalso
    obtain ⟨last, hreach, hanswer⟩ := h
    rcases ReflTransGen.cases_head hreach with rfl | ⟨next, hnext, -⟩
    · simp only [answer?, moduleAt?_of_read hmodule, Option.bind_some, hlead] at hanswer
      cases hanswer
    · simp only [successors, moduleAt?_of_read hmodule, hlead, starSources] at hnext
      cases hnext

end Sdk

/-! ### The import of the class -/

namespace Run

open Script Sdk Text

variable {d : Disk} {p : Project} {config : Config} {allow : Screen.AllowList}

/-- The path of the implementation file of a screen. -/
def implementationAt (p : Project) (core : CoreConfig) (unit : Screen.Unit) : Path :=
  p.path (core.implementationPath unit.kebab)

/-- The name of a screen in the barrel. -/
def barrelNode (p : Project) (core : CoreConfig) (unit : Screen.Unit) : Node :=
  ((p.path core.screensBarrel).normalize, unit.name)

/-- The name in the implementation file by which the class of a screen is imported. -/
def importNode (p : Project) (core : CoreConfig) (unit : Screen.Unit) : Node :=
  ((implementationAt p core unit).normalize, unit.importName)

/-- The import of the class in the module of a screen. -/
def classImport (settings : Hook.Settings) (unit : Screen.Unit) : Statement :=
  .imports [⟨unit.importName, unit.name, false⟩]
    (unquote (singleQuoted (settings.coreSubpath unit)))

theorem classImport_mem {settings : Hook.Settings} {unit : Screen.Unit}
    {interfaces : Screen.Interfaces} (h : (Hook.Module.of settings unit interfaces).Spelled)
    (dialect : Dialect) :
    classImport settings unit ∈
      statementsOf dialect (Hook.Module.of settings unit interfaces).text := by
  have hread : statementsOf dialect (Hook.Module.of settings unit interfaces).text =
      (Hook.Module.of settings unit interfaces).statements :=
    h.states.read dialect (Hook.endLines_toList _) (Hook.Module.Spelled.text_head _)
  have himports : classImport settings unit ∈
      (Hook.Module.of settings unit interfaces).importStatements := by
    unfold Hook.Module.importStatements
    simp only [List.mem_append]
    exact .inl (.inl (.inl (List.mem_cons_of_mem _ List.mem_cons_self)))
  rw [hread]
  simp [Hook.Module.statements, himports]

/-- A prepared screen is a class that the barrel exports, with the default export that its
implementation file has. -/
theorem found_of_prepared {prepared : List Prepared} {screen : PreparedUnit}
    (hrun : (prepareAll config allow).on d (p.scope d) = .ok prepared)
    (hscreen : .ok screen ∈ prepared) :
    ∃ module resolved,
      readModule d (implementationAt p config.core screen.unit).normalize = .ok (some module) ∧
      screen.unit.defaultExport = module.hasDefaultExport ∧
      (Project.resolveExport (p.path config.core.screensBarrel) screen.unit.name).on d (p.scope d) =
        .ok (some resolved) ∧
      resolved.kind = .classType := by
  have hbarrel : (p.scope d).path config.core.screensBarrel =
      p.path config.core.screensBarrel := rfl
  rw [Reading.on, prepareAll_on, discovery_inquiry, hbarrel, ← Reading.on] at hrun
  cases hfound : (discover config.naming (p.path config.core.screensBarrel)).on d (p.scope d) with
  | error e =>
    rw [hfound] at hrun
    cases hrun
  | ok found =>
    rw [hfound] at hrun
    obtain rfl := Except.ok.inj hrun
    obtain ⟨unit, hunit, hprepared⟩ := List.mem_map.1 hscreen
    obtain ⟨module, hmodule, hnames⟩ := preparedOn_ok hprepared
    obtain ⟨-, hresolved, hclass, -⟩ := (mem_discover_iff hfound).1 hunit
    rw [hnames]
    exact ⟨module, unit.resolved, hmodule, rfl, hresolved, hclass⟩

/-- The module of a prepared screen imports its class by `default` exactly if an export
item of the implementation file goes by this name. Where what is imported leads to one
declaration at most, and no simple chain from it is too long, it is the class exactly if
it leads there. It is so where the barrel leads through it, and to one declaration only,
as soon as it leads to any. -/
theorem classImport_iff (hp : Inquiry.Sound d p)
    (hreadable : ∀ key, ∃ found, readModule d key = .ok found) {prepared : List Prepared}
    (hrun : ((prepareAll config allow).run d p).1 = .ok prepared) {screen : PreparedUnit}
    (hscreen : .ok screen ∈ prepared) :
    ∃ module resolved,
      readModule d (implementationAt p config.core screen.unit).normalize = .ok (some module) ∧
      (screen.unit.defaultExport = true ↔ ∃ item ∈ module.exports, item.name? = some "default") ∧
      (∀ any, LeadsTo d p ((implementationAt p config.core screen.unit).normalize, "default") any →
        screen.unit.defaultExport = true) ∧
      ((Hook.Module.of config.settings screen.unit screen.interfaces).Spelled → ∀ dialect,
        classImport config.settings screen.unit ∈ statementsOf dialect
          (Hook.Module.of config.settings screen.unit screen.interfaces).text) ∧
      ((Project.resolveExport (p.path config.core.screensBarrel) screen.unit.name).run d p).1 =
        .ok (some resolved) ∧
      resolved.kind = .classType ∧
      (Short d p (importNode p config.core screen.unit) →
        (Unambiguous d p (importNode p config.core screen.unit) →
          (((Project.resolveExport (implementationAt p config.core screen.unit)
            screen.unit.importName).run d p).1 = .ok (some resolved) ↔
              LeadsTo d p (importNode p config.core screen.unit) resolved)) ∧
        (Unambiguous d p (barrelNode p config.core screen.unit) →
          Reaches d p (barrelNode p config.core screen.unit)
            (importNode p config.core screen.unit) →
          (((Project.resolveExport (implementationAt p config.core screen.unit)
            screen.unit.importName).run d p).1 = .ok (some resolved) ↔
              ∃ any, LeadsTo d p (importNode p config.core screen.unit) any))) := by
  rw [Reading.run_eq hp] at hrun
  obtain ⟨module, resolved, hmodule, hdefault, hresolved, hclass⟩ := found_of_prepared hrun hscreen
  refine ⟨module, resolved, hmodule, ?_, fun any hany => ?_, fun h => classImport_mem h, ?_, hclass,
    fun hshort => ⟨fun honly => ?_, fun honly hreach => ?_⟩⟩
  · rw [hdefault, hasDefaultExport_iff]
  · rw [hdefault]
    exact default_of_leadsTo hmodule hany
  · rw [Reading.run_eq hp]
    exact hresolved
  · rw [Reading.run_eq hp]
    exact resolved_iff_leadsTo hreadable honly hshort
  · have hleads : (Project.resolveExport (implementationAt p config.core screen.unit)
        screen.unit.importName).on d (p.scope d) = .ok (some resolved) ↔
          LeadsTo d p (importNode p config.core screen.unit) resolved :=
      resolved_iff_leadsTo hreadable (honly.of_reaches hreach) hshort
    rw [Reading.run_eq hp, hleads]
    refine ⟨fun hleads => ⟨resolved, hleads⟩, fun ⟨any, hany⟩ => ?_⟩
    -- what is imported leads to no other declaration than the barrel does
    obtain rfl := honly any resolved (hany.of_reaches hreach) (leadsTo_of_resolved hresolved)
    exact hany

/-- A core package with a barrel and one screen. -/
def loginDisk (barrel login : String) : Disk :=
  { entries := [(["core"], .directory), (["core", "all.ts"], .file (.text barrel)),
      (["core", "login.ts"], .file (.text login))] }

/-- The files of a screen are named by its kebab name alone. -/
def loginConfig : Config :=
  { core := { screensBarrel := ⟨"all.ts"⟩, implementationPattern := "\x7bkebab\x7d.ts",
              declarationPattern := "\x7bkebab\x7d.ts" } }

theorem readModule_login (barrel login : String) (key : Path) :
    ∃ found, readModule (loginDisk barrel login) key = .ok found :=
  readModule_of_text (by simp [loginDisk, Disk.files]) key

/-- The screens that were prepared. -/
def preparedUnits (outcome : Except Failure (List Prepared)) : List Screen.Unit :=
  (outcome.toOption.getD []).filterMap fun screen => screen.toOption.map (·.unit)

theorem exists_prepared {outcome : Except Failure (List Prepared)} {unit : Screen.Unit}
    (h : unit ∈ preparedUnits outcome) :
    ∃ prepared screen, outcome = .ok prepared ∧ .ok screen ∈ prepared ∧ screen.unit = unit := by
  cases outcome with
  | error e => cases h
  | ok prepared =>
    obtain ⟨screen, hscreen, hunit⟩ := List.mem_filterMap.1 h
    cases screen with
    | error e => cases hunit
    | ok screen => exact ⟨prepared, screen, rfl, hscreen, Option.some.inj hunit⟩

/-- A barrel that passes on the default export of the screen. -/
def passedDisk : Disk :=
  loginDisk "export \x7b default as Login \x7d from './login'" "export default class Login \x7b\x7d"

theorem classImport_iff_passed :
    ∃ prepared screen resolved,
      ((prepareAll loginConfig .empty).run passedDisk flatProject).1 = .ok prepared ∧
      .ok screen ∈ prepared ∧ screen.unit.importName = "default" ∧
      ((Project.resolveExport ⟨"/core/login.ts"⟩ "default").run passedDisk flatProject).1 =
        .ok (some resolved) ∧
      ((Project.resolveExport ⟨"/core/all.ts"⟩ "Login").run passedDisk flatProject).1 =
        .ok (some resolved) ∧ resolved.kind = .classType := by
  have hsound : Inquiry.Sound passedDisk flatProject := fun _ _ h => by cases h
  have hlogin : ⟨"Login", "login", true⟩ ∈ preparedUnits
      ((prepareAll loginConfig .empty).run passedDisk flatProject).1 := by decide +kernel
  obtain ⟨prepared, screen, hrun, hscreen, hunit⟩ := exists_prepared hlogin
  obtain ⟨module, resolved, -, -, -, -, hbarrel, hclass, himport⟩ :=
    classImport_iff hsound (readModule_login _ _) hrun hscreen
  rw [hunit] at hbarrel himport
  have hnodes : barrelNode flatProject loginConfig.core ⟨"Login", "login", true⟩ =
        (⟨"/core/all.ts"⟩, "Login") ∧
      importNode flatProject loginConfig.core ⟨"Login", "login", true⟩ =
        (⟨"/core/login.ts"⟩, "default") := by decide +kernel
  have hpaths : flatProject.path loginConfig.core.screensBarrel = ⟨"/core/all.ts"⟩ ∧
      implementationAt flatProject loginConfig.core ⟨"Login", "login", true⟩ =
        ⟨"/core/login.ts"⟩ := by decide +kernel
  rw [hnodes.1, hnodes.2, hpaths.2] at himport
  rw [hpaths.1] at hbarrel
  have hnext : (⟨"/core/login.ts"⟩, "default") ∈
      successors passedDisk flatProject (⟨"/core/all.ts"⟩, "Login") := by decide +kernel
  have hclosed : ∀ node ∈ [((⟨"/core/all.ts"⟩ : Path), "Login"), (⟨"/core/login.ts"⟩, "default")],
      successors passedDisk flatProject node ⊆
        [(⟨"/core/all.ts"⟩, "Login"), (⟨"/core/login.ts"⟩, "default")] := by decide +kernel
  have hlast : ∀ node ∈ [((⟨"/core/login.ts"⟩ : Path), "default")],
      successors passedDisk flatProject node ⊆ [(⟨"/core/login.ts"⟩, "default")] := by
    decide +kernel
  have hanswers : ∀ node ∈ [((⟨"/core/all.ts"⟩ : Path), "Login"), (⟨"/core/login.ts"⟩, "default")],
      ∀ answer ∈ answer? passedDisk node,
        answer = ⟨⟨"/core/login.ts"⟩, some "Login", .classType⟩ := by decide +kernel
  have hshort : Short passedDisk flatProject (⟨"/core/login.ts"⟩, "default") :=
    short_of_few (show [((⟨"/core/login.ts"⟩ : Path), "default")].length ≤ maxDepth + 1 by decide)
      fun node => mem_of_reaches List.mem_cons_self hlast
  have honly : Unambiguous passedDisk flatProject (⟨"/core/all.ts"⟩, "Login") := by
    have hleads : ∀ one, LeadsTo passedDisk flatProject (⟨"/core/all.ts"⟩, "Login") one →
        one = ⟨⟨"/core/login.ts"⟩, some "Login", .classType⟩ := fun one ⟨last, hreach, hanswer⟩ =>
      hanswers last (mem_of_reaches List.mem_cons_self hclosed hreach) one hanswer
    exact fun one other hone hother => (hleads one hone).trans (hleads other hother).symm
  have hresolved := ((himport hshort).2 honly (.single hnext)).2
    ⟨⟨⟨"/core/login.ts"⟩, some "Login", .classType⟩, _, .refl, by decide +kernel⟩
  exact ⟨prepared, screen, resolved, hrun, hscreen, by rw [hunit]; rfl, hresolved, hbarrel, hclass⟩

/-- A barrel that passes on a class beside which there is a default export. -/
def helperDisk : Disk :=
  loginDisk "export \x7b Login \x7d from './login'"
    "export class Login \x7b\x7d\nexport default function helper() \x7b\x7d"

/-- A default export beside the class is imported instead of it. -/
theorem classImport_helper :
    (∀ key, ∃ found, readModule helperDisk key = .ok found) ∧
    ∃ prepared screen,
      ((prepareAll loginConfig .empty).run helperDisk flatProject).1 = .ok prepared ∧
      .ok screen ∈ prepared ∧ screen.unit = ⟨"Login", "login", true⟩ ∧
      ((Project.resolveExport ⟨"/core/all.ts"⟩ "Login").run helperDisk flatProject).1 =
        .ok (some ⟨⟨"/core/login.ts"⟩, some "Login", .classType⟩) ∧
      ((Project.resolveExport ⟨"/core/login.ts"⟩ "default").run helperDisk flatProject).1 =
        .ok (some ⟨⟨"/core/login.ts"⟩, some "helper", .function⟩) := by
  have hlogin : ⟨"Login", "login", true⟩ ∈ preparedUnits
      ((prepareAll loginConfig .empty).run helperDisk flatProject).1 := by decide +kernel
  obtain ⟨prepared, screen, hrun, hscreen, hunit⟩ := exists_prepared hlogin
  exact ⟨readModule_login _ _, prepared, screen, hrun, hscreen, hunit, by decide +kernel,
    by decide +kernel⟩

end Run

end ScreenHooks
