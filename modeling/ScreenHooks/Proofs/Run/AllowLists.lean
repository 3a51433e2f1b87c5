/-
What the documentation decides about.

The allow-list of the documentation says which interfaces a screen publishes, and
published interfaces are types. So the list decides about types only: the interfaces of
a screen are the same with any list, but for those published, and its module is the same
but for the import of types, the types of two accessors, and the re-exports of types.

* **`extract_allowed`** — an extraction with any list is the full one, cut to the list;
* **`prepareAll_allowed`** — so is the preparation of all screens;
* **`untyped_allowed`** — without its types a module is the same with any list;
* **`allowLists_types_only`** — all of this together.
-/
import ScreenHooks.Proofs.Hook.TypeImports
import ScreenHooks.Proofs.Run.ClassImport
import ScreenHooks.Proofs.Run.Preparing
import ScreenHooks.Proofs.Sdk.Resolvable

namespace ScreenHooks

/-- The interfaces of a screen, of which only those on the list are published. -/
def Screen.Interfaces.allowed (interfaces : Screen.Interfaces) (allow : Screen.AllowList) :
    Screen.Interfaces :=
  { interfaces with published := .ofList (interfaces.published.toList.filter allow.contains) }

/-! ### Modules without types -/

namespace Hook

/-- An accessor whose type is inferred. -/
def Accessor.untyped (accessor : Accessor) : Accessor := { accessor with type := none }

namespace Module

/-- A module that imports and exports no types, and whose accessors have none. -/
def untyped (module : Module) : Module :=
  { module with
    typeImports := .empty
    accessors := module.accessors.map Accessor.untyped
    typeExports := [] }

/-- Whether two modules are the same but for the import of types, the types of the
accessors of the screen's own models, and the re-exports of types. -/
structure SameButTypes (one other : Module) : Prop where
  classImport : one.lines[4]? = other.lines[4]?
  primary : one.primaryLines = other.primaryLines
  shared : one.sharedLines = other.sharedLines
  accessors : one.accessors.map Accessor.untyped = other.accessors.map Accessor.untyped
  wrappers : one.wrappers.map Wrapper.line = other.wrappers.map Wrapper.line
  hooks : one.hooks.flatMap BoundHook.lines = other.hooks.flatMap BoundHook.lines
  text : ∃ opening middle closing, ∀ module ∈ [one, other],
    module.text = endLines (opening ++ module.typeImportLines ++ middle ++
      module.accessors.map Accessor.line ++ closing ++ module.typeLines)

theorem classImport_eq (module : Module) : module.lines[4]? = module.openingLines[4]? := by
  rw [lines_eq]
  rfl

/-- No part of a module but those named depends on types. -/
theorem sameButTypes_of_untyped {one other : Module} (h : one.untyped = other.untyped) :
    SameButTypes one other where
  classImport := by
    rw [classImport_eq, classImport_eq]
    exact congrArg (fun module => module.openingLines[4]?) h
  primary := (congrArg primaryLines h :)
  shared := (congrArg sharedLines h :)
  accessors := congrArg Module.accessors h
  wrappers := congrArg (fun module => module.wrappers.map Wrapper.line) h
  hooks := congrArg (fun module => module.hooks.flatMap BoundHook.lines) h
  text := by
    have hopening : one.openingLines = other.openingLines := (congrArg openingLines h :)
    have hmiddle : one.middleLines = other.middleLines := (congrArg middleLines h :)
    have hclosing : one.closingLines = other.closingLines := (congrArg closingLines h :)
    refine ⟨one.openingLines, one.middleLines, one.closingLines, ?_⟩
    simp only [List.forall_mem_cons, text]
    refine ⟨by rw [lines_eq], ?_, List.forall_mem_nil _⟩
    rw [lines_eq, hopening, hmiddle, hclosing]

end Module

variable (settings : Settings) (unit : Screen.Unit) (interfaces : Screen.Interfaces)

theorem untyped_accessor? (model : String) (type : Option String) :
    (accessor? settings model type).toList.map Accessor.untyped =
      (accessor? settings model none).toList := by
  unfold accessor?
  split <;> rfl

/-- The list does not decide about anything else in a module. -/
theorem untyped_allowed (one other : Screen.AllowList) :
    (Module.of settings unit (interfaces.allowed one)).untyped =
      (Module.of settings unit (interfaces.allowed other)).untyped := by
  have haccessors : ∀ allow,
      (Module.of settings unit (interfaces.allowed allow)).accessors.map Accessor.untyped =
        (accessor? settings "screen" none).toList ++
          (accessor? settings "transaction" none).toList := by
    intro allow
    simp only [Module.of, List.map_append, untyped_accessor?]
  unfold Module.untyped
  rw [haccessors, haccessors]
  rfl

theorem published_empty : (interfaces.allowed .empty).published = .empty := by
  have hnone : interfaces.published.toList.filter Screen.AllowList.empty.contains = [] :=
    List.filter_eq_nil_iff.2 fun name _ => by
      simp [Screen.AllowList.empty, Screen.AllowList.contains, Names.contains, Names.empty]
  rw [Screen.Interfaces.allowed, hnone]
  rfl

/-- Where nothing is published, a module re-exports no types, and its accessors have none. -/
theorem module_of_empty : (Module.of settings unit (interfaces.allowed .empty)).typeLines = [] ∧
    ∀ accessor ∈ (Module.of settings unit (interfaces.allowed .empty)).accessors,
      accessor.type = none := by
  have hnone : ∀ model, specialized? (interfaces.allowed .empty) unit model = none := by
    intro model
    rw [specialized?, published_empty]
    rfl
  refine ⟨?_, fun accessor haccessor => ?_⟩
  · unfold Module.typeLines
    rw [if_pos]
    show (interfaces.allowed .empty).published.toList.isEmpty = true
    rw [published_empty]
    rfl
  · simp only [Module.of, hnone, accessor?, List.mem_append, Option.mem_toList,
      Option.ite_none_right_eq_some, Option.some.injEq] at haccessor
    rcases haccessor with ⟨-, rfl⟩ | ⟨-, rfl⟩ <;> rfl

end Hook

/-! ### Extractions -/

namespace Sdk

variable {d : Disk} {p : Project} {scope : Scope}

/-- What a reading keeps of a list where all its tests end. -/
theorem Reading.on_filterM {α : Type} {q : α → Reading Bool} {holds : α → Bool}
    (h : ∀ a, (q a).on d scope = .ok (holds a)) (l : List α) :
    (l.filterM q).on d scope = .ok (l.filter holds) := by
  have haux : ∀ kept,
      (l.filterAuxM q kept).on d scope = .ok ((l.filter holds).reverse ++ kept) := by
    induction l with
    | nil => exact fun kept => rfl
    | cons a rest ih =>
      intro kept
      rw [List.filterAuxM, on_bind (h a), ih, List.filter_cons]
      cases holds a <;> simp
  rw [List.filterM, on_bind (haux [])]
  simp [Reading.on]
  rfl

/-- Where all modules can be read, an extraction ends with the same interfaces with any
list, cut to the list. -/
theorem extract_allowed (hreadable : ∀ key, ∃ found, readModule d key = .ok found)
    (declarations : Path) (unit : Screen.Unit) : ∃ interfaces : Screen.Interfaces, ∀ allow,
      (extract declarations unit allow).on d (p.scope d) = .ok (interfaces.allowed allow) := by
  obtain ⟨names, hnames, -⟩ := mem_names_iff (p := p) declarations true fun key _ => hreadable key
  choose holds hholds using fun name => (ends_isInterface (p := p) declarations name).ok hreadable
  obtain ⟨members, hmembers⟩ :=
    (ends_membersInterface? (p := p) declarations unit.membersInterface).ok hreadable
  refine ⟨⟨(members.map (·.methods)).getD [], ⟨names.toList.filter holds, names.nodup.filter _⟩,
    members.isSome, .empty⟩, fun allow => ?_⟩
  have hpublished := Reading.on_filterM hholds (names.toList.filter allow.contains)
  rw [List.filter_comm] at hpublished
  unfold extract
  rw [Reading.on_bind hnames, Reading.on_bind hpublished, Reading.on_bind hmembers]
  rfl

end Sdk

/-! ### Runs -/

namespace Run

open Sdk Hook

/-- A screen of which only the interfaces on the list are published. -/
def PreparedUnit.allowed (screen : PreparedUnit) (allow : Screen.AllowList) : PreparedUnit :=
  { screen with interfaces := screen.interfaces.allowed allow }

variable {d : Disk} {p : Project}

/-- A screen is prepared alike with any list. -/
theorem preparedOn_allowed (hreadable : ∀ key, ∃ found, readModule d key = .ok found)
    (config : Config) (screen : FoundScreen) : ∃ outcome : Prepared, ∀ allow,
      preparedOn config allow (p.scope d) d screen = outcome.map (·.allowed allow) := by
  unfold preparedOn prepareOn
  cases companionOn d screen.name .implementation
      (implementationOf config.core (p.scope d) screen) with
  | error e => exact ⟨.error (screen.name, e), fun allow => rfl⟩
  | ok implementation =>
    cases companionOn d screen.name .declaration
        (declarationsOf config.core (p.scope d) screen) with
    | error e => exact ⟨.error (screen.name, e), fun allow => rfl⟩
    | ok declarations =>
      let unit : Screen.Unit := ⟨screen.name, screen.kebab, implementation.hasDefaultExport⟩
      obtain ⟨interfaces, hinterfaces⟩ := extract_allowed (p := p) hreadable
        (declarationsOf config.core (p.scope d) screen) unit
      refine ⟨.ok ⟨unit, { interfaces with
        utilityMethods := interfaces.utilityMethods.insertAll (markedOn d screen.resolved) }⟩,
        fun allow => ?_⟩
      have hextract := hinterfaces allow
      unfold Reading.on at hextract
      simp only []
      rw [hextract]
      rfl

/-- All screens are prepared alike with any list. -/
theorem prepareAll_allowed (hreadable : ∀ key, ∃ found, readModule d key = .ok found)
    (config : Config) : ∃ outcome : Except Failure (List Prepared), ∀ allow,
      (prepareAll config allow).on d (p.scope d) =
        outcome.map (·.map (·.map (·.allowed allow))) := by
  choose outcome houtcome using preparedOn_allowed (p := p) hreadable config
  refine ⟨((discovery config).on d (p.scope d)).map (·.map outcome), fun allow => ?_⟩
  have hprepared : preparedOn config allow (p.scope d) d =
      fun screen => (outcome screen).map (·.allowed allow) :=
    funext fun screen => houtcome screen allow
  unfold Reading.on
  rw [prepareAll_on, hprepared]
  cases ((discovery config).inquiry (p.scope d)).on d with
  | error e => rfl
  | ok found => simp [Except.map]

/-- Where all modules can be read, the list decides neither whether a screen is extracted
or prepared nor about anything but its published interfaces. These decide about nothing in
its module but the types; and where none are published, no types are re-exported, and the
accessors have none. -/
theorem allowLists_types_only (hp : Inquiry.Sound d p)
    (hreadable : ∀ key, ∃ found, readModule d key = .ok found) (config : Config) :
    (∀ declarations unit, ∃ interfaces : Screen.Interfaces, ∀ allow,
      ((extract declarations unit allow).run d p).1 = .ok (interfaces.allowed allow)) ∧
    (∃ outcome : Except Failure (List Prepared), ∀ allow,
      ((prepareAll config allow).run d p).1 = outcome.map (·.map (·.map (·.allowed allow)))) ∧
    ∀ (settings : Settings) (unit : Screen.Unit) (interfaces : Screen.Interfaces),
      (∀ one other, Module.SameButTypes (.of settings unit (interfaces.allowed one))
        (.of settings unit (interfaces.allowed other))) ∧
      (Module.of settings unit (interfaces.allowed .empty)).typeLines = [] ∧
      ∀ accessor ∈ (Module.of settings unit (interfaces.allowed .empty)).accessors,
        accessor.type = none := by
  refine ⟨fun declarations unit => ?_, ?_, fun settings unit interfaces => ⟨fun one other =>
    Module.sameButTypes_of_untyped (untyped_allowed settings unit interfaces one other),
    module_of_empty settings unit interfaces⟩⟩
  · obtain ⟨interfaces, hinterfaces⟩ := extract_allowed (p := p) hreadable declarations unit
    refine ⟨interfaces, fun allow => ?_⟩
    rw [Reading.run_eq hp, hinterfaces]
  · obtain ⟨outcome, houtcome⟩ := prepareAll_allowed (p := p) hreadable config
    refine ⟨outcome, fun allow => ?_⟩
    rw [Reading.run_eq hp, houtcome]

/-- A screen whose file publishes an interface of its own. -/
def publishedDisk : Disk :=
  loginDisk "export \x7b default as Login \x7d from './login'"
    "export default class Login \x7b\x7d\nexport interface ScreenMembersOnLogin \x7b\x7d"

/-- The interfaces that the prepared screens publish. -/
def publishedNames (outcome : Except Failure (List Prepared)) : List (List String) :=
  (outcome.toOption.getD []).filterMap fun screen =>
    screen.toOption.map (·.interfaces.published.toList)

theorem allowLists_types_only_login :
    ∃ outcome : Except Failure (List Prepared),
      ((prepareAll loginConfig .empty).run publishedDisk flatProject).1 =
        outcome.map (·.map (·.map (·.allowed .empty))) ∧
      ((prepareAll loginConfig (.ofNames ["ScreenMembersOnLogin"])).run publishedDisk
        flatProject).1 =
          outcome.map (·.map (·.map (·.allowed (.ofNames ["ScreenMembersOnLogin"])))) ∧
      publishedNames ((prepareAll loginConfig .empty).run publishedDisk flatProject).1 = [[]] ∧
      publishedNames ((prepareAll loginConfig (.ofNames ["ScreenMembersOnLogin"])).run publishedDisk
        flatProject).1 = [["ScreenMembersOnLogin"]] := by
  have hsound : Inquiry.Sound publishedDisk flatProject := fun _ _ h => by cases h
  obtain ⟨-, ⟨outcome, houtcome⟩, -⟩ :=
    allowLists_types_only hsound (readModule_login _ _) loginConfig
  exact ⟨outcome, houtcome _, houtcome _, by decide +kernel, by decide +kernel⟩

end Run

end ScreenHooks
