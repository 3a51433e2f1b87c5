/-
Reading a core package again.

Preparing screens is put together from following exports and from keeping
failures. So it asks about paths that climb first only, and the fuel it is given
does not matter. On a disk that has grown away from what was asked, the same
screens are prepared again, with or without what a run remembers.

* **`Tolerant.prepareAll`** — what keeps failures holds of all of it;
* **`prepareAll_again`** — the prepared screens on a disk that has grown.
-/
import ScreenHooks.Proofs.Run.Preparing
import ScreenHooks.Proofs.Sdk.Questions

namespace ScreenHooks.Run

open Disk Script Sdk

variable {α β : Type}

/-- Prepares a screen of the package with the given root. -/
def prepareBelow (core : CoreConfig) (allow : Screen.AllowList) (found : FoundScreen)
    (root : Path) : ExceptT RunError Reading PreparedUnit := do
  let implementation ← companion found.name .implementation
    (root.join (core.implementationPath found.kebab))
  let declarations := root.join (core.declarationPath found.kebab)
  let _ ← companion found.name .declaration declarations
  let unit : Screen.Unit := ⟨found.name, found.kebab, implementation.hasDefaultExport⟩
  match ← attempt (extract declarations unit allow) with
  | .error e => throw (.parse declarations e.fullMessage)
  | .ok interfaces =>
    let marked ← markedOf found.resolved
    return ⟨unit, { interfaces with utilityMethods := interfaces.utilityMethods.insertAll marked }⟩

theorem prepare_run (core : CoreConfig) (allow : Screen.AllowList) (found : FoundScreen) :
    (prepare core allow found).run =
      read >>= fun scope => (prepareBelow core allow found scope.root).run := rfl

/-! ### Keeping failures -/

/-- A congruence that also holds of readings whose failures are kept. -/
structure Tolerant (R : (α : Type) → Reading α → Reading α → Prop) : Prop extends Congruence R where
  attempt {α : Type} {x y : Reading α} (h : R α x y) :
    R (Except Failure α) (attempt x) (attempt y)

namespace Tolerant

variable {R : (α : Type) → Reading α → Reading α → Prop} (hR : Tolerant R)

include hR

theorem runBind {ε : Type} {x y : ExceptT ε Reading α} {f g : α → ExceptT ε Reading β}
    (hx : R (Except ε α) x.run y.run) (hf : ∀ a, R (Except ε β) (f a).run (g a).run) :
    R (Except ε β) (x >>= f).run (y >>= g).run := by
  rw [ExceptT.run_bind, ExceptT.run_bind]
  refine hR.bind hx fun outcome => ?_
  cases outcome with
  | ok a => exact hf a
  | error e => exact hR.pure _

theorem runLift {ε : Type} {x y : Reading α} (h : R α x y) :
    R (Except ε α) (liftM x : ExceptT ε Reading α).run (liftM y : ExceptT ε Reading α).run :=
  hR.bind h fun a => hR.pure (Except.ok a)

theorem companion (unit : String) (role : CompanionRole) (path : Path) :
    R (Except RunError Module) (Run.companion unit role path).run
      (Run.companion unit role path).run := by
  unfold Run.companion
  refine hR.runBind (hR.runLift (hR.attempt (hR.load path))) fun outcome => ?_
  cases outcome with
  | error e => exact hR.pure _
  | ok found => cases found <;> exact hR.pure _

theorem markedOf (resolved : Resolved) :
    R (List String) (Run.markedOf resolved) (Run.markedOf resolved) := by
  unfold Run.markedOf
  refine hR.bind (hR.attempt (hR.load _)) fun outcome => ?_
  split <;> exact hR.pure _

variable (hnames : ∀ path typesToo,
  R Names (Project.exportedNames path typesToo) (Project.exportedNames path typesToo))

include hnames

theorem prepare (core : CoreConfig) (allow : Screen.AllowList) (found : FoundScreen) :
    R (Except RunError PreparedUnit) (Run.prepare core allow found).run
      (Run.prepare core allow found).run := by
  rw [prepare_run]
  refine hR.root fun root => ?_
  unfold prepareBelow
  refine hR.runBind (hR.companion _ _ _) fun implementation => ?_
  refine hR.runBind (hR.companion _ _ _) fun declarations => ?_
  refine hR.runBind (hR.runLift (hR.attempt (hR.extract hnames _ _ _))) fun outcome => ?_
  cases outcome with
  | error e => exact hR.pure _
  | ok interfaces => exact hR.runBind (hR.runLift (hR.markedOf _)) fun marked => hR.pure _

theorem discovery (config : Config) :
    R (List FoundScreen) (Run.discovery config) (Run.discovery config) :=
  hR.root fun root => hR.discover hnames config.naming (root.join config.core.screensBarrel)

theorem prepareAll (config : Config) (allow : Screen.AllowList) :
    R (List Prepared) (Run.prepareAll config allow) (Run.prepareAll config allow) := by
  rw [prepareAll_eq]
  refine hR.bind (hR.discovery hnames config) fun found => hR.mapM found fun screen => ?_
  refine hR.bind (hR.prepare hnames config.core allow screen) fun outcome => ?_
  cases outcome <;> exact hR.pure _

end Tolerant

theorem tolerant_alike (d : Disk) : Tolerant fun _ x y => Reading.Alike d x y where
  toCongruence := alike_congruence d
  attempt h := by
    intro s s' hroot hs hs'
    rw [attempt_inquiry, attempt_inquiry]
    exact (h s s' hroot hs hs').bind ⟨rfl, rfl⟩

theorem tolerant_downhill : Tolerant fun _ x y => x = y ∧ Reading.Downhill x where
  toCongruence := asks_congruence
  attempt := by
    rintro α x _ ⟨rfl, hx⟩
    refine ⟨rfl, fun scope d q hq => hx scope d q ?_⟩
    rw [attempt_inquiry, Inquiry.asked_bind] at hq
    rcases List.mem_append.1 hq with hq | hq
    · exact hq
    · cases hq

/-! ### A disk that has grown -/

section Grown

variable {places : List Place} {d d' : Disk} (hgrown : Grown places d d') (htree : IsTree d)
  {config : Config} {allow : Screen.AllowList} {p : Project}
  (hspots : ∀ q ∈ ((prepareAll config allow).inquiry (p.scope d)).asked d,
    d.spot q.path ∉ places)

include hgrown htree hspots

/-- A project that remembers nothing wrong prepares the same screens again. -/
theorem prepareAll_again {p' : Project} (hp : Inquiry.Sound d p) (hp' : Inquiry.Sound d' p')
    (hroot : p'.root = p.root) :
    ((prepareAll config allow).run d' p').1 = ((prepareAll config allow).run d p).1 := by
  have halike : ∀ e, (prepareAll config allow).Alike e (prepareAll config allow) := fun e =>
    (tolerant_alike e).prepareAll exportedNames_alike config allow
  have hdown : (prepareAll config allow).Downhill :=
    (tolerant_downhill.prepareAll (fun path typesToo => ⟨rfl, exportedNames_downhill path typesToo⟩)
      config allow).2
  have hscopes : (p.scope d).root = (p'.scope d').root := hroot.symm
  obtain ⟨hon, -⟩ := Reading.on_grown hgrown htree hdown halike hscopes (p.scope_enough d)
    (p'.scope_enough d') hspots
  rw [Reading.run, Reading.run, (Inquiry.answer_on hp).1, (Inquiry.answer_on hp').1, hon]

/-- What a project has learnt on the way is still true. -/
theorem sound_again (hknown : p.known = []) :
    Inquiry.Sound d' ((prepareAll config allow).run d p).2 := by
  have hp : Inquiry.Sound d p := by
    intro key found h
    rw [hknown] at h
    cases h
  have hdown : (prepareAll config allow).Downhill :=
    (tolerant_downhill.prepareAll (fun path typesToo => ⟨rfl, exportedNames_downhill path typesToo⟩)
      config allow).2
  intro key found hfound
  rcases Inquiry.known_of_answer hp hfound with h | h
  · rw [hknown] at h
    cases h
  · have hsame : Question.Same d d' (.module key) :=
      same_of_grown hgrown htree (hdown _ _ _ h) (hspots _ h)
    have hread : readModule d' key = readModule d key := hsame
    rw [hread]
    exact (Inquiry.answer_on hp).2.1 key found hfound

end Grown

end ScreenHooks.Run
