/-
Preparing screens from a disk alone.

Preparing a screen reads its two files, its interfaces and the class behind it,
and whatever fails becomes the outcome of that screen. So the prepared screens
of a package are those that are found, each prepared by itself.

* **`prepare_on`** — one screen;
* **`prepareAll_on`** — all of them;
* **`readAll_eq`** — all that a run reads.
-/
import ScreenHooks.Proofs.Sdk.Readings
import ScreenHooks.Run.Generator

namespace ScreenHooks.Run

open Script Sdk

variable {α β : Type} {d : Disk} {scope : Scope}

/-! ### Kept failures -/

theorem attempt_on (x : Reading α) :
    ((attempt x).inquiry scope).on d = .ok ((x.inquiry scope).on d) := by
  rw [attempt_inquiry, Inquiry.on_bind]
  rfl

theorem bind_on (x : Reading α) (f : α → Reading β) :
    ((x >>= f).inquiry scope).on d = match (x.inquiry scope).on d with
      | .ok a => ((f a).inquiry scope).on d
      | .error e => .error e := by
  rw [Reading.inquiry_bind, Inquiry.on_bind]
  cases (x.inquiry scope).on d <;> rfl

theorem load_on (path : Path) :
    ((Project.load path).inquiry scope).on d = readModule d path.normalize := rfl

theorem run_bind_on {ε : Type} (x : ExceptT ε Reading α) (f : α → ExceptT ε Reading β) :
    ((x >>= f).run.inquiry scope).on d = match (x.run.inquiry scope).on d with
      | .ok (.ok a) => ((f a).run.inquiry scope).on d
      | .ok (.error e) => .ok (.error e)
      | .error e => .error e := by
  rw [ExceptT.run_bind, bind_on]
  cases (x.run.inquiry scope).on d with
  | error e => rfl
  | ok outcome => cases outcome <;> rfl

theorem run_lift_on {ε : Type} (x : Reading α) :
    ((liftM x : ExceptT ε Reading α).run.inquiry scope).on d =
      ((x.inquiry scope).on d).map Except.ok := by
  show ((x >>= fun a => pure (Except.ok a)).inquiry scope).on d = _
  rw [bind_on]
  cases (x.inquiry scope).on d <;> rfl

/-! ### One screen -/

/-- The file of a screen, as a disk holds it. -/
def companionOn (d : Disk) (unit : String) (role : CompanionRole) (path : Path) :
    Except RunError Module :=
  match readModule d path.normalize with
  | .ok (some module) => .ok module
  | .ok none => .error (.missingCompanion unit role path)
  | .error e => .error (.parse path e.fullMessage)

/-- The methods that the class of a screen marks on a disk. -/
def markedOn (d : Disk) (resolved : Resolved) : List String :=
  match resolved.localName, readModule d resolved.module.normalize with
  | some name, .ok (some module) => (module.markedMethods.lookup name).getD []
  | _, _ => []

/-- The path of a screen's implementation file. -/
def implementationOf (core : CoreConfig) (scope : Scope) (found : FoundScreen) : Path :=
  scope.path (core.implementationPath found.kebab)

/-- The path of a screen's declaration file. -/
def declarationsOf (core : CoreConfig) (scope : Scope) (found : FoundScreen) : Path :=
  scope.path (core.declarationPath found.kebab)

/-- A screen as it is prepared from a disk. -/
def prepareOn (core : CoreConfig) (allow : Screen.AllowList) (scope : Scope) (d : Disk)
    (found : FoundScreen) : Except RunError PreparedUnit :=
  match companionOn d found.name .implementation (implementationOf core scope found),
      companionOn d found.name .declaration (declarationsOf core scope found) with
  | .error e, _ | .ok _, .error e => .error e
  | .ok implementation, .ok _ =>
    let unit : Screen.Unit := ⟨found.name, found.kebab, implementation.hasDefaultExport⟩
    match ((extract (declarationsOf core scope found) unit allow).inquiry scope).on d with
    | .error e => .error (.parse (declarationsOf core scope found) e.fullMessage)
    | .ok interfaces =>
      .ok ⟨unit, { interfaces with
        utilityMethods := interfaces.utilityMethods.insertAll (markedOn d found.resolved) }⟩

theorem companion_on (unit : String) (role : CompanionRole) (path : Path) :
    ((companion unit role path).run.inquiry scope).on d = .ok (companionOn d unit role path) := by
  unfold companion companionOn
  rw [run_bind_on, run_lift_on, attempt_on, load_on]
  cases readModule d path.normalize with
  | error e => rfl
  | ok found => cases found <;> rfl

theorem markedOf_on (resolved : Resolved) :
    ((markedOf resolved).inquiry scope).on d = .ok (markedOn d resolved) := by
  unfold markedOf markedOn
  rw [bind_on, attempt_on, load_on]
  cases resolved.localName with
  | none => rfl
  | some name =>
    cases readModule d resolved.module.normalize with
    | error e => rfl
    | ok found => cases found <;> rfl

theorem prepare_on (core : CoreConfig) (allow : Screen.AllowList) (found : FoundScreen) :
    ((prepare core allow found).run.inquiry scope).on d = .ok (prepareOn core allow scope d found) := by
  unfold prepare prepareOn implementationOf declarationsOf
  rw [run_bind_on]
  have hscope : ((read : ExceptT RunError Reading Scope).run.inquiry scope).on d = .ok (.ok scope) :=
    rfl
  rw [hscope]
  simp only []
  rw [run_bind_on, companion_on]
  -- the implementation, the declarations, what they tell
  cases companionOn d found.name .implementation (scope.path (core.implementationPath found.kebab)) with
  | error e => rfl
  | ok implementation =>
    simp only []
    rw [run_bind_on, companion_on]
    cases companionOn d found.name .declaration (scope.path (core.declarationPath found.kebab)) with
    | error e => rfl
    | ok declarations =>
      simp only []
      rw [run_bind_on, run_lift_on, attempt_on]
      cases ((extract (scope.path (core.declarationPath found.kebab))
          ⟨found.name, found.kebab, implementation.hasDefaultExport⟩ allow).inquiry scope).on d with
      | error e => rfl
      | ok interfaces =>
        simp only [Except.map]
        rw [run_bind_on, run_lift_on, markedOf_on]
        rfl

/-! ### All screens -/

/-- What becomes of a screen that is found. -/
def preparedOn (config : Config) (allow : Screen.AllowList) (scope : Scope) (d : Disk)
    (found : FoundScreen) : Prepared :=
  (prepareOn config.core allow scope d found).mapError fun e => (found.name, e)

theorem companionOn_ok {unit : String} {role : CompanionRole} {path : Path} {module : Module}
    (h : companionOn d unit role path = .ok module) :
    readModule d path.normalize = .ok (some module) := by
  unfold companionOn at h
  split at h
  next hread => rw [hread, Except.ok.inj h]
  next => cases h
  next => cases h

/-- A prepared screen has the names of the screen that was found, and the implementation
file says whether there is a default export. -/
theorem preparedOn_ok {config : Config} {allow : Screen.AllowList} {found : FoundScreen}
    {screen : PreparedUnit} (h : preparedOn config allow scope d found = .ok screen) :
    ∃ implementation,
      readModule d (implementationOf config.core scope found).normalize =
        .ok (some implementation) ∧
      screen.unit = ⟨found.name, found.kebab, implementation.hasDefaultExport⟩ := by
  have hprepared : prepareOn config.core allow scope d found = .ok screen := by
    unfold preparedOn at h
    cases hprepare : prepareOn config.core allow scope d found with
    | error e =>
      rw [hprepare] at h
      cases h
    | ok unit =>
      rw [hprepare] at h
      exact congrArg Except.ok (Except.ok.inj h)
  unfold prepareOn at hprepared
  split at hprepared
  next => cases hprepared
  next => cases hprepared
  next implementation _ himplementation _ =>
    refine ⟨implementation, companionOn_ok himplementation, ?_⟩
    simp only [] at hprepared
    split at hprepared
    next => cases hprepared
    next => rw [← Except.ok.inj hprepared]

/-- The screens that are found in the core package. -/
def discovery (config : Config) : Reading (List FoundScreen) := do
  discover config.naming ((← read).path config.core.screensBarrel)

theorem discovery_inquiry (config : Config) (scope : Scope) :
    (discovery config).inquiry scope =
      (discover config.naming (scope.path config.core.screensBarrel)).inquiry scope := by
  rw [discovery, Reading.inquiry_read]

/-- Prepares a screen and keeps its outcome. -/
def prepareFound (config : Config) (allow : Screen.AllowList) (screen : FoundScreen) :
    Reading Prepared := do
  match ← (prepare config.core allow screen).run with
  | .ok unit => return .ok unit
  | .error e => return .error (screen.name, e)

theorem prepareAll_eq (config : Config) (allow : Screen.AllowList) :
    prepareAll config allow =
      discovery config >>= fun found => found.mapM (prepareFound config allow) := by
  unfold prepareAll discovery
  rw [bind_assoc]
  rfl

theorem mapM_on (l : List α) (f : α → Reading β) (g : α → β)
    (h : ∀ a, ((f a).inquiry scope).on d = .ok (g a)) :
    ((l.mapM f).inquiry scope).on d = .ok (l.map g) := by
  induction l with
  | nil => rfl
  | cons a rest ih =>
    rw [List.mapM_cons, bind_on, h]
    simp only []
    rw [bind_on, ih]
    rfl

/-- The prepared screens are those that are found, each prepared by itself. -/
theorem prepareAll_on (config : Config) (allow : Screen.AllowList) :
    ((prepareAll config allow).inquiry scope).on d =
      (((discovery config).inquiry scope).on d).map fun found =>
        found.map (preparedOn config allow scope d) := by
  rw [prepareAll_eq, bind_on]
  cases ((discovery config).inquiry scope).on d with
  | error e => rfl
  | ok found =>
    refine mapM_on found _ _ fun screen => ?_
    unfold prepareFound preparedOn
    rw [bind_on, prepare_on]
    cases prepareOn config.core allow scope d screen <;> rfl

/-! ### What a run reads -/

namespace Generator

variable {g : Generator}

theorem open?_ok {home : Option String} {config : Config} (h : open? d home config = .ok g) :
    ∃ root, d.canonical (expandHome home config.core.root) = .ok root ∧
      g = ⟨config, home, { root := root },
        .load d (root.join config.core.docsIndex) config.core.docsInterfaceKind⟩ := by
  unfold open? Project.open? at h
  cases hroot : d.canonical (expandHome home config.core.root) with
  | error cause =>
    rw [hroot] at h
    cases h
  | ok root =>
    rw [hroot] at h
    exact ⟨root, rfl, (Except.ok.inj h).symm⟩

/-- A project that has just been opened remembers nothing. -/
theorem sound_of_open {home : Option String} {config : Config} (h : open? d home config = .ok g)
    (other : Disk) : Inquiry.Sound other g.project := by
  obtain ⟨root, -, rfl⟩ := open?_ok h
  intro key found hknown
  cases hknown

/-- What a run knows before it reads. -/
def readingScope (g : Generator) (d : Disk) : Scope := g.project.scope d

/-- The screens that a run finds. -/
def discovered (g : Generator) (d : Disk) : Except Failure (List FoundScreen) :=
  ((discovery g.config).inquiry (g.readingScope d)).on d

/-- A run whose project remembers nothing wrong reads the manifest and the
package as the disk holds them. -/
theorem readAll_eq {g : Generator} (hsound : Inquiry.Sound d g.project) :
    (g.readAll d).1 = match d.readIfExists g.manifestPath with
      | .error e => .error (.file e)
      | .ok manifest => (g.discovered d).map fun found =>
          (manifest, found.map (preparedOn g.config g.allow (g.readingScope d) d)) := by
  unfold readAll
  cases d.readIfExists g.manifestPath with
  | error e => rfl
  | ok manifest =>
    have hanswer := (Inquiry.answer_on (x := g.prepareAll.inquiry (g.readingScope d)) hsound).1
    have hprepared : ((Run.prepareAll g.config g.allow).inquiry (g.readingScope d)).on d = _ :=
      prepareAll_on g.config g.allow
    simp only []
    cases hrun : g.prepareAll.run d g.project with
    | mk outcome project =>
      have houtcome : outcome = ((g.prepareAll.inquiry (g.readingScope d)).answer d g.project).1 :=
        (congrArg Prod.fst hrun).symm
      simp only []
      rw [houtcome, hanswer]
      unfold prepareAll discovered
      rw [hprepared]
      cases ((discovery g.config).inquiry (g.readingScope d)).on d <;> rfl

end Generator

end ScreenHooks.Run
