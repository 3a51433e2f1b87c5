/-
What all readings of a core package have in common.

Readings are put together from few basic ones. A relation between readings that
holds of the basic ones and is kept by putting them together, a `Congruence`,
holds of everything that follows exports and finds screens.

* **`Congruence.follow`**, **`Congruence.namesFrom`** — following exports;
* **`strict_discover`** — finding screens gives up where a module cannot be
  read.
-/
import ScreenHooks.Proofs.Sdk.Answers
import ScreenHooks.Sdk.Discovery

namespace ScreenHooks.Sdk

open Script

variable {α β : Type}

/-! ### Readings and their questions -/

theorem Reading.inquiry_bind (x : Reading α) (f : α → Reading β) (scope : Scope) :
    (x >>= f).inquiry scope = x.inquiry scope >>= fun outcome => match outcome with
      | .ok a => (f a).inquiry scope
      | .error e => pure (.error e) := by
  show x.inquiry scope >>= _ = _
  congr 1
  funext outcome
  cases outcome <;> rfl

theorem Reading.inquiry_read (f : Scope → Reading β) (scope : Scope) :
    (read >>= f : Reading β).inquiry scope = (f scope).inquiry scope := rfl

/-! ### Congruences -/

/-- Whether a path is one that a specifier may stand for: a normal form, as it is
or with a probe. -/
def Candidate (path : Path) : Prop :=
  ∃ base : Path, path = base.normalize ∨ ∃ probe ∈ probes, path = ⟨base.normalize.text ++ probe⟩

theorem candidate_of_mem {root importer path : Path} {specifier : String}
    (h : path ∈ specifierPaths root importer specifier) : Candidate path := by
  unfold specifierPaths at h
  split at h
  · rcases List.mem_cons.1 h with rfl | h
    · exact ⟨_, .inl rfl⟩
    · obtain ⟨probe, hprobe, rfl⟩ := List.mem_map.1 h
      exact ⟨_, .inr ⟨probe, hprobe, rfl⟩⟩
  · cases h

/-- A relation between readings that holds of the basic ones and is kept by
putting readings together. -/
structure Congruence (R : (α : Type) → Reading α → Reading α → Prop) : Prop where
  pure {α : Type} (a : α) : R α (pure a) (pure a)
  throw {α : Type} (e : Failure) : R α (throw e) (throw e)
  bind {α β : Type} {x y : Reading α} {f g : α → Reading β} (hx : R α x y)
    (hf : ∀ a, R β (f a) (g a)) : R β (x >>= f) (y >>= g)
  root {α : Type} {f g : Path → Reading α} (h : ∀ root, R α (f root) (g root)) :
    R α (read >>= fun scope => f scope.root) (read >>= fun scope => g scope.root)
  isFile (path : Path) (hpath : Candidate path) : R Bool (Project.isFile path) (Project.isFile path)
  load (path : Path) : R (Option Module) (Project.load path) (Project.load path)

namespace Congruence

variable {R : (α : Type) → Reading α → Reading α → Prop} (hR : Congruence R)

include hR

/-! ### Lists of readings -/

theorem foldlM {f g : β → α → Reading β} (l : List α) (init : β)
    (h : ∀ acc, ∀ a, R β (f acc a) (g acc a)) : R β (l.foldlM f init) (l.foldlM g init) := by
  induction l generalizing init with
  | nil => exact hR.pure init
  | cons a rest ih =>
    rw [List.foldlM_cons, List.foldlM_cons]
    exact hR.bind (h init a) ih

theorem findM? {p q : α → Reading Bool} (l : List α) (h : ∀ a ∈ l, R Bool (p a) (q a)) :
    R (Option α) (l.findM? p) (l.findM? q) := by
  induction l with
  | nil => exact hR.pure none
  | cons a rest ih =>
    refine hR.bind (h a List.mem_cons_self) fun found => ?_
    cases found with
    | true => exact hR.pure (some a)
    | false => exact ih fun b hb => h b (List.mem_cons_of_mem _ hb)

theorem mapM {f g : α → Reading β} (l : List α) (h : ∀ a, R β (f a) (g a)) :
    R (List β) (l.mapM f) (l.mapM g) := by
  induction l with
  | nil => exact hR.pure []
  | cons a rest ih =>
    rw [List.mapM_cons, List.mapM_cons]
    exact hR.bind (h a) fun b => hR.bind ih fun bs => hR.pure (b :: bs)

theorem filterMapM {f g : α → Reading (Option β)} (l : List α) (h : ∀ a, R (Option β) (f a) (g a)) :
    R (List β) (l.filterMapM f) (l.filterMapM g) := by
  induction l with
  | nil => exact hR.pure []
  | cons a rest ih =>
    rw [List.filterMapM_cons, List.filterMapM_cons]
    refine hR.bind (h a) fun found => ?_
    cases found with
    | none => exact ih
    | some b => exact hR.bind ih fun bs => hR.pure (b :: bs)

theorem filterM {p q : α → Reading Bool} (l : List α) (h : ∀ a, R Bool (p a) (q a)) :
    R (List α) (l.filterM p) (l.filterM q) := by
  have haux : ∀ acc, R (List α) (l.filterAuxM p acc) (l.filterAuxM q acc) := by
    induction l with
    | nil => exact hR.pure
    | cons a rest ih => exact fun acc => hR.bind (h a) fun found => ih _
  exact hR.bind (haux []) fun kept => hR.pure _

/-! ### Following exports -/

theorem target? (root importer : Path) (specifier : String) :
    R (Option Path) ((Project.modules root).target? importer specifier)
      ((Project.modules root).target? importer specifier) :=
  hR.findM? _ fun path hpath => hR.isFile path (candidate_of_mem hpath)

/-- Star exports, expanded with any fuel. -/
theorem namesFrom (root : Path) (typesToo : Bool) (fuel : Nat) (onPath : List Path) (names : Names)
    (path : Path) :
    R Names (Sdk.namesFrom (Project.modules root) typesToo fuel onPath names path)
      (Sdk.namesFrom (Project.modules root) typesToo fuel onPath names path) := by
  induction fuel generalizing onPath names path with
  | zero => exact hR.pure names
  | succ fuel ih =>
    unfold Sdk.namesFrom
    simp only []
    split
    · exact hR.pure names
    · refine hR.bind (hR.load _) fun found => ?_
      cases found with
      | none => exact hR.pure names
      | some module =>
        -- a star goes on to another module, other items add their own name
        refine hR.foldlM _ _ fun names item => ?_
        split
        · exact hR.pure names
        · split
          next source =>
            refine hR.bind (hR.target? _ _ _) fun target => ?_
            cases target with
            | none => exact hR.pure names
            | some target => exact ih _ _ _
          next => exact hR.pure names
          next => exact hR.pure _

theorem follow (root : Path) (fuel : Nat) (path : Path) (name : String) (visited : Visited) :
    R (Option Resolved × Visited) (Sdk.follow (Project.modules root) fuel path name visited)
      (Sdk.follow (Project.modules root) fuel path name visited) := by
  induction fuel generalizing path name visited with
  | zero => exact hR.pure _
  | succ fuel ih =>
    unfold Sdk.follow
    simp only []
    split
    · exact hR.pure _
    · refine hR.bind (hR.load _) fun found => ?_
      cases found with
      | none => exact hR.pure _
      | some module =>
        simp only []
        split
        next => exact hR.pure _
        next =>
          refine hR.bind (hR.target? _ _ _) fun target => ?_
          cases target with
          | none => exact hR.pure _
          | some target => exact ih _ _ _
        next => exact hR.pure _
        next =>
          -- stars are followed until one of them leads to a declaration
          refine hR.foldlM _ _ fun found source => ?_
          split
          · exact hR.pure _
          · refine hR.bind (hR.target? _ _ _) fun target => ?_
            cases target with
            | none => exact hR.pure _
            | some target => exact ih _ _ _

theorem resolveExport (path : Path) (name : String) :
    R (Option Resolved) (Project.resolveExport path name) (Project.resolveExport path name) :=
  hR.root fun root => hR.bind (hR.follow root _ _ _ _) fun found => hR.pure found.1

/-! ### Screens and interfaces -/

theorem screen? (naming : Naming) (barrel : Path) (name : String) :
    R (Option FoundScreen) (Sdk.screen? naming barrel name) (Sdk.screen? naming barrel name) := by
  refine hR.bind (hR.resolveExport _ _) fun found => ?_
  cases found with
  | none => exact hR.pure none
  | some resolved => exact hR.pure _

theorem discover (hnames : ∀ path typesToo,
      R Names (Project.exportedNames path typesToo) (Project.exportedNames path typesToo))
    (naming : Naming) (barrel : Path) :
    R (List FoundScreen) (Sdk.discover naming barrel) (Sdk.discover naming barrel) := by
  refine hR.bind (hR.load _) fun found => ?_
  split
  · exact hR.bind (hR.throw _) fun _ =>
      hR.bind (hnames _ _) fun names => hR.filterMapM _ fun name => hR.screen? _ _ _
  · exact hR.bind (hnames _ _) fun names => hR.filterMapM _ fun name => hR.screen? _ _ _

theorem extract (hnames : ∀ path typesToo,
      R Names (Project.exportedNames path typesToo) (Project.exportedNames path typesToo))
    (declarations : Path) (unit : Screen.Unit) (allow : Screen.AllowList) :
    R Screen.Interfaces (Sdk.extract declarations unit allow)
      (Sdk.extract declarations unit allow) := by
  have hinterface : ∀ name, R Bool (isInterface declarations name)
      (isInterface declarations name) := by
    intro name
    refine hR.bind (hR.resolveExport _ _) fun found => ?_
    cases found with
    | none => exact hR.pure false
    | some resolved => exact hR.pure _
  have hmembers : ∀ name, R (Option Interface) (membersInterface? declarations name)
      (membersInterface? declarations name) := by
    intro name
    refine hR.bind (hR.resolveExport _ _) fun found => ?_
    split
    next => exact hR.bind (hR.load _) fun module => hR.pure _
    next => exact hR.pure none
  exact hR.bind (hnames _ _) fun names => hR.bind (hR.filterM _ hinterface) fun published =>
    hR.bind (hmembers _) fun members => hR.pure _

end Congruence

/-! ### Giving up -/

/-- Whether a reading ends with the error as soon as a module cannot be read. -/
def Reading.Strict (x : Reading α) : Prop := ∀ scope, (x.inquiry scope).Strict

theorem Inquiry.Strict.bind {x : Inquiry (Except Failure α)} {f : α → Inquiry (Except Failure β)}
    (hx : x.Strict) (hf : ∀ a, (f a).Strict) :
    (x >>= fun outcome => match outcome with
      | .ok a => f a
      | .error e => pure (.error e)).Strict := by
  induction hx with
  | done result =>
    cases result with
    | ok a => exact hf a
    | error e => exact .done (.error e)
  | askFile path next _ ih => exact .askFile path _ ih
  | askModule key next _ herror ih =>
    refine .askModule key _ ih fun e => ?_
    show (next (.error e)).bind _ = _
    rw [herror]
    rfl

theorem strict_congruence : Congruence fun _ x y => x = y ∧ Reading.Strict x where
  pure a := ⟨rfl, fun _ => .done _⟩
  throw e := ⟨rfl, fun _ => .done _⟩
  bind := by
    rintro α β x _ f g ⟨rfl, hx⟩ hf
    have hfg : f = g := funext fun a => (hf a).1
    subst hfg
    refine ⟨rfl, fun scope => ?_⟩
    rw [Reading.inquiry_bind]
    exact (hx scope).bind fun a => (hf a).2 scope
  root := by
    intro α f g h
    have hfg : f = g := funext fun root => (h root).1
    subst hfg
    exact ⟨rfl, fun scope => (h scope.root).2 scope⟩
  isFile path _ := ⟨rfl, fun _ => .askFile path _ fun _ => .done _⟩
  load path := ⟨rfl, fun _ => .askModule _ _ (fun _ => .done _) fun _ => rfl⟩

/-- Finding the screens gives up where a module cannot be read. -/
theorem strict_discover (naming : Naming) (barrel : Path) : (discover naming barrel).Strict := by
  refine (strict_congruence.discover (fun path typesToo => ⟨rfl, fun scope => ?_⟩) naming barrel).2
  rw [Project.exportedNames, Reading.inquiry_read]
  exact (strict_congruence.namesFrom scope.root typesToo scope.fuel [] .empty path).2 scope

end ScreenHooks.Sdk
