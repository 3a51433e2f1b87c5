/-
What a project remembers over a session.

A session puts operations to one project, each on the disk as it then is. The project
remembers what the first successful reading of a module has shown, and nothing else.
So as long as the disk stays as it is, no operation can tell the project from one that
has just been opened; and where files change, a module stays what it was when it was first
read.

* **`lookup_answer`** — what is remembered after an inquiry;
* **`Operation.run_alike`** — one operation of two projects;
* **`session_transparent`** — whole sessions.
-/
import ScreenHooks.Proofs.Sdk.Fuel
import ScreenHooks.Proofs.Sdk.Outcomes

namespace ScreenHooks.Sdk

open Script

/-! ### What an inquiry leaves -/

namespace Inquiry

variable {α : Type} {d : Disk}

/-- The modules that an inquiry asks a project for, in its order. -/
def requests (d : Disk) : Inquiry α → Project → List Path
  | done _, _ => []
  | askFile path next, p => (next (d.isFile path)).requests d p
  | askModule key next, p => key ::
    match p.known.lookup key with
    | some found => (next (.ok found)).requests d p
    | none =>
      match readModule d key with
      | .ok found => (next (.ok found)).requests d { p with known := Table.put p.known key found }
      | .error e => (next (.error e)).requests d p

/-- After an inquiry a project remembers what it remembered before, and of the other
modules that it was asked for those that the disk could show. -/
theorem lookup_answer (x : Inquiry α) (p : Project) (key : Path) :
    (x.answer d p).2.known.lookup key =
      (p.known.lookup key).or
        (if key ∈ x.requests d p then (readModule d key).toOption else none) := by
  induction x generalizing p with
  | done result => simp [answer, requests]
  | askFile path next ih => exact ih _ p
  | askModule asked next ih =>
    rw [answer, requests]
    by_cases hkey : key = asked
    · -- the question about the key itself settles it, and no later one changes that
      subst hkey
      cases hknown : p.known.lookup key with
      | some found => simp [ih, hknown]
      | none =>
        cases hread : readModule d key with
        | ok found => simp [ih, Table.lookup_put, hread, Except.toOption]
        | error e => simp [ih, hknown, hread, Except.toOption]
    · simp only [List.mem_cons, hkey, false_or]
      cases p.known.lookup asked with
      | some found => exact ih _ p
      | none =>
        cases readModule d asked with
        | ok found =>
          rw [← Table.lookup_put_of_ne p.known found hkey]
          exact ih _ _
        | error e => exact ih _ p

theorem root_answer (x : Inquiry α) (p : Project) : (x.answer d p).2.root = p.root := by
  induction x generalizing p with
  | done result => rfl
  | askFile path next ih => exact ih _ p
  | askModule asked next ih =>
    rw [answer]
    cases p.known.lookup asked with
    | some found => exact ih _ p
    | none =>
      cases readModule d asked with
      | ok found => exact ih _ _
      | error e => exact ih _ p

end Inquiry

/-! ### Operations -/

/-- What can be asked of a project. -/
inductive Operation where
  | module (path : Path)
  | specifier (importer : Path) (text : String)
  | names (path : Path) (typesToo : Bool)
  | resolve (path : Path) (name : String)
  | discover (naming : Naming) (barrel : Path)
  | extract (declarations : Path) (unit : Screen.Unit) (allow : Screen.AllowList)

/-- What an operation ends with if it does not fail. -/
inductive Answer where
  | module (found : Option Module)
  | target (found : Option Path)
  | names (names : Names)
  | resolved (found : Option Resolved)
  | screens (found : List FoundScreen)
  | interfaces (found : Screen.Interfaces)

namespace Operation

/-- The reading that an operation carries out. -/
def reading : Operation → Reading Answer
  | module path => Project.load path >>= fun found => pure (.module found)
  | specifier importer text =>
    read >>= fun scope => (Project.modules scope.root).target? importer text >>= fun found =>
      pure (.target found)
  | names path typesToo => Project.exportedNames path typesToo >>= fun names => pure (.names names)
  | resolve path name => Project.resolveExport path name >>= fun found => pure (.resolved found)
  | discover naming barrel => Sdk.discover naming barrel >>= fun found => pure (.screens found)
  | extract declarations unit allow =>
    Sdk.extract declarations unit allow >>= fun found => pure (.interfaces found)

/-- The outcome of an operation, and the project after it. -/
def run (op : Operation) (d : Disk) (p : Project) : Except Failure Answer × Project :=
  op.reading.run d p

/-- The modules that an operation asks the project for. -/
def requests (op : Operation) (d : Disk) (p : Project) : List Path :=
  (op.reading.inquiry (p.scope d)).requests d p

variable {d : Disk}

theorem reading_alike (op : Operation) : op.reading.Alike d op.reading := by
  have hR := alike_congruence d
  cases op with
  | module path => exact hR.bind (hR.load path) fun found => hR.pure _
  | specifier importer text =>
    exact hR.root fun root => hR.bind (hR.target? root importer text) fun found =>
      hR.pure (Answer.target found)
  | names path typesToo => exact hR.bind (exportedNames_alike path typesToo) fun names => hR.pure _
  | resolve path name => exact hR.bind (hR.resolveExport path name) fun found => hR.pure _
  | discover naming barrel =>
    exact hR.bind (hR.discover exportedNames_alike naming barrel) fun found => hR.pure _
  | extract declarations unit allow =>
    exact hR.bind (hR.extract exportedNames_alike declarations unit allow) fun found => hR.pure _

/-- Projects with one root that remember nothing wrong end an operation alike. -/
theorem run_alike {p p' : Project} (hp : Inquiry.Sound d p) (hp' : Inquiry.Sound d p')
    (hroot : p.root = p'.root) (op : Operation) : (op.run d p).1 = (op.run d p').1 := by
  rw [run, run, Reading.run_eq hp, Reading.run_eq hp']
  exact (op.reading_alike _ _ hroot (p.scope_enough d) (p'.scope_enough d)).1

theorem run_root (op : Operation) (p : Project) : (op.run d p).2.root = p.root :=
  Inquiry.root_answer _ p

theorem run_sound (op : Operation) {p : Project} (hp : Inquiry.Sound d p) :
    Inquiry.Sound d (op.run d p).2 := (Inquiry.answer_on hp).2.1

/-- A module that is remembered is not read again, however its path is written. -/
theorem run_remembered {p : Project} {path : Path} {found : Option Module}
    (h : p.known.lookup path.normalize = some found) :
    (Operation.module path).run d p = (.ok (.module found), p) := by
  simp only [run, reading, Reading.run, Reading.inquiry_bind]
  rw [Inquiry.answer_bind]
  have hload := Project.load_remembered d p path found h
  simp only [Reading.run] at hload
  rw [hload]
  rfl

end Operation

/-! ### Sessions -/

/-- A project that has just been opened remembers nothing. -/
theorem known_of_open {d : Disk} {root : Path} {p : Project}
    (h : Project.open? d root = .ok p) : p.known = [] := by
  unfold Project.open? at h
  split at h
  · rw [← Except.ok.inj h]
  · cases h

/-- A session: operations, each with the disk as it then is. -/
abbrev Session := List (Disk × Operation)

namespace Session

/-- What the operations of a session end with. -/
def outcomes : Session → Project → List (Except Failure Answer)
  | [], _ => []
  | (d, op) :: rest, p => (op.run d p).1 :: outcomes rest (op.run d p).2

/-- The project after a session. -/
def after : Session → Project → Project
  | [], p => p
  | (d, op) :: rest, p => after rest (op.run d p).2

/-- The modules that a session asks the project for, each with the disk as it then is. -/
def requests : Session → Project → List (Disk × Path)
  | [], _ => []
  | (d, op) :: rest, p => (op.requests d p).map (d, ·) ++ requests rest (op.run d p).2

/-- What the first request for a module has shown that did not fail. -/
def firstShown (requests : List (Disk × Path)) (key : Path) : Option (Option Module) :=
  requests.findSome? fun request =>
    if request.2 = key then (readModule request.1 key).toOption else none

theorem firstShown_append (a b : List (Disk × Path)) (key : Path) :
    firstShown (a ++ b) key = (firstShown a key).or (firstShown b key) := by
  simp [firstShown, List.findSome?_append]

/-- On one disk, all requests for a module show the same. -/
theorem firstShown_map (d : Disk) (keys : List Path) (key : Path) :
    firstShown (keys.map (d, ·)) key =
      if key ∈ keys then (readModule d key).toOption else none := by
  induction keys with
  | nil => rfl
  | cons first rest ih =>
    have hstep : firstShown ((first :: rest).map (d, ·)) key =
        (if first = key then (readModule d key).toOption else none).or
          (firstShown (rest.map (d, ·)) key) := by
      rw [List.map_cons, ← List.singleton_append, firstShown_append]
      simp [firstShown]
    rw [hstep, ih]
    by_cases hfirst : first = key
    · subst hfirst
      by_cases hrest : first ∈ rest <;> simp [hrest]
    · simp [hfirst, Ne.symm hfirst]

/-- After a session a project remembers what it remembered before, and of other modules
what the first request has shown that did not fail. -/
theorem lookup_after (session : Session) (p : Project) (key : Path) :
    (session.after p).known.lookup key =
      (p.known.lookup key).or (firstShown (session.requests p) key) := by
  induction session generalizing p with
  | nil => simp [after, requests, firstShown]
  | cons step rest ih =>
    obtain ⟨d, op⟩ := step
    have hop : (op.run d p).2.known.lookup key =
        (p.known.lookup key).or (firstShown ((op.requests d p).map (d, ·)) key) := by
      rw [firstShown_map]
      exact Inquiry.lookup_answer _ p key
    rw [after, requests, ih, hop, firstShown_append, Option.or_assoc]

theorem requests_append (a b : Session) (p : Project) :
    (a ++ b).requests p = a.requests p ++ b.requests (a.after p) := by
  induction a generalizing p with
  | nil => rfl
  | cons step rest ih =>
    show _ ++ requests (rest ++ b) _ = (_ ++ requests rest _) ++ _
    rw [ih, List.append_assoc]
    rfl

/-- On one disk, every operation ends as on any project with the same root that
remembers nothing wrong. -/
theorem outcomes_alike {d : Disk} {p fresh : Project} (hp : Inquiry.Sound d p)
    (hfresh : Inquiry.Sound d fresh) (hroot : p.root = fresh.root) (ops : List Operation) :
    outcomes (ops.map (d, ·)) p = ops.map fun op => (op.run d fresh).1 := by
  induction ops generalizing p with
  | nil => rfl
  | cons op rest ih =>
    rw [List.map_cons, outcomes, List.map_cons, Operation.run_alike hp hfresh hroot op]
    rw [ih (op.run_sound hp) ((op.run_root p).trans hroot)]

end Session

/-- As long as the disk stays as it is, every operation of a session ends as it does on
the project that has just been opened. Whatever the disk is later, a module stays what
the first request of the session has shown that did not fail, however its path is
written. -/
theorem session_transparent {d : Disk} {root : Path} {p : Project}
    (hopen : Project.open? d root = .ok p) :
    (∀ ops : List Operation,
      Session.outcomes (ops.map (d, ·)) p = ops.map fun op => (op.run d p).1) ∧
    ∀ (session later : Session) (key : Path) (found : Option Module),
      Session.firstShown (session.requests p) key = some found →
      ∀ (now : Disk) (path : Path), path.normalize = key →
        ((Operation.module path).run now ((session ++ later).after p)).1 =
          .ok (.module found) := by
  have hknown : p.known = [] := known_of_open hopen
  have hsound : Inquiry.Sound d p := by
    intro key found h
    rw [hknown] at h
    cases h
  refine ⟨Session.outcomes_alike hsound hsound rfl, ?_⟩
  rintro session later key found hshown now path rfl
  -- what the session has shown comes first among all that is ever asked for
  have hlookup : ((session ++ later).after p).known.lookup path.normalize = some found := by
    rw [Session.lookup_after, Session.requests_append, Session.firstShown_append, hshown, hknown]
    rfl
  rw [Operation.run_remembered hlookup]

/-- A core package whose barrel exports all of one module, which holds what is given. -/
def replacedDisk (contents : Contents) : Disk :=
  { entries := [(["core"], .directory),
      (["core", "all.ts"], .file (.text "export * from './a'")),
      (["core", "a.ts"], .file contents)] }

/-- A module that could not be read at first, then was, and is gone at last. -/
theorem session_transparent_replaced :
    let unreadable := replacedDisk (.binary [255])
    let readable := replacedDisk (.text "export let k")
    let all : Operation := .names ⟨"/core/all.ts"⟩ false
    let a : Operation := .module ⟨"/core/a.ts"⟩
    let p : Project := ⟨⟨"/core"⟩, []⟩
    Project.open? unreadable ⟨"/core"⟩ = .ok p ∧
    Session.outcomes [(unreadable, all), (unreadable, a)] p =
      [(all.run unreadable p).1, (a.run unreadable p).1] ∧
    ((Operation.module ⟨"/core/b/../a.ts"⟩).run {}
        (Session.after [(unreadable, a), (readable, all), ({}, all)] p)).1 =
      .ok (.module (some
        { exports := [.declaration "k" .variable], locals := [("k", .variable)] })) := by
  intro unreadable readable all a p
  have hroot : unreadable.canonical ⟨"/core"⟩ = .ok ⟨"/core"⟩ := by decide +kernel
  have hopen : Project.open? unreadable ⟨"/core"⟩ = .ok p := by rw [Project.open?, hroot]
  obtain ⟨hsame, hkept⟩ := session_transparent hopen
  refine ⟨hopen, hsame [all, a], ?_⟩
  exact hkept [(unreadable, a), (readable, all)] [({}, all)] ⟨"/core/a.ts"⟩ _
    (by decide +kernel) {} ⟨"/core/b/../a.ts"⟩ (by decide +kernel)

end ScreenHooks.Sdk
