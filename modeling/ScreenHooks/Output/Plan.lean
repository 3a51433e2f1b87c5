/-
Plans: what is written, one artifact after another.

A plan goes on by what happened to the artifacts so far. A writer carries it
out on a disk; its attempts are the artifacts with what happened to each.

* **`carryOut_bind`**, **`attempts_bind`** — plans in sequence.
-/
import ScreenHooks.Output.Writer

namespace ScreenHooks.Output

/-- A computation that writes artifacts. -/
inductive Plan (α : Type) where
  | done (result : α)
  | write (artifact : Artifact) (next : Except FileError WriteOutcome → Plan α)

/-- What happened when an artifact was to be written to a disk. -/
structure Attempt where
  writer : Writer
  before : Disk
  artifact : Artifact
  outcome : Except FileError WriteOutcome

namespace Plan

variable {α β γ : Type}

/-- Goes on with what a plan ends with. -/
def bind : Plan α → (α → Plan β) → Plan β
  | done result, f => f result
  | write artifact next, f => write artifact fun outcome => (next outcome).bind f

instance : Monad Plan where
  pure := done
  bind := bind

/-- The plan to write one artifact, which ends with what happened. -/
def attempt (artifact : Artifact) : Plan (Except FileError WriteOutcome) := write artifact done

/-- Carries out a plan on a disk. -/
def carryOut (w : Writer) : Plan α → Disk → α × Disk
  | done result, d => (result, d)
  | write artifact next, d =>
    let (outcome, after) := (w.write artifact).apply d
    (next outcome).carryOut w after

/-- What a plan tries to write, in its order. -/
def attempts (w : Writer) : Plan α → Disk → List Attempt
  | done _, _ => []
  | write artifact next, d =>
    let (outcome, after) := (w.write artifact).apply d
    ⟨w, d, artifact, outcome⟩ :: (next outcome).attempts w after

/-! ### Plans in sequence -/

theorem bind_done (x : Plan α) : x.bind done = x := by
  induction x with
  | done result => rfl
  | write artifact next ih => exact congrArg (write artifact) (funext ih)

theorem bind_bind (x : Plan α) (f : α → Plan β) (g : β → Plan γ) :
    (x.bind f).bind g = x.bind fun a => (f a).bind g := by
  induction x with
  | done result => rfl
  | write artifact next ih => exact congrArg (write artifact) (funext ih)

instance instLawfulMonadPlan : LawfulMonad Plan :=
  LawfulMonad.mk' Plan bind_done (fun _ _ => rfl) bind_bind

theorem carryOut_write (w : Writer) (artifact : Artifact)
    (next : Except FileError WriteOutcome → Plan α) (d : Disk) :
    (write artifact next).carryOut w d =
      (next ((w.write artifact).apply d).1).carryOut w ((w.write artifact).apply d).2 := by
  rw [carryOut]

theorem attempts_write (w : Writer) (artifact : Artifact)
    (next : Except FileError WriteOutcome → Plan α) (d : Disk) :
    (write artifact next).attempts w d = ⟨w, d, artifact, ((w.write artifact).apply d).1⟩ ::
      (next ((w.write artifact).apply d).1).attempts w ((w.write artifact).apply d).2 := by
  rw [attempts]

theorem carryOut_attempt (w : Writer) (artifact : Artifact) (d : Disk) :
    (attempt artifact).carryOut w d = (w.write artifact).apply d := by
  rw [attempt, carryOut_write, carryOut]

theorem attempts_attempt (w : Writer) (artifact : Artifact) (d : Disk) :
    (attempt artifact).attempts w d = [⟨w, d, artifact, ((w.write artifact).apply d).1⟩] := by
  rw [attempt, attempts_write, attempts]

theorem carryOut_pure (w : Writer) (a : α) (d : Disk) :
    (pure a : Plan α).carryOut w d = (a, d) := rfl

theorem attempts_pure (w : Writer) (a : α) (d : Disk) :
    (pure a : Plan α).attempts w d = [] := rfl

theorem carryOut_bind (w : Writer) (x : Plan α) (f : α → Plan β) (d : Disk) :
    (x >>= f).carryOut w d = (f (x.carryOut w d).1).carryOut w (x.carryOut w d).2 := by
  induction x generalizing d with
  | done result => rfl
  | write artifact next ih =>
    rw [carryOut_write, ← ih]
    rfl

theorem attempts_bind (w : Writer) (x : Plan α) (f : α → Plan β) (d : Disk) :
    (x >>= f).attempts w d =
      x.attempts w d ++ (f (x.carryOut w d).1).attempts w (x.carryOut w d).2 := by
  induction x generalizing d with
  | done result => rfl
  | write artifact next ih =>
    rw [attempts_write, List.cons_append, carryOut_write, ← ih]
    rfl

end Plan

end ScreenHooks.Output
