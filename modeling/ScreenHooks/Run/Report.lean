/-
What a run did.

Artifacts are recorded in the order in which they were written; a screen is
either listed or skipped with a reason.

* **`count_record`** — what a record adds to the counts.
-/
import ScreenHooks.Output.Writer

namespace ScreenHooks.Run

open Output

/-- An artifact and what happened to it. -/
structure Record where
  path : Path
  outcome : WriteOutcome
  deriving DecidableEq

/-- A screen that was left out. -/
structure Skipped where
  name : String
  reason : String
  deriving DecidableEq

/-- What a run did. -/
structure Report where
  dryRun : Bool := false
  screens : List String := []
  artifacts : List Record := []
  skipped : List Skipped := []
  deriving DecidableEq

namespace Report

/-- The number of artifacts with an outcome. -/
def count (r : Report) (outcome : WriteOutcome) : Nat :=
  (r.artifacts.filter (·.outcome = outcome)).length

/-- Adds an artifact. -/
def record (r : Report) (path : Path) (outcome : WriteOutcome) : Report :=
  { r with artifacts := r.artifacts ++ [⟨path, outcome⟩] }

/-- Adds a screen that was left out. -/
def skip (r : Report) (name reason : String) : Report :=
  { r with skipped := r.skipped ++ [⟨name, reason⟩] }

/-- Adds a screen. -/
def list (r : Report) (name : String) : Report := { r with screens := r.screens ++ [name] }

theorem count_record (r : Report) (path : Path) (outcome other : WriteOutcome) :
    (r.record path outcome).count other = r.count other + if outcome = other then 1 else 0 := by
  by_cases h : outcome = other <;> simp [count, record, h]

end Report

end ScreenHooks.Run
