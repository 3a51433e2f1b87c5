/-
Writing artifacts without losing what authors wrote.

A generated file is replaced whenever its text differs. A companion file is
written only while it is absent or still carries the sentinel.

* **`outcome_unchanged`** — a file that has the wanted text is left alone;
* **`outcome_preserved`** — an authored companion is left alone.
-/
import ScreenHooks.Disk.Access
import ScreenHooks.Output.Artifact

namespace ScreenHooks.Output

/-- What happened to an artifact. -/
inductive WriteOutcome where
  | created
  | updated
  | unchanged
  | preserved
  | dryRun
  deriving DecidableEq

/-- The identifier of an outcome in reports. -/
def WriteOutcome.key : WriteOutcome → String
  | created => "created"
  | updated => "updated"
  | unchanged => "unchanged"
  | preserved => "preserved"
  | dryRun => "dry_run"

/-- The words for an outcome in summaries. -/
def WriteOutcome.label : WriteOutcome → String
  | dryRun => "would write"
  | outcome => outcome.key

/-- Whether a companion file may be written over what is there. -/
def mayOverwrite (sentinel : String) : Option String → Bool
  | none => true
  | some text => Text.contains text sentinel

/-- Where and how artifacts are written. -/
structure Writer where
  root : Path
  sentinel : String
  dryRun : Bool := false

namespace Writer

/-- The path of an artifact. -/
def target (w : Writer) (artifact : Artifact) : Path := w.root.join artifact.path

/-- What is to happen to an artifact where there is the given text. -/
def outcome (w : Writer) (artifact : Artifact) (existing : Option String) : WriteOutcome :=
  if artifact.policy = .ifPlaceholder ∧ mayOverwrite w.sentinel existing = false then .preserved
  -- the same text is no change, dry run or not
  else if existing = some artifact.content then .unchanged
  else if w.dryRun then .dryRun
  else if existing.isSome then .updated
  else .created

/-- Whether an outcome changes the disk. -/
def changes : WriteOutcome → Bool
  | .created | .updated => true
  | _ => false

/-- Writes an artifact, as far as its policy lets it be written. -/
def write (w : Writer) (artifact : Artifact) : Disk.Change FileError WriteOutcome := do
  match (← get).readIfExists (w.target artifact) with
  | .error e => throw e
  | .ok existing =>
    let outcome := w.outcome artifact existing
    if changes outcome then Disk.replaceFile (w.target artifact) artifact.content
    return outcome

/-! ### Laws -/

theorem outcome_preserved (w : Writer) (artifact : Artifact) (text : String)
    (hpolicy : artifact.policy = .ifPlaceholder) (h : Text.contains text w.sentinel = false) :
    w.outcome artifact (some text) = .preserved := by
  simp [outcome, hpolicy, mayOverwrite, h]

theorem outcome_unchanged (w : Writer) (artifact : Artifact) (h : artifact.policy = .always) :
    w.outcome artifact (some artifact.content) = .unchanged := by
  simp [outcome, h]

end Writer

end ScreenHooks.Output
