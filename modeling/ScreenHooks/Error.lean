/-
What can go wrong in a run.

Some errors cost one screen only; the others end the run.

* **`isLocal_iff`** — which ones are which.
-/
import ScreenHooks.Path.Basic

namespace ScreenHooks

/-- The two files that belong to a screen. -/
inductive CompanionRole where
  /-- The module that defines the screen class. -/
  | implementation
  /-- The file that declares the members interface. -/
  | declaration
  deriving DecidableEq

/-- The word for a role. -/
def CompanionRole.text : CompanionRole → String
  | implementation => "implementation"
  | declaration => "declaration"

/-- A failed run, or a screen that cannot be generated. -/
inductive RunError where
  | missingCompanion (unit : String) (role : CompanionRole) (path : Path)
  | unresolvedAlias (symbol : String)
  | missingIndex (path : Path)
  /-- A shared artifact could not be written; `cause` says why. -/
  | sharedWrite (path : Path) (cause : String)
  | parse (path : Path) (message : String)
  | missingEntry (path : Path)
  deriving DecidableEq

namespace RunError

/-- The text of an error. -/
def message : RunError → String
  | missingCompanion unit role path =>
    unit ++ ": " ++ role.text ++ " file not found at " ++ path.text
  | unresolvedAlias symbol => "export `" ++ symbol ++ "` does not resolve to a class declaration"
  | missingIndex path => "documentation index not found at " ++ path.text
  | sharedWrite path _ => "failed to write shared artifact " ++ path.text
  | parse path message => "failed to parse " ++ path.text ++ ": " ++ message
  | missingEntry path => "screens barrel not found at " ++ path.text

/-- Whether an error costs one screen only. -/
def isLocal : RunError → Bool
  | missingCompanion .. | unresolvedAlias _ | parse .. => true
  | _ => false

/-- The cause that lies behind an error. -/
def cause? : RunError → Option String
  | sharedWrite _ cause => some cause
  | _ => none

theorem isLocal_iff (e : RunError) :
    e.isLocal = true ↔
      (∃ u r p, e = missingCompanion u r p) ∨ (∃ s, e = unresolvedAlias s) ∨
        ∃ p m, e = parse p m := by
  cases e <;> simp [isLocal]

end RunError

end ScreenHooks
