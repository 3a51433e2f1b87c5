/-
Files that a run wants to write.
-/
import ScreenHooks.Path.Basic

namespace ScreenHooks.Output

/-- When an existing file may be replaced. -/
inductive OverwritePolicy where
  /-- Whenever its text differs. -/
  | always
  /-- Only while it still carries the sentinel. -/
  | ifPlaceholder
  deriving DecidableEq

/-- A file with its text, relative to the output root. -/
structure Artifact where
  path : Path
  content : String
  policy : OverwritePolicy
  deriving DecidableEq

/-- A file that every run writes anew. -/
def Artifact.generated (path : Path) (content : String) : Artifact := ⟨path, content, .always⟩

/-- A file that belongs to its authors once they have taken it over. -/
def Artifact.companion (path : Path) (content : String) : Artifact :=
  ⟨path, content, .ifPlaceholder⟩

end ScreenHooks.Output
