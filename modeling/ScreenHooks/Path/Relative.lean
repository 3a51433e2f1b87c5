/-
Relative paths and module specifiers.

`Path.relative` leads from a directory to a path by climbs and names; a
module specifier is the relative path from a module's directory to another
module, without the extension.

* **`relative_self`** — a directory is reached from itself by `.`.
-/
import ScreenHooks.Path.Basic

namespace ScreenHooks.Path

open Text

/-- The number of leading steps that two lists share. -/
def commonLength : List Component → List Component → Nat
  | a :: as, b :: bs => if a = b then commonLength as bs + 1 else 0
  | _, _ => 0

/-- The steps of a path other than a leading dot. -/
def parts (p : Path) : List Component := p.components.filter (· != .here)

/-- The segments from the directory `start` to `goal`: a climb for each part
of `start` that `goal` does not share, then the rest of `goal`. -/
def relativeSegments (start goal : Path) : List String :=
  let shared := commonLength start.parts goal.parts
  List.replicate (start.parts.length - shared) ".." ++
    (goal.parts.drop shared).map Component.text

/-- The path from the directory `start` to `goal`, written so that it is never
taken for a package. -/
def relative (start goal : Path) : String :=
  let joined := String.intercalate "/" (relativeSegments start goal)
  if startsWith joined ".." then joined
  else if joined = "" then "."
  else "./" ++ joined

/-- The specifier by which the module `source` imports the module `target`. -/
def moduleSpecifier (source target : Path) : String :=
  relative (source.parent?.getD ⟨""⟩) target.dropExtension

theorem commonLength_self (steps : List Component) : commonLength steps steps = steps.length := by
  induction steps with
  | nil => rfl
  | cons a r ih => simp [commonLength, ih]

theorem relative_self (p : Path) : relative p p = "." := by
  have hnil : relativeSegments p p = [] := by
    simp [relativeSegments, commonLength_self]
  rw [relative, hnil]
  rfl

end ScreenHooks.Path
