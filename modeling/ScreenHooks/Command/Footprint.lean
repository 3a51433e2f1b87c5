/-
Which part of the disk a command needs.

A command looks for its configuration first, and what that says decides which
trees it reads and writes.

* **`workPaths_kebab`** — a command on names needs no trees.
-/
import ScreenHooks.Command.Execute

namespace ScreenHooks.Command

/-- Where a command looks for its configuration. -/
def configPaths (environment : Environment) (invocation : Invocation) : List Path :=
  Config.usualFiles ++
    (invocation.globals.config.map (expandHome environment.home?)).toList

/-- The roots of the core package and of the output package. -/
def roots (environment : Environment) (globals : Globals) (core out : Option Path) (d : Disk) :
    List Path :=
  match ((effectiveConfig environment globals core out).apply d).1 with
  | .ok config =>
    [config.core.root, config.output.root].map (expandHome environment.home?)
  | .error _ => []

/-- The trees that a command reads and writes, told by a disk that has its
configuration. -/
def workPaths (environment : Environment) (invocation : Invocation) (d : Disk) : List Path :=
  match invocation.request with
  | .generate core out .. => roots environment invocation.globals core out d
  | .discover core _ => (roots environment invocation.globals core none d).take 1
  | .init directory _ => [directory.join ⟨Config.fileName⟩]
  | .completions shell directory _ =>
    (directory.map fun directory => directory.join ⟨shell.scriptName⟩).toList
  | .kebab _ | .pascal _ => []

theorem workPaths_kebab (environment : Environment) (globals : Globals) (names : List String)
    (d : Disk) : workPaths environment ⟨globals, .kebab names⟩ d = [] := rfl

end ScreenHooks.Command
