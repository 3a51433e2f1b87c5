/-
What the program is asked to do.

A request is a command with its own arguments; next to it stand the options
that every command takes.

* **`ofText?_text`** — a command and a shell are found under their names.
-/
import ScreenHooks.Path.Basic

namespace ScreenHooks.Command

/-- The commands. -/
inductive Name where
  | generate
  | discover
  | kebab
  | pascal
  | init
  | completions
  deriving DecidableEq

namespace Name

/-- The commands in the order in which they are listed. -/
def all : List Name := [generate, discover, kebab, pascal, init, completions]

/-- The word for a command. -/
def text : Name → String
  | generate => "generate"
  | discover => "discover"
  | kebab => "kebab"
  | pascal => "pascal"
  | init => "init"
  | completions => "completions"

/-- The command that a word stands for. -/
def ofText? (word : String) : Option Name := all.find? fun name => name.text = word

end Name

/-- The shells for which there are completion scripts. -/
inductive Shell where
  | bash
  | zsh
  | fish
  | powerShell
  | elvish
  deriving DecidableEq

namespace Shell

/-- All shells. -/
def all : List Shell := [bash, zsh, fish, powerShell, elvish]

/-- The word for a shell. -/
def text : Shell → String
  | bash => "bash"
  | zsh => "zsh"
  | fish => "fish"
  | powerShell => "power-shell"
  | elvish => "elvish"

/-- The shell that a word stands for. -/
def ofText? (word : String) : Option Shell := all.find? fun shell => shell.text = word

end Shell

/-- The options that every command takes. -/
structure Globals where
  noColor : Bool := false
  quiet : Bool := false
  dryRun : Bool := false
  config : Option Path := none

/-- A command with its arguments. -/
inductive Request where
  /-- Generates the output package. -/
  | generate (core out : Option Path) (noExamples json : Bool)
  /-- Lists the screens. -/
  | discover (core : Option Path) (json : Bool)
  /-- Prints the kebab forms of names. -/
  | kebab (names : List String)
  /-- Prints the capitalized forms of kebab names. -/
  | pascal (names : List String)
  /-- Makes a configuration file in a directory. -/
  | init (directory : Path) (force : Bool)
  /-- Writes a completion script into a directory, or prints it. -/
  | completions (shell : Shell) (directory : Option Path) (print : Bool)

/-- A request with the options that every command takes. -/
structure Invocation where
  globals : Globals
  request : Request

/-! ### Laws -/

theorem Name.ofText?_text (name : Name) : Name.ofText? name.text = some name := by
  cases name <;> rfl

theorem Shell.ofText?_text (shell : Shell) : Shell.ofText? shell.text = some shell := by
  cases shell <;> rfl

end ScreenHooks.Command
