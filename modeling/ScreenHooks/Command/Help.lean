/-
Help texts and completion scripts.

Both list the commands; a help text about one command lists its options.

* **`optionTexts_length`** — every flag and every option of a level is listed.
-/
import ScreenHooks.Command.Arguments

namespace ScreenHooks.Command

/-- The name of the program. -/
def programName : String := "hookgen"

/-- The version of the program. -/
def version : String := "0.1.0"

/-- What a command does. -/
def Name.about : Name → String
  | generate => "Generate hook modules, barrels, docs and the export manifest"
  | discover => "List the screens that would be generated, without writing"
  | kebab => "Convert class names to their kebab file names"
  | pascal => "Convert kebab names back to capitalized names"
  | init => "Initialize a configuration file"
  | completions => "Generate shell completions"

/-- The operands of a command, as a usage line shows them. -/
def Name.operandText : Name → String
  | kebab | pascal => " <NAMES>..."
  | completions => " <SHELL>"
  | _ => ""

/-- A list in a help text, one item in each line. -/
def listText (heading : String) (items : List String) : String :=
  heading ++ ":\n" ++ String.join (items.map fun item => "  " ++ item ++ "\n")

/-- The flags and options of a level. -/
def Level.optionTexts (level : Level) : List String :=
  level.flags.map ("--" ++ ·) ++ level.options.map (fun name => "--" ++ name ++ " <VALUE>") ++
    ["-h, --help"]

/-- The help about a command, or about the program. -/
def helpText : Option Name → String
  | some name =>
    name.about ++ "\n\nUsage: " ++ programName ++ " " ++ name.text ++ " [OPTIONS]" ++
      name.operandText ++ "\n\n" ++ listText "Options" name.level.optionTexts
  | none =>
    "Generate typed per-screen hook modules, barrels, and export manifests\n\nUsage: " ++
      programName ++ " [OPTIONS] <COMMAND>\n\n" ++
      listText "Commands" (Name.all.map fun name => name.text ++ ": " ++ name.about) ++ "\n" ++
      listText "Options" (topLevel.optionTexts ++ ["-V, --version"])

/-- What is said about arguments that are not understood. -/
def usageText : String :=
  "error: unexpected or missing argument\n\nUsage: " ++ programName ++
    " [OPTIONS] <COMMAND>\n\nFor more information, try '--help'.\n"

/-! ### Completion scripts -/

/-- The words of the commands with blanks between them. -/
def commandWords : String := String.intercalate " " (Name.all.map Name.text)

/-- The name of the completion script of a shell. -/
def Shell.scriptName : Shell → String
  | bash => programName ++ ".bash"
  | zsh => "_" ++ programName
  | fish => programName ++ ".fish"
  | powerShell => "_" ++ programName ++ ".ps1"
  | elvish => programName ++ ".elv"

/-- The completion script of a shell, which completes the commands. -/
def Shell.script : Shell → String
  | bash => "complete -W '" ++ commandWords ++ "' " ++ programName ++ "\n"
  | zsh => "#compdef " ++ programName ++ "\n\n_arguments '1:command:(" ++ commandWords ++ ")'\n"
  | fish => "complete -c " ++ programName ++ " -f -a '" ++ commandWords ++ "'\n"
  | powerShell =>
    "Register-ArgumentCompleter -Native -CommandName '" ++ programName ++
      "' -ScriptBlock \x7b\n    '" ++ commandWords ++ "' -split ' '\n\x7d\n"
  | elvish =>
    "set edit:completion:arg-completer[" ++ programName ++ "] = \x7b|@words|\n    put " ++
      commandWords ++ "\n\x7d\n"

/-! ### Laws -/

theorem optionTexts_length (level : Level) :
    level.optionTexts.length = level.flags.length + level.options.length + 1 := by
  simp [Level.optionTexts, Nat.add_assoc]

end ScreenHooks.Command
