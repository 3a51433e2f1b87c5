/-
Reading the command line.

Arguments are read from the left. A level of the command line has flags,
options with a value, and operands; the first level ends at the word of a
command, whose own level follows. Options that every command takes may stand at
either level, and the deeper one counts. Asking for help ends the reading at
once, so that later faults do not matter; any earlier fault does.

* **`read_nil`** — without arguments there is no command;
* **`read_help`** — asking for help comes before everything after it.
-/
import ScreenHooks.Command.Request

namespace ScreenHooks.Command

/-! ### Single arguments -/

/-- What an argument looks like. -/
inductive Argument where
  /-- Two hyphens: only operands follow. -/
  | separator
  /-- A name after two hyphens, and the text after an equals sign. -/
  | long (name : String) (value : Option String)
  /-- Letters after one hyphen. -/
  | short (letters : List Char)
  | operand (text : String)

/-- What a text looks like as an argument. -/
def Argument.ofText (text : String) : Argument :=
  match text.toList with
  | ['-', '-'] => .separator
  | '-' :: '-' :: r =>
    let value := match r.dropWhile (· != '=') with
      | _ :: value => some (String.ofList value)
      | [] => none
    .long (String.ofList (r.takeWhile (· != '='))) value
  | '-' :: c :: r => .short (c :: r)
  | _ => .operand text

/-- Whether a text cannot be the value of the option before it. -/
def isDashed (text : String) : Bool :=
  match Argument.ofText text with
  | .operand _ => false
  | _ => true

/-! ### Levels -/

/-- Why the arguments start no command. -/
inductive Stop where
  /-- Help is asked for, about a command or the whole program. -/
  | help (topic : Option Name)
  /-- The version is asked for. -/
  | version
  /-- The arguments are not understood. -/
  | usage
  deriving DecidableEq

/-- What a level of the command line takes. -/
structure Level where
  /-- The command of the level; the first level has none. -/
  topic : Option Name
  flags : List String := []
  /-- The options that have a value. -/
  options : List String := []
  /-- How many operands there may be, if that is limited. -/
  limit : Option Nat := some 0
  /-- The words that end the level. -/
  commands : List String := []

/-- What a level was given. -/
structure Given where
  flags : List String := []
  options : List (String × String) := []
  operands : List String := []
  /-- Whether the option right before the command has a value that it cannot
  have; this matters only after the command's own arguments. -/
  faulty : Bool := false

/-- The word of a command and the arguments after it. -/
abbrev Descent := Option (String × List String)

namespace Level

/-- Adds a flag, unless it was given before. -/
def addFlag? (given : Given) (name : String) : Option Given :=
  if name ∈ given.flags then none else some { given with flags := given.flags ++ [name] }

/-- Adds an option, unless it was given before or the value is empty. -/
def addOption? (given : Given) (name value : String) : Option Given :=
  if value = "" ∨ (given.options.lookup name).isSome then none
  else some { given with options := given.options ++ [(name, value)] }

/-- Adds operands, if there may be so many. -/
def addOperands? (level : Level) (given : Given) (texts : List String) : Option Given :=
  let operands := given.operands ++ texts
  if level.limit.any (· < operands.length) then none else some { given with operands }

/-- Goes on with the next arguments if an argument was taken. -/
def continueWith (given : Option Given) (next : Given → Except Stop (Given × Descent)) :
    Except Stop (Given × Descent) :=
  match given with
  | some given => next given
  | none => .error .usage

/-- Reads the arguments of a level, up to its end or to the word of a
command. -/
def read (level : Level) : List String → Given → Except Stop (Given × Descent)
  | [], given => .ok (given, none)
  | text :: rest, given =>
    match Argument.ofText text with
    | .separator => continueWith (level.addOperands? given rest) fun given => .ok (given, none)
    | .operand text =>
      if text ∈ level.commands then .ok (given, some (text, rest))
      else continueWith (level.addOperands? given [text]) (level.read rest)
    | .short letters =>
      if letters.head? = some 'h' then .error (.help level.topic)
      else if letters.head? = some 'V' ∧ level.topic = none then .error .version
      else .error .usage
    | .long name (some value) =>
      if name ∈ level.options then continueWith (addOption? given name value) (level.read rest)
      else .error .usage
    | .long name none =>
      if name = "help" then .error (.help level.topic)
      else if name = "version" ∧ level.topic = none then .error .version
      else if name ∈ level.flags then continueWith (addFlag? given name) (level.read rest)
      else if name ∈ level.options then
        match rest with
        | [] => .error .usage
        | value :: rest =>
          if isDashed value then .error .usage
          else match addOption? given name value, rest with
            | some given, rest => level.read rest given
            | none, command :: after =>
              if command ∈ level.commands then
                .ok ({ given with faulty := true }, some (command, after))
              else .error .usage
            | none, [] => .error .usage
      else .error .usage

end Level

/-! ### The levels of the program -/

/-- The flags that every level takes. -/
def globalFlags : List String := ["no-color", "quiet", "dry-run"]

/-- The options that every level takes. -/
def globalOptions : List String := ["config"]

/-- The word that asks for help in place of a command. -/
def helpWord : String := "help"

/-- The first level. -/
def topLevel : Level where
  topic := none
  flags := globalFlags
  options := globalOptions
  commands := Name.all.map Name.text ++ [helpWord]

/-- The level of a command. -/
def Name.level (name : Name) : Level :=
  let own (flags options : List String) (limit : Option Nat) : Level :=
    { topic := some name, flags := globalFlags ++ flags, options := globalOptions ++ options,
      limit }
  match name with
  | .generate => own ["no-examples", "json"] ["core", "out"] (some 0)
  | .discover => own ["json"] ["core"] (some 0)
  | .kebab | .pascal => own [] [] none
  | .init => own ["force"] ["path"] (some 0)
  | .completions => own ["stdout"] ["out-dir"] (some 1)

/-! ### Requests -/

/-- Whether a flag was given. -/
def Given.has (given : Given) (flag : String) : Bool := given.flags.contains flag

/-- The value of an option as a path. -/
def Given.path? (given : Given) (option : String) : Option Path :=
  (given.options.lookup option).map Path.mk

/-- The request of a command. -/
def Name.request? (name : Name) (given : Given) : Option Request :=
  match name with
  | .generate => some (.generate (given.path? "core") (given.path? "out")
      (given.has "no-examples") (given.has "json"))
  | .discover => some (.discover (given.path? "core") (given.has "json"))
  | .kebab => if given.operands.isEmpty then none else some (.kebab given.operands)
  | .pascal => if given.operands.isEmpty then none else some (.pascal given.operands)
  | .init => some (.init ((given.path? "path").getD ⟨"."⟩) (given.has "force"))
  | .completions =>
    match given.operands with
    | [word] =>
      if given.has "stdout" ∧ (given.path? "out-dir").isSome then none
      else (Shell.ofText? word).map fun shell =>
        .completions shell (given.path? "out-dir") (given.has "stdout")
    | _ => none

/-- The options that every command takes, from both levels. -/
def globalsOf (outer inner : Given) : Globals where
  noColor := outer.has "no-color" || inner.has "no-color"
  quiet := outer.has "quiet" || inner.has "quiet"
  dryRun := outer.has "dry-run" || inner.has "dry-run"
  config := (inner.path? "config").or (outer.path? "config")

/-- What the words after the help word ask about. -/
def helpTopic : List String → Stop
  | [] => .help none
  | [word] => if word = helpWord then .help none else match Name.ofText? word with
    | some name => .help (some name)
    | none => .usage
  | _ => .usage

/-- Reads the command line. -/
def Invocation.read (arguments : List String) : Except Stop Invocation := do
  match ← topLevel.read arguments {} with
  | (_, none) => throw .usage
  | (outer, some (word, rest)) =>
    match Name.ofText? word with
    | none => throw (helpTopic rest)
    | some name =>
      let (inner, _) ← name.level.read rest {}
      match name.request? inner with
      | some request =>
        if outer.faulty then throw .usage else return ⟨globalsOf outer inner, request⟩
      | none => throw .usage

/-! ### Laws -/

theorem read_nil : Invocation.read [] = .error .usage := rfl

theorem read_help (rest : List String) :
    Invocation.read ("--help" :: rest) = .error (.help none) := by
  have h : Argument.ofText "--help" = .long "help" none := by rfl
  simp only [Invocation.read, Level.read, h]
  rfl

end ScreenHooks.Command
