/-
The statements of a script.

A statement is kept as far as it declares, exports or imports. What stands in
the blocks of other statements is not read.

* **`statements_nil`** — the empty script has no statements.
-/
import ScreenHooks.Script.Declaration

namespace ScreenHooks.Script

open Text

/-- One name of an export or import list. -/
structure Specifier where
  /-- The name where it comes from. -/
  name : String
  /-- The name that it gets. -/
  newName : String
  typeOnly : Bool := false
  deriving DecidableEq

/-- A top-level statement. -/
inductive Statement where
  | declaration (d : Declaration)
  | exported (d : Declaration)
  | exportedDefault (d : Declaration)
  /-- A default export of a name. -/
  | defaultName (name : String)
  /-- A default export of a value. -/
  | defaultValue (kind : DeclarationKind)
  | exportList (specifiers : List Specifier) (source : Option String) (typeOnly : Bool)
  | exportStar (source : String)
  /-- A star export of types, for which the grammar has no place. -/
  | exportTypeStar (source : String)
  | exportSpace (name source : String)
  /-- A namespace export of types, for which the grammar has no place either. -/
  | exportTypeSpace (name source : String)
  | imports (specifiers : List Specifier) (source : String)
  /-- A statement that declares, exports and imports nothing. -/
  | other
  /-- What is no statement. -/
  | malformed
  deriving DecidableEq

/-! ### Lists of names -/

/-- The tokens between commas. `part` holds the ones since the last comma. -/
def commaParts (part : List Token) : Forest → List (List Token)
  | .nil => if part.isEmpty then [] else [part]
  | .leaf t rest =>
    if t.text = "," then part :: commaParts [] rest else commaParts (part ++ [t]) rest
  | .group _ _ _ rest => commaParts part rest

/-- The name of a list that the words between two commas stand for. -/
def Specifier.ofWords? : List String → Option Specifier
  | [name] => some ⟨unquote name, unquote name, false⟩
  | [_, name] => some ⟨unquote name, unquote name, true⟩
  | [name, _, newName] => some ⟨unquote name, unquote newName, false⟩
  | [_, name, _, newName] => some ⟨unquote name, unquote newName, true⟩
  | _ => none

/-- The names of a list in curly brackets. -/
def specifiers (f : Forest) : List Specifier :=
  (commaParts [] f).filterMap fun part => Specifier.ofWords? (part.map (·.text))

/-- What follows the attributes of an import, if there are any, and the
semicolon. -/
def dropAttributes : Forest → Forest
  | .leaf t rest =>
    if (t.text = "with" ∨ t.text = "assert") ∧ rest.startsGroup .curly then
      dropText ";" (rest.drop 1)
    else dropText ";" (.leaf t rest)
  | f => f

/-- The module that names come from, and what follows. -/
def source? : Forest → Option (String × Forest)
  | .leaf mark (.leaf t rest) =>
    if mark.text = "from" ∧ t.kind = .string then some (unquote t.text, dropAttributes rest)
    else none
  | _ => none

/-- A statement with what follows it. -/
abbrev Read := Statement × Forest

/-! ### Imports -/

/-- Whether the word `type` before a forest marks an import of types, and is no
name. -/
def marksTypes : Forest → Bool
  | .nil => false
  | .group .. => true
  | .leaf t rest => (t.kind = .word ∧ (t.text ≠ "from" ∨ rest.word? = some "from")) || t.text == "*"

/-- The names of an import after a default name and its comma. -/
def importedNames : Forest → List Specifier × Forest
  | .group _ inner _ rest => (specifiers inner, rest)
  | .leaf star (.leaf as (.leaf name rest)) =>
    if star.text = "*" ∧ as.text = "as" then ([⟨"*", name.text, false⟩], rest)
    else ([], .leaf star (.leaf as (.leaf name rest)))
  | f => ([], f)

/-- The names of an import. -/
def importClause (f : Forest) : List Specifier × Forest :=
  match named? f with
  | some (name, rest) =>
    let more := importedNames (dropText "," rest)
    (⟨"default", name, false⟩ :: more.1, more.2)
  | none => importedNames f

/-- An import after its keyword. An import that only runs a module, and one
that gives a name to a value, bind nothing. -/
def importAt (f : Forest) : Read :=
  let f := match f with
    | .leaf t rest => if t.text = "type" ∧ marksTypes rest then rest else .leaf t rest
    | g => g
  match f with
  | .leaf t rest =>
    if t.kind = .string then (.other, dropAttributes rest)
    else if t.kind = .word ∧ rest.word? = some "=" then
      (.other, dropText ";" (rest.drop (1 + expressionSize (rest.drop 1))))
    else match source? (importClause (.leaf t rest)).2 with
      | some (source, after) => (.imports (importClause (.leaf t rest)).1 source, after)
      | none => (.malformed, rest)
  | g =>
    match source? (importClause g).2 with
    | some (source, after) => (.imports (importClause g).1 source, after)
    | none => (.malformed, g.drop 1)

/-! ### Exports -/

/-- Whether an expression is a function with an arrow. -/
def startsArrow (f : Forest) : Bool :=
  let start := if f.word? = some "async" ∧ (f.drop 1).word? ≠ some "=>" then f.drop 1 else f
  let params := dropAngles start
  ((named? start).isSome && (start.drop 1).word? == some "=>") ||
    (params.startsGroup .round && (dropTyping (params.drop 1)).word? == some "=>")

/-- The words that are values of their own. -/
def valueWords : List String := ["undefined", "null", "true", "false", "this", "super"]

/-- The default export of an expression with the given number of trees. -/
def defaultExpression (f : Forest) (size : Nat) : Statement :=
  let start := if f.word? = some "async" ∧ (f.drop 1).word? = some "function" then f.drop 1 else f
  match start.word? with
  | some "class" => .defaultValue .classType
  | some "function" =>
    .defaultValue (if (start.drop 1).word? = some "*" then .other else .function)
  | _ =>
    if startsArrow f then .defaultValue .function
    else match named? f with
      | some (name, _) =>
        if size = 1 ∧ !valueWords.contains name then .defaultName name else .defaultValue .other
      | none => .defaultValue .other

/-- The words that may start a declaration in a default export. -/
def defaultKeywords : List String := ["class", "abstract", "interface", "enum", "function", "async"]

/-- A default export after its keywords. -/
def defaultAt (f : Forest) : Read :=
  let start := dropDecorators f
  let declared :=
    if (start.word?.map defaultKeywords.contains).getD false then plainDeclarationAt? start
    else none
  -- a class or a function without a name is exported as a value
  match declared with
  | some (d, rest) => (.exportedDefault d, rest)
  | none =>
    match expressionFrom false {} 0 start with
    | (0, _) => (.malformed, start)
    | (size, _) => (defaultExpression start size, dropText ";" (start.drop size))

/-- The text of the name of a namespace export: a comment before the name
stands for it. -/
def spaceName (as name : Token) : String :=
  unquote ((as.comments ++ name.comments).head?.getD name.text)

/-- A star export after the star. -/
def starAt (typeOnly : Bool) (f : Forest) : Read :=
  match source? f with
  | some (source, rest) => (if typeOnly then .exportTypeStar source else .exportStar source, rest)
  | none =>
    match f with
    | .leaf as (.leaf name rest) =>
      match source? rest with
      | some (source, after) =>
        if as.text ≠ "as" then (.malformed, after)
        else if typeOnly then (.exportTypeSpace (spaceName as name) source, after)
        else (.exportSpace (spaceName as name) source, after)
      | none => (.malformed, rest)
    | g => (.malformed, g)

/-- An export list after its brackets. -/
def listAt (typeOnly : Bool) (inner rest : Forest) : Read :=
  match source? rest with
  | some (source, after) => (.exportList (specifiers inner) (some source) typeOnly, after)
  | none => (.exportList (specifiers inner) none typeOnly, dropText ";" rest)

/-- An export of a declaration. -/
def exportedAt (f : Forest) : Read :=
  match declarationAt? f with
  | some declared => ((declared.declaration?.map .exported).getD .other, declared.rest)
  | none => (.malformed, f.drop 1)

/-- An export after its keyword. -/
def exportAt (f : Forest) : Read :=
  match dropDecorators f with
  | .nil => (.malformed, .nil)
  | .group o inner c rest =>
    if o.kind = .opening .curly then listAt false inner rest
    else (.malformed, .group o inner c rest)
  | .leaf t rest =>
    match t.text with
    | "default" => defaultAt rest
    | "*" => starAt false rest
    -- `export = value;` and `export as namespace name;` export no names
    | "=" => (.other, dropText ";" (rest.drop (expressionSize rest)))
    | "as" => (.other, dropText ";" (rest.drop 2))
    | "import" => (.other, (importAt rest).2)
    | "type" =>
      match rest with
      | .group o inner c after =>
        if o.kind = .opening .curly then listAt true inner after
        else (.malformed, .group o inner c after)
      | .leaf star after =>
        if star.text = "*" then starAt true after else exportedAt (.leaf t rest)
      | .nil => (.malformed, .nil)
    | _ => exportedAt (.leaf t rest)

/-! ### Statements -/

/-- Whether a forest starts with the keyword of an import statement. -/
def startsImport (f : Forest) : Bool :=
  f.word? == some "import" && !(f.drop 1).startsGroup .round && (f.drop 1).word? != some "."

/-- An expression as a statement. -/
def expressionAt (f : Forest) : Read :=
  match expressionFrom true {} 0 f with
  | (0, _) => (.malformed, f.drop 1)
  | (size, missing) => (if missing then .malformed else .other, dropText ";" (f.drop size))

/-- A statement that does not control others. A namespace that is not exported
is an expression. -/
def simpleAt (f : Forest) : Read :=
  let start := dropDecorators f
  if f.word? = some "@" ∧ start.word? ∉ [some "class", some "abstract", some "export"] then
    (.malformed, start)
  else if f.word? = some ";" then (.other, f.drop 1)
  else if start.word? = some "export" then exportAt (start.drop 1)
  else if startsImport start then importAt (start.drop 1)
  else match declarationAt? start with
    | some declared =>
      if start.word? = some "namespace" then (.other, declared.rest)
      else ((declared.declaration?.map .declaration).getD .other, declared.rest)
    | none => expressionAt start

/-- The keywords of statements that control others. -/
def controlWords : List String :=
  ["if", "while", "for", "with", "do", "try", "switch", "return", "break", "continue", "debugger"]

/-- Whether a forest starts with a block, a label or a statement that controls
others. -/
def startsControl (f : Forest) : Bool :=
  f.startsGroup .curly || (f.word?.map controlWords.contains).getD false ||
    ((named? f).isSome && (f.drop 1).word? == some ":")

/-- What follows the statement that a forest starts with; `fuel` bounds how
deep statements control each other. -/
def afterStatement : Nat → Forest → Forest
  | 0, f => f.drop 1
  | _, .nil => .nil
  | _, .group o inner c rest =>
    if o.kind = .opening .curly then rest else (simpleAt (.group o inner c rest)).2
  | fuel + 1, .leaf t rest =>
    match t.text with
    | "if" =>
      -- the branch that is taken, then perhaps the other one
      let first := afterStatement fuel (dropGroup .round rest)
      if first.word? = some "else" then afterStatement fuel (first.drop 1) else first
    | "while" | "for" | "with" => afterStatement fuel (dropGroup .round (dropText "await" rest))
    | "do" =>
      let body := afterStatement fuel rest
      dropText ";" (dropGroup .round (dropText "while" body))
    | "try" =>
      let caught := dropGroup .curly (dropGroup .round (dropText "catch" (dropGroup .curly rest)))
      dropGroup .curly (dropText "finally" caught)
    | "switch" => dropGroup .curly (dropGroup .round rest)
    | "return" | "break" | "continue" | "debugger" =>
      -- the value starts on the line of the keyword
      if rest.startsLine then rest else dropText ";" (rest.drop (expressionSize rest))
    | _ =>
      -- a label
      if t.kind = .word ∧ rest.word? = some ":" then afterStatement fuel (rest.drop 1)
      else (simpleAt (.leaf t rest)).2

/-- The statement that a forest starts with. -/
def Statement.at (f : Forest) : Read :=
  if startsControl f then (.other, afterStatement f.length f) else simpleAt f

/-- The statements of a forest. The number counts trees that belong to the
statement before them. -/
def statementsFrom : Nat → Forest → List Statement
  | _, .nil => []
  | k + 1, .leaf _ rest => statementsFrom k rest
  | k + 1, .group _ _ _ rest => statementsFrom k rest
  | 0, .leaf t rest =>
    let r := Statement.at (.leaf t rest)
    r.1 :: statementsFrom (sizeBefore rest r.2) rest
  | 0, .group o inner c rest =>
    let r := Statement.at (.group o inner c rest)
    r.1 :: statementsFrom (sizeBefore rest r.2) rest

/-- The statements of a script. -/
def statements (f : Forest) : List Statement := statementsFrom 0 f

theorem statements_nil : statements .nil = [] := rfl

end ScreenHooks.Script
