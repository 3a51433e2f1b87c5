/-
Declarations.

A declaration starts with its keyword. Interfaces keep their methods, classes
the names of their marked methods, and all keep the names that they declare.

* **`names_ne_nil`** — everything but a declaration of variables has one name.
-/
import ScreenHooks.Script.Members

namespace ScreenHooks.Script

open Text

/-- The kinds of declarations, as far as they matter. -/
inductive DeclarationKind where
  | classType
  | interfaceType
  | typeAlias
  | enumeration
  | function
  | variable
  | other
  deriving DecidableEq

/-- Whether a kind exists for types only. -/
def DeclarationKind.isTypeOnly : DeclarationKind → Bool
  | interfaceType | typeAlias => true
  | _ => false

/-- A declaration. -/
inductive Declaration where
  | classType (name : String) (marked : List String)
  | interfaceType (name : String) (methods : List Method)
  | typeAlias (name : String)
  | enumeration (name : String)
  | function (name : String)
  | bindings (names : List String)
  /-- A namespace or a module. -/
  | space (name : String)
  deriving DecidableEq

namespace Declaration

/-- The names that a declaration declares. -/
def names : Declaration → List String
  | classType name _ | interfaceType name _ | typeAlias name | enumeration name | function name
  | space name => [name]
  | bindings names => names

/-- The kind of a declaration. -/
def kind : Declaration → DeclarationKind
  | classType .. => .classType
  | interfaceType .. => .interfaceType
  | typeAlias _ => .typeAlias
  | enumeration _ => .enumeration
  | function _ => .function
  | bindings _ => .variable
  | space _ => .other

theorem names_ne_nil (d : Declaration) (h : d.kind ≠ .variable) : d.names ≠ [] := by
  cases d <;> simp_all [names, kind]

end Declaration

/-! ### Reading -/

/-- The name that a forest starts with, and what follows it. -/
def named? : Forest → Option (String × Forest)
  | .leaf t rest => if t.kind = .word then some (t.text, rest) else none
  | _ => none

/-- A class after its keyword. -/
def classAt? (f : Forest) : Option (Declaration × Forest) := do
  let (name, heritage) ← named? f
  if name = "extends" ∨ name = "implements" then none
  let (inner, rest) ← body? heritage
  return (.classType name (markedMethods inner), rest)

/-- An interface after its keyword. -/
def interfaceAt? (f : Forest) : Option (Declaration × Forest) := do
  let (name, heritage) ← named? f
  let (inner, rest) ← body? heritage
  return (.interfaceType name (interfaceMethods inner), rest)

/-- A type alias after its keyword. -/
def aliasAt? (f : Forest) : Option (Declaration × Forest) := do
  let (name, rest) ← named? f
  match dropAngles rest with
  | .leaf t type =>
    if t.text = "=" then some (.typeAlias name, dropText ";" (type.drop (typeSize type))) else none
  | _ => none

/-- An enumeration after its keyword. -/
def enumerationAt? (f : Forest) : Option (Declaration × Forest) := do
  let (name, rest) ← named? f
  return (.enumeration name, dropGroup .curly rest)

/-- A function after its keyword. -/
def functionAt? (f : Forest) : Option (Declaration × Forest) := do
  let (name, _) ← named? (dropText "*" f)
  return (.function name, dropText ";" (dropFunction f))

/-- Variables after their keyword. -/
def variablesAt? (f : Forest) : Option (Declaration × Forest) :=
  if startsPattern f then
    some (.bindings (declarators f).1, dropText ";" (f.drop (declarators f).2))
  else none

/-- What follows the further parts of a name with dots. -/
def dropDotted : Forest → Forest
  | .leaf dot (.leaf t rest) => if dot.text = "." then dropDotted rest else .leaf dot (.leaf t rest)
  | f => f

/-- A namespace or a module after its keyword: its name is a string, or words
with dots between them. -/
def spaceAt? : Forest → Option (Declaration × Forest)
  | .leaf t rest =>
    if t.kind = .string then some (.space (unquote t.text), dropText ";" (dropGroup .curly rest))
    else if t.kind = .word then
      let name := (Forest.leaf t rest).take (sizeBefore (.leaf t rest) (dropDotted rest))
      some (.space name.text, dropGroup .curly (dropDotted rest))
    else none
  | _ => none

/-- The declaration that a forest starts with, and what follows it. -/
def plainDeclarationAt? : Forest → Option (Declaration × Forest)
  | .leaf t rest =>
    match t.text with
    | "class" => classAt? rest
    | "abstract" => if rest.word? = some "class" then classAt? (rest.drop 1) else none
    | "interface" => interfaceAt? rest
    | "type" => aliasAt? rest
    | "enum" => enumerationAt? rest
    | "function" => functionAt? rest
    | "async" => if rest.word? = some "function" then functionAt? (rest.drop 1) else none
    -- `const enum` declares no variables
    | "const" =>
      if rest.word? = some "enum" then enumerationAt? (rest.drop 1) else variablesAt? rest
    | "let" | "var" => variablesAt? rest
    | "module" | "namespace" => spaceAt? rest
    | _ => none
  | _ => none

/-- What is known of a statement that declares: an ambient declaration may
declare nothing of its own. -/
structure Declared where
  declaration? : Option Declaration
  rest : Forest

/-- An ambient declaration after its keyword. One that begins with a comment
and the one of the global space declare nothing. -/
def ambientAt? (f : Forest) : Option Declared :=
  if f.word? = some "global" ∧ (f.drop 1).startsGroup .curly then some ⟨none, f.drop 2⟩
  else (plainDeclarationAt? f).map fun d =>
    ⟨if f.comments.isEmpty then some d.1 else none, d.2⟩

/-- The declaration that a forest starts with, ambient ones included. -/
def declarationAt? (f : Forest) : Option Declared :=
  if f.word? = some "declare" then ambientAt? (f.drop 1)
  else (plainDeclarationAt? f).map fun d => ⟨some d.1, d.2⟩

end ScreenHooks.Script
