/-
How far a type reaches.

A type is read tree by tree with a small state: whether an operand must
follow, how many angle brackets are open, whether the last operand may be the
parameters of a function type, and how many conditional types are unfinished.
The type ends before the first tree that does not fit.

* **`typeSize_nil`** — nothing has no type;
* **`typeSize_word`** — a single name reaches up to a sign that ends it.
-/
import ScreenHooks.Script.Forest

namespace ScreenHooks.Script

/-! ### Types -/

/-- How far a type has been read. -/
structure TypeState where
  /-- Whether an operand must follow. -/
  expecting : Bool := true
  /-- The number of open angle brackets. -/
  angles : Nat := 0
  /-- Whether the outermost angle brackets hold the type parameters of a
  function type, so that an operand still follows them. -/
  parametric : Bool := false
  /-- Whether an arrow may follow. -/
  callable : Bool := false
  /-- Constraints of conditional types that wait for their question mark. -/
  tests : Nat := 0
  /-- Question marks of conditional types that wait for their colon. -/
  branches : Nat := 0

/-- Words before a type that belong to it. -/
def typeOperators : List String :=
  ["keyof", "typeof", "readonly", "unique", "infer", "asserts", "new", "abstract", "import"]

/-- Whether a forest starts with something that can be a type. -/
def startsOperand : Forest → Bool
  | .nil => false
  | .group .. => true
  | .leaf t _ => t.kind != .sign || t.text == "<" || t.text == "-"

namespace TypeState

/-- An operand has been read. -/
def complete (st : TypeState) : TypeState := { st with expecting := false, callable := false }

/-- An operator has been read. -/
def operator (st : TypeState) : TypeState := { st with expecting := true, callable := false }

/-- Reads a token inside angle brackets. -/
def insideAngles (st : TypeState) (t : Token) : TypeState :=
  if t.kind ≠ .sign then st
  else if t.text = "<" then { st with angles := st.angles + 1 }
  else if t.text = ">" then
    -- the outermost pair closes; after type parameters an operand still follows
    if st.angles = 1 then
      { st with angles := 0, expecting := st.parametric, parametric := false, callable := false }
    else { st with angles := st.angles - 1 }
  else st

/-- Reads a token where an operand must follow. -/
def operandToken (st : TypeState) (t : Token) (rest : Forest) : Option TypeState :=
  if t.kind = .sign then
    if t.text = "|" ∨ t.text = "&" ∨ t.text = "-" then some st
    else if t.text = "<" then some { st with angles := 1, parametric := true }
    else none
  else if t.kind = .word ∧ typeOperators.contains t.text ∧ startsOperand rest then some st
  else some st.complete

/-- Reads a token after an operand. -/
def afterToken (st : TypeState) (t : Token) : Option TypeState :=
  if t.kind = .sign then
    if t.text = "|" ∨ t.text = "&" ∨ t.text = "." then some st.operator
    else if t.text = "<" then some { st with angles := 1, parametric := false }
    -- an arrow needs parameters in front of it
    else if t.text = "=>" then if st.callable then some st.operator else none
    else if t.text = "?" then
      if 0 < st.tests then
        some { st.operator with tests := st.tests - 1, branches := st.branches + 1 }
      else none
    else if t.text = ":" then
      if 0 < st.branches then some { st.operator with branches := st.branches - 1 } else none
    else none
  else if t.kind = .word ∧ !t.startsLine then
    if t.text = "extends" then some { st.operator with tests := st.tests + 1 }
    else if t.text = "is" then some st.operator
    else none
  else none

/-- Reads one more tree, if it belongs to the type. -/
def step (st : TypeState) : Forest → Option TypeState
  | .nil => none
  | .leaf t rest =>
    if 0 < st.angles then some (st.insideAngles t)
    else if st.expecting then st.operandToken t rest
    else st.afterToken t
  | .group o _ _ _ =>
    if 0 < st.angles then some st
    else if st.expecting then some { st.complete with callable := o.kind = .opening .round }
    -- an array or an indexed access
    else if o.kind = .opening .square ∧ !o.startsLine then some st.complete
    else none

end TypeState

/-- The number of trees up to the end of a type. -/
def typeSizeFrom (st : TypeState) : Forest → Nat
  | .nil => 0
  | .leaf t rest =>
    match st.step (.leaf t rest) with
    | some st' => typeSizeFrom st' rest + 1
    | none => 0
  | .group o inner c rest =>
    match st.step (.group o inner c rest) with
    | some st' => typeSizeFrom st' rest + 1
    | none => 0

/-- The number of trees of the type that a forest starts with. -/
def typeSize (f : Forest) : Nat := typeSizeFrom {} f

theorem typeSize_nil : typeSize .nil = 0 := rfl

/-- A name before a comma is a type of one tree. -/
theorem typeSize_word (t comma : Token) (rest : Forest) (ht : t.kind = .word)
    (hop : t.text ∉ typeOperators) (hc : comma.kind = .sign) (hcomma : comma.text = ",") :
    typeSize (.leaf t (.leaf comma rest)) = 1 := by
  simp [typeSize, typeSizeFrom, TypeState.step, TypeState.operandToken, ht, hop,
    TypeState.complete, TypeState.afterToken, hc, hcomma]

/-! ### Angle brackets -/

/-- The number of trees up to the angle bracket that closes the open ones, if
all tokens before it are allowed. -/
def anglesFrom (allowed : Token → Bool) : Nat → Forest → Option Nat
  | _, .nil => none
  | depth, .group _ _ _ rest => (anglesFrom allowed depth rest).map (· + 1)
  | depth, .leaf t rest =>
    if t.kind = .sign ∧ t.text = ">" then
      if depth ≤ 1 then some 1 else (anglesFrom allowed (depth - 1) rest).map (· + 1)
    else if t.kind = .sign ∧ t.text = "<" then (anglesFrom allowed (depth + 1) rest).map (· + 1)
    else if allowed t then (anglesFrom allowed depth rest).map (· + 1)
    else none

/-- Whether a token may stand among type parameters. -/
def isParameterToken (t : Token) : Bool := t.text != ";"

/-- Whether a token may stand among type arguments. -/
def isArgumentToken (t : Token) : Bool :=
  match t.kind with
  | .sign => [",", ".", "|", "&", "=>", "?", ":", "-", "..."].contains t.text
  | .regex => false
  | _ => true

/-- What follows the type parameters, if there are any. -/
def dropAngles : Forest → Forest
  | .leaf t rest =>
    if t.text = "<" then
      match anglesFrom isParameterToken 1 rest with
      | some n => rest.drop n
      | none => .leaf t rest
    else .leaf t rest
  | f => f

/-! ### Optional parts -/

/-- What follows the given sign or word, if it is there. -/
def dropText (text : String) : Forest → Forest
  | .leaf t rest => if t.text = text then rest else .leaf t rest
  | f => f

/-- What follows a name, if there is one. -/
def dropWord : Forest → Forest
  | .leaf t rest => if t.kind = .word then rest else .leaf t rest
  | f => f

/-- What follows a group of the given brackets, if there is one. -/
def dropGroup (bracket : Bracket) : Forest → Forest
  | .group o inner c rest => if o.kind = .opening bracket then rest else .group o inner c rest
  | f => f

/-- What follows a type annotation, if there is one. -/
def dropTyping : Forest → Forest
  | .leaf t rest => if t.text = ":" then rest.drop (typeSize rest) else .leaf t rest
  | f => f

end ScreenHooks.Script
