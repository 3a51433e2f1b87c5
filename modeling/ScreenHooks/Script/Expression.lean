/-
How far an expression reaches.

Like a type, an expression is read tree by tree. It ends before a semicolon,
before a comma unless commas belong to it, and before a line that does not
continue it.

* **`expressionFrom_semicolon`** — where an expression ends;
* **`expressionSize_nil`** — nothing has no expression.
-/
import ScreenHooks.Script.TypeSpan

namespace ScreenHooks.Script

/-- Whether a token that starts a line goes on with the expression before it. -/
def continuesLine (t : Token) : Bool :=
  match t.kind with
  | .word => t.text == "in" || t.text == "instanceof"
  | .sign =>
    if t.text = "++" ∨ t.text = "--" ∨ t.text = "!" ∨ t.text = "@" ∨ t.text = "..." ∨ t.text = "~"
    then false else true
  | .template => true
  | .opening .round | .opening .square | .opening .template => true
  | _ => false

/-! ### Functions and classes -/

/-- What follows a function after its keyword: a name, type parameters,
parameters, a return type and a body, as far as they are there. -/
def dropFunction (f : Forest) : Forest :=
  dropGroup .curly
    (dropTyping (dropGroup .round (dropAngles (dropWord (dropText "*" f)))))

/-- The body of a declaration and what follows it: the first curly group that
is not inside angle brackets. -/
def bodyFrom? : Nat → Forest → Option (Forest × Forest)
  | _, .nil => none
  | 0, .group o inner _ rest =>
    if o.kind = .opening .curly then some (inner, rest) else bodyFrom? 0 rest
  | depth + 1, .group _ _ _ rest => bodyFrom? (depth + 1) rest
  | depth, .leaf t rest =>
    if t.kind = .sign ∧ t.text = "<" then bodyFrom? (depth + 1) rest
    else if t.kind = .sign ∧ t.text = ">" then bodyFrom? (depth - 1) rest
    else bodyFrom? depth rest

/-- The body of a declaration and what follows it. -/
def body? (f : Forest) : Option (Forest × Forest) := bodyFrom? 0 f

/-- The number of trees before `rest` in `f`. -/
def sizeBefore (f rest : Forest) : Nat := f.length - rest.length

/-- The number of trees of a class after its keyword. -/
def classSize (f : Forest) : Nat :=
  match body? f with
  | some (_, rest) => sizeBefore f rest
  | none => 0

/-! ### Expressions -/

/-- How far an expression has been read. -/
structure ExpressionState where
  /-- Whether an operand must follow. -/
  expecting : Bool := true
  /-- Question marks that wait for their colon. -/
  ternaries : Nat := 0
  /-- Whether the name of a member must follow. -/
  member : Bool := false

namespace ExpressionState

/-- An operand has been read. -/
def complete (st : ExpressionState) : ExpressionState :=
  { st with expecting := false, member := false }

/-- An operator has been read. -/
def operator (st : ExpressionState) : ExpressionState :=
  { st with expecting := true, member := false }

/-- Whether what follows type arguments lets them be type arguments. -/
def endsArguments : Forest → Bool
  | .nil => true
  | .group o _ _ _ => o.kind = .opening .round || o.kind = .opening .template
  | .leaf t _ => t.kind = .template || t.text == "," || t.text == ";"

/-- The number of trees of type arguments after their angle bracket. -/
def argumentsSize? (f : Forest) : Option Nat :=
  (anglesFrom isArgumentToken 1 f).bind fun n => if endsArguments (f.drop n) then some n else none

/-- Reads a word; the number counts the trees after it that belong to it. -/
def word (st : ExpressionState) (t : Token) (rest : Forest) : ExpressionState × Nat :=
  -- a member may be named like a keyword
  if st.member then (st.complete, 0)
  else if st.expecting then
    if t.text = "function" then (st.complete, sizeBefore rest (dropFunction rest))
    else if t.text = "class" then (st.complete, classSize rest)
    else if operatorWords.contains t.text then (st, 0)
    else (st.complete, 0)
  -- the type belongs to the expression
  else if t.text = "as" ∨ t.text = "satisfies" then (st, typeSize rest)
  else if operatorWords.contains t.text then (st.operator, 0)
  else if t.text = "function" then (st, sizeBefore rest (dropFunction rest))
  else (st, 0)

/-- Reads a sign; the number counts the trees after it that belong to it. -/
def sign (st : ExpressionState) (t : Token) (rest : Forest) : ExpressionState × Nat :=
  if t.text = "<" then
    if st.expecting then (st, (anglesFrom isParameterToken 1 rest).getD 0)
    -- type arguments before a call, else a comparison
    else match argumentsSize? rest with
      | some n => (st, n)
      | none => (st.operator, 0)
  else if t.text = ":" then
    if 0 < st.ternaries then ({ st.operator with ternaries := st.ternaries - 1 }, 0)
    -- no choice is open: a return type follows the colon
    else (st.complete, typeSize rest)
  else if t.text = "?" then ({ st.operator with ternaries := st.ternaries + 1 }, 0)
  else if t.text = "!" ∨ t.text = "++" ∨ t.text = "--" then (st, 0)
  else if t.text = "." ∨ t.text = "?." then ({ st.operator with member := true }, 0)
  else (st.operator, 0)

/-- Reads one more tree, if it belongs to the expression. -/
def step (commas : Bool) (st : ExpressionState) : Forest → Option (ExpressionState × Nat)
  | .nil => none
  | .leaf t rest =>
    if t.kind = .sign ∧ (t.text = ";" ∨ (t.text = "," ∧ commas = false)) then none
    -- a complete expression ends with its line
    else if st.expecting = false ∧ t.startsLine ∧ continuesLine t = false then none
    else match t.kind with
      | .word => some (st.word t rest)
      | .sign => some (st.sign t rest)
      | _ => some (st.complete, 0)
  | .group o _ _ _ =>
    if st.expecting then some (st.complete, 0)
    -- after an operand a curly bracket starts something else
    else if o.kind = .opening .curly ∨ (o.startsLine ∧ continuesLine o = false) then none
    else some (st, 0)

end ExpressionState

/-- The number of trees up to the end of an expression and whether an operand
is missing there. The second argument counts trees that belong to the one
before them. -/
def expressionFrom (commas : Bool) (st : ExpressionState) : Nat → Forest → Nat × Bool
  | _, .nil => (0, st.expecting)
  | k + 1, .leaf _ rest =>
    let r := expressionFrom commas st k rest
    (r.1 + 1, r.2)
  | k + 1, .group _ _ _ rest =>
    let r := expressionFrom commas st k rest
    (r.1 + 1, r.2)
  | 0, .leaf t rest =>
    match st.step commas (.leaf t rest) with
    | some (st', k) =>
      let r := expressionFrom commas st' k rest
      (r.1 + 1, r.2)
    | none => (0, st.expecting)
  | 0, .group o inner c rest =>
    match st.step commas (.group o inner c rest) with
    | some (st', k) =>
      let r := expressionFrom commas st' k rest
      (r.1 + 1, r.2)
    | none => (0, st.expecting)

/-- The number of trees of the expression that a forest starts with, up to a
comma. -/
def expressionSize (f : Forest) : Nat := (expressionFrom false {} 0 f).1

/-! ### Laws -/

/-- An expression ends before a semicolon. -/
theorem ExpressionState.step_semicolon (commas : Bool) (st : ExpressionState)
    (lead : List Trivia) (rest : Forest) :
    st.step commas (.leaf ⟨lead, .sign, ";"⟩ rest) = none := by
  rw [step, if_pos ⟨rfl, .inl rfl⟩]

theorem expressionFrom_semicolon (commas : Bool) (st : ExpressionState) (lead : List Trivia)
    (rest : Forest) :
    expressionFrom commas st 0 (.leaf ⟨lead, .sign, ";"⟩ rest) = (0, st.expecting) := by
  rw [expressionFrom, ExpressionState.step_semicolon]

theorem expressionFrom_nil (commas : Bool) (st : ExpressionState) (k : Nat) :
    expressionFrom commas st k .nil = (0, st.expecting) := by
  rw [expressionFrom]

theorem expressionSize_nil : expressionSize .nil = 0 := by
  rw [expressionSize, expressionFrom_nil]

end ScreenHooks.Script
