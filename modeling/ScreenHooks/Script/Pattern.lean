/-
The names that a pattern binds.

A pattern is a name, or a group of curly or square brackets with patterns
inside. Keys, default values and computed names bind nothing, whatever names
stand in them.

* **`bound_leaf`** — a name binds itself;
* **`declarators_nil`** — nothing declares nothing.
-/
import ScreenHooks.Script.Expression

namespace ScreenHooks.Script

/-- What may come next in a pattern. -/
inductive PatternState where
  /-- The key of a property, or a name that is its own key. -/
  | key
  /-- The colon after a key. -/
  | colon
  /-- What is bound. -/
  | target
  /-- A default value, or the comma before the next part. -/
  | after
  deriving DecidableEq

namespace PatternState

/-- The state at the start of each part of an object or an array pattern. -/
def start (object : Bool) : PatternState := if object then key else target

/-- Reads a token: the name it binds, the state after it, and the number of
trees after it that belong to it. -/
def token (object : Bool) (st : PatternState) (t : Token) (rest : Forest) :
    Option String × PatternState × Nat :=
  if t.text = "," then (none, start object, 0)
  else match st with
    | key =>
      if t.text = "..." then (none, target, 0)
      -- `a` in braces is `a: a`
      else if t.kind = .word ∧ rest.word? ≠ some ":" then (some t.text, after, 0)
      else (none, colon, 0)
    | colon => (none, if t.text = ":" then target else colon, 0)
    | target => if t.kind = .word then (some t.text, after, 0) else (none, target, 0)
    | after => (none, after, if t.text = "=" then expressionSize rest else 0)

/-- The state after a group. -/
def afterGroup : PatternState → PatternState
  | key => colon
  | _ => after

end PatternState

/-- The names that the contents of an object or an array pattern bind. The
number counts trees that belong to the one before them. -/
def bindingsFrom (object : Bool) (st : PatternState) : Nat → Forest → List String
  | _, .nil => []
  | k + 1, .leaf _ rest => bindingsFrom object st k rest
  | k + 1, .group _ _ _ rest => bindingsFrom object st k rest
  | 0, .leaf t rest =>
    let r := st.token object t rest
    r.1.toList ++ bindingsFrom object r.2.1 r.2.2 rest
  | 0, .group o inner _ rest =>
    let names :=
      if st = .target then
        if o.kind = .opening .curly then bindingsFrom true .key 0 inner
        else bindingsFrom false .target 0 inner
      else []
    names ++ bindingsFrom object st.afterGroup 0 rest

/-- The names that a pattern binds, the pattern being the first tree. -/
def bound : Forest → List String
  | .nil => []
  | .leaf t _ => [t.text]
  | .group o inner _ _ =>
    if o.kind = .opening .curly then bindingsFrom true .key 0 inner
    else bindingsFrom false .target 0 inner

theorem bound_leaf (t : Token) (rest : Forest) : bound (.leaf t rest) = [t.text] := rfl

/-! ### Declarations of variables -/

/-- What follows a pattern, its type and its value in a declaration. -/
def dropDeclarator (f : Forest) : Forest :=
  match dropTyping (dropText "!" (f.drop 1)) with
  | .leaf t rest =>
    if t.text = "=" then rest.drop (expressionSize rest) else .leaf t rest
  | g => g

/-- Whether a forest starts with a pattern. -/
def startsPattern : Forest → Bool
  | .nil => false
  | .leaf t _ => t.kind == .word
  | .group o _ _ _ => o.kind == .opening .curly || o.kind == .opening .square

/-- The names of a declaration's patterns and the number of its trees. The
number in the argument counts trees that belong to the one before them; the
switch tells whether a pattern comes next. -/
def declaratorsFrom : Bool → Nat → Forest → List String × Nat
  | _, _, .nil => ([], 0)
  | next, k + 1, .leaf _ rest =>
    let r := declaratorsFrom next k rest
    (r.1, r.2 + 1)
  | next, k + 1, .group _ _ _ rest =>
    let r := declaratorsFrom next k rest
    (r.1, r.2 + 1)
  | next, 0, .leaf t rest =>
    if next then
      if t.kind = .word then
        let r := declaratorsFrom false (rest.length - (dropDeclarator (.leaf t rest)).length) rest
        (t.text :: r.1, r.2 + 1)
      else ([], 0)
    else if t.text = "," then
      let r := declaratorsFrom true 0 rest
      (r.1, r.2 + 1)
    else ([], 0)
  | next, 0, .group o inner c rest =>
    if next ∧ startsPattern (.group o inner c rest) then
      let r := declaratorsFrom false
        (rest.length - (dropDeclarator (.group o inner c rest)).length) rest
      (bound (.group o inner c rest) ++ r.1, r.2 + 1)
    else ([], 0)

/-- The names that a declaration of variables declares, after its keyword, and
the number of its trees. -/
def declarators (f : Forest) : List String × Nat := declaratorsFrom true 0 f

theorem declarators_nil : declarators .nil = ([], 0) := rfl

end ScreenHooks.Script
