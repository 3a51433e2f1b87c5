/-
The parameters of a method.

A parameter is a pattern with an optional mark, type and default value. Its
name is the text of the pattern, and its type the text of the type, or the
comment that the type begins with. The receiver `this` is no parameter.

* **`parameters_nil`** — empty parentheses hold no parameters.
-/
import ScreenHooks.Script.Pattern
import ScreenHooks.Script.Signature

namespace ScreenHooks.Script

/-! ### What stands before a name -/

/-- What follows a decorator after its sign: names with dots between them and
their arguments, or an expression in parentheses. -/
def dropDecorator : Forest → Forest
  | .leaf _ rest =>
    match rest with
    | .leaf dot rest' =>
      if dot.text = "." then dropDecorator rest' else dropGroup .round (dropAngles rest)
    | _ => dropGroup .round rest
  | f => dropGroup .round f

/-- What follows the decorators. The number counts trees that belong to the
decorator before them. -/
def dropDecoratorsFrom : Nat → Forest → Forest
  | _, .nil => .nil
  | k + 1, .leaf _ rest => dropDecoratorsFrom k rest
  | k + 1, .group _ _ _ rest => dropDecoratorsFrom k rest
  | 0, .leaf t rest =>
    if t.text = "@" then dropDecoratorsFrom (sizeBefore rest (dropDecorator rest)) rest
    else .leaf t rest
  | 0, .group o inner c rest => .group o inner c rest

/-- What follows the decorators. -/
def dropDecorators (f : Forest) : Forest := dropDecoratorsFrom 0 f

/-- Only the sign of a decorator starts one. -/
@[simp] theorem dropDecorators_leaf {t : Token} (h : t.text ≠ "@") (rest : Forest) :
    dropDecorators (.leaf t rest) = .leaf t rest := by
  simp [dropDecorators, dropDecoratorsFrom, h]

@[simp] theorem dropDecorators_group (o inner c rest) :
    dropDecorators (.group o inner c rest) = .group o inner c rest := rfl

/-- What follows the words of a list that stand before something allowed. -/
def dropModifiers (modifiers : List String) (allowed : Forest → Bool) : Forest → Forest
  | .leaf t rest =>
    if modifiers.contains t.text ∧ allowed rest then dropModifiers modifiers allowed rest
    else .leaf t rest
  | f => f

/-! ### Parameters -/

/-- The words that may stand before a parameter. -/
def parameterModifiers : List String :=
  ["public", "private", "protected", "override", "readonly"]

/-- Whether a forest starts with a parameter's pattern. -/
def startsParameter (f : Forest) : Bool := f.word? == some "..." || startsPattern f

/-- The number of trees of a parameter's pattern. -/
def patternSize (f : Forest) : Nat :=
  let n := if f.word? = some "..." then 2 else 1
  if (f.drop n).word? = some "!" then n + 1 else n

/-- The text of the type after a colon. -/
def typeText? : Forest → Option String
  | .leaf t rest =>
    -- a comment between the colon and the type is taken for the type
    if t.text ≠ ":" ∨ typeSize rest = 0 then none
    else some (rest.comments.head?.getD (rest.take (typeSize rest)).text)
  | _ => none

/-- The parameter that a forest starts with, unless it is the receiver, and
what follows it. -/
def parameterAt (f : Forest) : Option Parameter × Forest :=
  let start := dropModifiers parameterModifiers startsParameter (dropDecorators f)
  let pattern := start.take (patternSize start)
  let marked := start.drop (patternSize start)
  let typed := dropText "?" marked
  let rest := dropTyping typed
  let name := pattern.text
  let optional := marked.word? == some "?" || rest.word? == some "="
  let after := match rest with
    | .leaf t value => if t.text = "=" then value.drop (expressionSize value) else .leaf t value
    | g => g
  (if name = "this" then none else some ⟨name, (typeText? typed).getD "any", optional⟩, after)

/-- The parameters between parentheses. The number counts trees that belong to
the parameter before them. -/
def parametersFrom : Nat → Forest → List Parameter
  | _, .nil => []
  | k + 1, .leaf _ rest => parametersFrom k rest
  | k + 1, .group _ _ _ rest => parametersFrom k rest
  | 0, .leaf t rest =>
    if t.text = "," then parametersFrom 0 rest
    else
      let r := parameterAt (.leaf t rest)
      r.1.toList ++ parametersFrom (sizeBefore rest r.2) rest
  | 0, .group o inner c rest =>
    let r := parameterAt (.group o inner c rest)
    r.1.toList ++ parametersFrom (sizeBefore rest r.2) rest

/-- The parameters between parentheses. -/
def parameters (f : Forest) : List Parameter := parametersFrom 0 f

theorem parameters_nil : parameters .nil = [] := rfl

end ScreenHooks.Script
