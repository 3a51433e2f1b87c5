/-
The members of interfaces and classes.

A member is a method if parameters follow its name, and it is read alike in an
interface and in a class. An interface yields its methods with their
parameters, a class the names of the methods that a comment marks.

* **`interfaceMethods_nil`**, **`markedMethods_nil`** — an empty body has no
  methods.
-/
import ScreenHooks.Script.Parameters
import ScreenHooks.Text.Quoted

namespace ScreenHooks.Script

open Text

/-! ### One member -/

/-- The words that may stand before a member's name. -/
def memberModifiers : List String :=
  ["public", "private", "protected", "declare", "static", "abstract", "override", "readonly",
   "accessor", "async", "get", "set", "*"]

/-- Whether a forest starts with the name of a member, or with a modifier
before one. -/
def startsMember : Forest → Bool
  | .nil => false
  | .leaf t _ => t.kind == .word || t.kind == .string || t.kind == .number || t.text == "*"
  | .group o _ _ _ => o.kind == .opening .square

/-- The name and the parameters of a method. -/
structure MemberMethod where
  name : String
  parameters : Forest

/-- The value of a field after its equals sign, left out. -/
def dropValue : Forest → Forest
  | .leaf t rest => if t.text = "=" then rest.drop (expressionSize rest) else .leaf t rest
  | f => f

/-- What follows a member's name, with the method's parameters if it is one. -/
def memberRest (name : Option String) (f : Forest) : Option MemberMethod × Forest :=
  match dropAngles (dropText "!" (dropText "?" f)) with
  | .group o inner c rest =>
    if o.kind = .opening .round then
      (name.map (⟨·, inner⟩), dropGroup .curly (dropTyping rest))
    -- a static block
    else (none, dropGroup .curly (.group o inner c rest))
  | g => (none, dropValue (dropTyping g))

/-- The member that a forest starts with, and what follows it. Signatures that
are called, constructed or indexed have no name. -/
def memberAt (f : Forest) : Option MemberMethod × Forest :=
  match dropModifiers memberModifiers startsMember f with
  | .leaf t rest =>
    -- a signature that is called
    if t.text = "<" then memberRest none (.leaf t rest)
    else memberRest (if t.text = "new" then none else some (unquote t.text)) rest
  | .group o inner c rest =>
    if o.kind = .opening .square then
      memberRest (some (unquote (Forest.group o inner c .nil).text)) rest
    else memberRest none (.group o inner c rest)
  | .nil => (none, .nil)

/-! ### Interfaces -/

/-- The methods of an interface in their order, repeated names included. The
number counts trees that belong to the member before them. -/
def methodsFrom : Nat → Forest → List Method
  | _, .nil => []
  | k + 1, .leaf _ rest => methodsFrom k rest
  | k + 1, .group _ _ _ rest => methodsFrom k rest
  | 0, .leaf t rest =>
    if t.text = ";" ∨ t.text = "," then methodsFrom 0 rest
    else
      let r := memberAt (.leaf t rest)
      (r.1.map fun m => ⟨m.name, parameters m.parameters⟩).toList ++
        methodsFrom (sizeBefore rest r.2) rest
  | 0, .group o inner c rest =>
    let r := memberAt (.group o inner c rest)
    (r.1.map fun m => ⟨m.name, parameters m.parameters⟩).toList ++
      methodsFrom (sizeBefore rest r.2) rest

/-- The methods whose name no method before them has. -/
def firstOfName (seen : List String) : List Method → List Method
  | [] => []
  | m :: rest =>
    if m.name ∈ seen then firstOfName seen rest else m :: firstOfName (m.name :: seen) rest

/-- The methods of an interface; of several with one name the first counts. -/
def interfaceMethods (body : Forest) : List Method := firstOfName [] (methodsFrom 0 body)

theorem interfaceMethods_nil : interfaceMethods .nil = [] := rfl

/-! ### Classes -/

/-- The text that marks a method as a utility feature. -/
def utilityMark : String := "@utilityFeature"

/-- Whether a token keeps a line break before it from ending a block. -/
def joinsBlock (t : Token) : Bool :=
  (t.text.toList.head?.map fun c => "\x60,.;*%>=<?^|&/:[(".toList.contains c).getD false

/-- The trivia from the first line break on. -/
def fromLineBreak (lead : List Trivia) : List Trivia :=
  lead.dropWhile fun piece => match piece with
    | .blank text => !text.toList.contains '\n'
    | .comment _ => true

/-- The comments before a member that stand between it and the member before
it: on the line where a method's body ends, they belong to the body. -/
def memberComments (afterBody : Bool) (t : Token) : List String :=
  if afterBody ∧ !joinsBlock t ∧ fromLineBreak t.lead ≠ [] then
    (fromLineBreak t.lead).filterMap Trivia.comment?
  else t.comments

/-- Whether the last comment, if there is one, carries the mark. -/
def isMarked (comment : Option String) : Bool :=
  (comment.map (contains · utilityMark)).getD false

/-- What a class body has shown so far: the last comment since the last member
and whether that member ended with a body. -/
structure ClassState where
  comment : Option String := none
  afterBody : Bool := false

/-- The state with the comments before a token. -/
def ClassState.seeComments (st : ClassState) (t : Token) : ClassState :=
  ⟨(memberComments st.afterBody t).getLast?.or st.comment, false⟩

/-- Whether the trees before `rest` end with a body. -/
def endsWithBody (f rest : Forest) : Bool :=
  (f.drop (sizeBefore f rest - 1)).startsGroup .curly

/-- The names of the methods of a class that a comment marks. The number counts
trees that belong to the member before them. -/
def markedFrom (st : ClassState) : Nat → Forest → List String
  | _, .nil => []
  | k + 1, .leaf _ rest => markedFrom st k rest
  | k + 1, .group _ _ _ rest => markedFrom st k rest
  | 0, .leaf t rest =>
    let st' := st.seeComments t
    if t.text = ";" ∨ t.text = "," then markedFrom st' 0 rest
    else if t.text = "@" then
      markedFrom {} (sizeBefore rest (dropDecorator rest)) rest
    else
      let r := memberAt (.leaf t rest)
      (if isMarked st'.comment then (r.1.map (·.name)).toList else []) ++
        markedFrom ⟨none, r.1.isSome && endsWithBody (.leaf t rest) r.2⟩ (sizeBefore rest r.2) rest
  | 0, .group o inner c rest =>
    let st' := st.seeComments o
    let r := memberAt (.group o inner c rest)
    (if isMarked st'.comment then (r.1.map (·.name)).toList else []) ++
      markedFrom ⟨none, r.1.isSome && endsWithBody (.group o inner c rest) r.2⟩
        (sizeBefore rest r.2) rest

/-- The names of the methods of a class that a comment marks. -/
def markedMethods (body : Forest) : List String := markedFrom {} 0 body

theorem markedMethods_nil : markedMethods .nil = [] := rfl

end ScreenHooks.Script
