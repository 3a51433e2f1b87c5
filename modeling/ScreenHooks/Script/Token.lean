/-
The tokens of a script.

A token carries the blanks and comments before it, so the texts of a script's
tokens, in order, are the script without what follows the last token. Brackets
are tokens that open or close; the pieces of a template literal around its
holes, and the tags of an element, are brackets too.
-/
import ScreenHooks.Text.Search

namespace ScreenHooks.Script

/-- What may stand between tokens. -/
inductive Trivia where
  | blank (text : String)
  | comment (text : String)
  deriving DecidableEq

/-- The text of a piece of trivia. -/
def Trivia.text : Trivia → String
  | blank text => text
  | comment text => text

/-- The text of a comment. -/
def Trivia.comment? : Trivia → Option String
  | blank _ => none
  | comment text => some text

/-- The pairs of brackets. -/
inductive Bracket where
  | round
  | square
  | curly
  /-- A template literal with holes. -/
  | template
  /-- An element of markup, from its opening tag to its end. -/
  | element
  deriving DecidableEq

/-- The kinds of tokens. -/
inductive TokenKind where
  | word
  | number
  | string
  | regex
  /-- A template literal without holes, or a piece between two holes. -/
  | template
  /-- The text between tags. -/
  | content
  /-- An operator or another sign. -/
  | sign
  | opening (bracket : Bracket)
  | closing (bracket : Bracket)
  deriving DecidableEq

/-- A token with what stands before it. -/
structure Token where
  lead : List Trivia
  kind : TokenKind
  text : String
  deriving DecidableEq

namespace Token

/-- The text of the trivia before the token. -/
def leadText (t : Token) : String := String.join (t.lead.map Trivia.text)

/-- The token as it stands in the script. -/
def source (t : Token) : String := t.leadText ++ t.text

/-- The comments before the token. -/
def comments (t : Token) : List String := t.lead.filterMap Trivia.comment?

/-- Whether a character ends a line. -/
def isLineEnd (c : Char) : Bool :=
  c == '\n' || c == '\r' || c.toNat == 0x2028 || c.toNat == 0x2029

/-- Whether the token is the first of its line. -/
def startsLine (t : Token) : Bool := t.lead.any fun piece => piece.text.toList.any isLineEnd

end Token

/-! ### Words that take an operand -/

/-- The words after which an operand follows in an expression. -/
def operatorWords : List String :=
  ["typeof", "void", "delete", "new", "await", "in", "instanceof", "extends", "case", "do",
   "else", "return", "throw", "yield", "of", "default"]

/-- Whether an operand is complete after a token, so that a slash divides and a
less-than sign compares. -/
def Token.endsOperand (t : Token) : Bool :=
  match t.kind with
  | .word => !operatorWords.contains t.text
  | .number | .string | .regex | .content | .closing _ => true
  | .template => Text.startsWith t.text "\x60"
  | .sign => t.text == "++" || t.text == "--"
  | .opening _ => false

end ScreenHooks.Script
