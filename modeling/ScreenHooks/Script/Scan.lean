/-
Cutting a script into tokens.

`pieceOf` reads one token or one piece of trivia; `scan` repeats it to the end.
The state remembers the brackets that decide how text is read (template
holes, tags and element contents) and whether an operand is complete, which
tells a division from a regular expression and a comparison from a tag.

* **`scan_nil`** — the empty script has no tokens.
-/
import ScreenHooks.Script.Token
import ScreenHooks.Text.Blank

namespace ScreenHooks.Script

open Text

/-- The two dialects: only the markup dialect has elements. -/
inductive Dialect where
  | plain
  | markup
  deriving DecidableEq

/-! ### Characters -/

/-- The characters between tokens. -/
def isSpace (c : Char) : Bool :=
  isBlank c || c.toNat == 0xFEFF || c.toNat == 0x2060 || c.toNat == 0x200B

/-- The ASCII characters that are no part of a word. -/
def isSignChar (c : Char) : Bool :=
  c.toNat < 0x20 || ":;\x60\"'@#.,|^&<>=+-*/%?!~()[]\x7b\x7d".toList.contains c

/-- A character inside a word. -/
def isWordPart (c : Char) : Bool := !isSignChar c && !isSpace c

/-- The first character of a word. -/
def isWordStart (c : Char) : Bool := isWordPart c && !c.isDigit

/-! ### Literals -/

/-- The rest of a string up to its closing quote, or to the end of the line. -/
def stringRest (quote : Char) : List Char → List Char
  | [] => []
  | '\\' :: c :: r => '\\' :: c :: stringRest quote r
  | c :: r => if c = quote then [c] else if c = '\n' then [] else c :: stringRest quote r

/-- The rest of a template piece: up to the closing quote or the next hole. -/
def templateRest : List Char → List Char
  | [] => []
  | '\\' :: c :: r => '\\' :: c :: templateRest r
  | '$' :: '\x7b' :: _ => ['$', '\x7b']
  | c :: r => if c = '\x60' then [c] else c :: templateRest r

/-- The rest of a regular expression up to its slash; a slash in a class does
not end it, and neither does it go on to the next line. -/
def regexRest? : Bool → List Char → Option (List Char)
  | _, [] => none
  | inClass, '\\' :: c :: r => (regexRest? inClass r).map fun rest => '\\' :: c :: rest
  | inClass, c :: r =>
    if c = '\n' then none
    else if c = '/' ∧ inClass = false then some [c]
    else
      (regexRest? (if c = '[' then true else if c = ']' then false else inClass) r).map (c :: ·)

/-- The rest of a block comment. -/
def blockRest : List Char → List Char
  | [] => []
  | '*' :: '/' :: _ => ['*', '/']
  | c :: r => c :: blockRest r

/-- The rest of a number; a sign belongs to it after the mark of a decimal
exponent. -/
def numberRest (hex afterMark : Bool) : List Char → List Char
  | [] => []
  | c :: r =>
    -- `1e-7` is one number, `0xe-7` a difference
    if (c = '+' ∨ c = '-') ∧ afterMark then c :: numberRest hex false r
    else if isWordPart c ∨ c = '.' then c :: numberRest hex ((c = 'e' ∨ c = 'E') ∧ !hex) r
    else []

/-- The signs of more than one character. A greater-than sign is always a token
of its own, because it may close type arguments. -/
def longSigns : List String :=
  ["===", "!==", "...", "=>", "==", "!=", "++", "--", "&&", "||", "**", "??", "?."]

/-- The sign that the text starts with. -/
def signText (cs : List Char) : List Char :=
  match longSigns.find? fun sign => sign.toList.isPrefixOf cs with
  -- `a?.5:b` is a choice between two values, not a chain
  | some "?." => if ((cs.drop 2).head?.map Char.isDigit).getD false then ['?'] else ['?', '.']
  | some sign => sign.toList
  | none => cs.take 1

/-! ### Elements -/

/-- A character of an element or attribute name. -/
def isTagPart (c : Char) : Bool := isWordPart c || c == '-' || c == '.' || c == ':'

/-- Whether the text after a less-than sign, where an operand is expected, goes
on as a tag. A name alone in angle brackets is a tag if it is closed later;
names before a comma or a constraint are type parameters. -/
def startsTag (cs : List Char) : Bool :=
  let name := cs.takeWhile isTagPart
  let rest := (cs.dropWhile isTagPart).dropWhile isSpace
  if name.isEmpty then cs.head? == some '>'
  else if !((name.head?.map isWordStart).getD false) then false
  else match rest with
    -- `<T>x` asserts a type where no `</T` follows
    | '>' :: r => containsChars ('<' :: '/' :: name) r
    | '/' :: '>' :: _ => true
    | ',' :: _ => false
    | '=' :: _ => false
    | '\x7b' :: _ => true
    -- an attribute name follows the tag name
    | c :: _ =>
      isWordStart c && String.ofList (rest.takeWhile isTagPart) != "extends" &&
        String.ofList name != "const"
    | [] => false

/-! ### State -/

/-- The brackets that change how text is read. -/
inductive Frame where
  /-- A curly bracket of code. -/
  | block
  /-- A hole of a template literal. -/
  | hole
  /-- An opening tag. -/
  | tag
  /-- A curly bracket inside an element. -/
  | container
  /-- The contents of an element. -/
  | contents
  deriving DecidableEq

/-- What has to be remembered from the text so far. -/
structure ScanState where
  frames : List Frame := []
  operand : Bool := false

/-- A piece of a script: trivia, or a token with the frames after it. -/
inductive Piece where
  | trivia (piece : Trivia)
  | token (kind : TokenKind) (text : List Char) (frames : List Frame)

/-! ### Pieces -/

/-- A template literal or the part of one before its first hole, after the
opening quote. -/
def templatePiece (frames : List Frame) (r : List Char) : Piece :=
  let text := '\x60' :: templateRest r
  if text.getLast? = some '\x7b' then .token (.opening .template) text (.hole :: frames)
  else .token .template text frames

/-- The part of a template literal after a hole. -/
def templateGoesOn (frames : List Frame) (r : List Char) : Piece :=
  let text := '\x7d' :: templateRest r
  if text.getLast? = some '\x7b' then .token .template text (.hole :: frames)
  else .token (.closing .template) text frames

/-- The closing curly bracket, by what it closes. -/
def closeCurly (frames : List Frame) (r : List Char) : Piece :=
  match frames with
  | .hole :: outer => templateGoesOn outer r
  | _ :: outer => .token (.closing .curly) ['\x7d'] outer
  | [] => .token (.closing .curly) ['\x7d'] []

/-- A piece that starts with a slash. -/
def slashPiece (state : ScanState) (r : List Char) : Piece :=
  match r with
  | '/' :: _ => .trivia (.comment (String.ofList ('/' :: r.takeWhile (!Token.isLineEnd ·))))
  | '*' :: r' => .trivia (.comment (String.ofList ('/' :: '*' :: blockRest r')))
  | _ =>
    -- after a complete operand a slash divides
    match (if state.operand then none else regexRest? false r) with
    | some body =>
      .token .regex ('/' :: (body ++ (r.drop body.length).takeWhile isWordPart)) state.frames
    | none => .token .sign ['/'] state.frames

/-- A piece of code that starts with the given character. -/
def codePiece (dialect : Dialect) (state : ScanState) (c : Char) (r : List Char) : Piece :=
  let frames := state.frames
  if isSpace c then .trivia (.blank (String.ofList ((c :: r).takeWhile isSpace)))
  else if c = '/' then slashPiece state r
  else if c = '"' ∨ c = '\'' then .token .string (c :: stringRest c r) frames
  else if c = '\x60' then templatePiece frames r
  else if c.isDigit ∨ (c = '.' ∧ (r.head?.map Char.isDigit).getD false) then
    let hex := c = '0' ∧ (r.head? = some 'x' ∨ r.head? = some 'X')
    .token .number (c :: numberRest hex false r) frames
  else if isWordStart c then .token .word ((c :: r).takeWhile isWordPart) frames
  else if c = '#' ∧ (r.head?.map isWordStart).getD false then
    .token .word ('#' :: r.takeWhile isWordPart) frames
  else if c = '(' then .token (.opening .round) [c] frames
  else if c = ')' then .token (.closing .round) [c] frames
  else if c = '[' then .token (.opening .square) [c] frames
  else if c = ']' then .token (.closing .square) [c] frames
  else if c = '\x7b' then .token (.opening .curly) [c] (.block :: frames)
  else if c = '\x7d' then closeCurly frames r
  -- after a complete operand the sign compares
  else if c = '<' ∧ dialect = .markup ∧ state.operand = false ∧ startsTag r then
    .token (.opening .element) [c] (.tag :: frames)
  else .token .sign (signText (c :: r)) frames

/-- A piece of an opening tag. -/
def tagPiece (frames : List Frame) (c : Char) (r : List Char) : Piece :=
  if isSpace c then .trivia (.blank (String.ofList ((c :: r).takeWhile isSpace)))
  else if c = '"' ∨ c = '\'' then
    let body := r.takeWhile (· != c)
    .token .string (c :: (body ++ (r.drop body.length).take 1)) frames
  else if c = '\x7b' then .token (.opening .curly) [c] (.container :: frames)
  else if c = '/' ∧ r.head? = some '>' then .token (.closing .element) ['/', '>'] (frames.drop 1)
  -- the tag is open: its element goes on to the closing tag
  else if c = '>' then .token .sign [c] (.contents :: frames.drop 1)
  else if isTagPart c then .token .word ((c :: r).takeWhile isTagPart) frames
  else .token .sign [c] frames

/-- A piece of the contents of an element. -/
def contentsPiece (frames : List Frame) (c : Char) (r : List Char) : Piece :=
  if c = '\x7b' then .token (.opening .curly) [c] (.container :: frames)
  else if c = '<' ∧ r.head? = some '/' then
    let body := r.takeWhile (· != '>')
    .token (.closing .element) (c :: (body ++ (r.drop body.length).take 1)) (frames.drop 1)
  else if c = '<' then .token (.opening .element) [c] (.tag :: frames)
  else .token .content ((c :: r).takeWhile fun d => d != '\x7b' && d != '<') frames

/-- The piece that a text with the given first character starts with. -/
def pieceOf (dialect : Dialect) (state : ScanState) (c : Char) (r : List Char) : Piece :=
  match state.frames with
  | .tag :: _ => tagPiece state.frames c r
  | .contents :: _ => contentsPiece state.frames c r
  | _ => codePiece dialect state c r

/-! ### The whole script -/

/-- The tokens of the rest of a script; `lead` holds the trivia since the last
token, and the first argument counts the characters of a piece that are still
to be passed over. Every piece has at least one character. -/
def scanFrom (dialect : Dialect) : Nat → ScanState → List Trivia → List Char → List Token
  | _, _, _, [] => []
  | k + 1, state, lead, _ :: r => scanFrom dialect k state lead r
  | 0, state, lead, c :: r =>
    match pieceOf dialect state c r with
    | .trivia piece => scanFrom dialect (piece.text.length - 1) state (lead ++ [piece]) r
    | .token kind text frames =>
      let token : Token := ⟨lead, kind, String.ofList text⟩
      token :: scanFrom dialect (text.length - 1) ⟨frames, token.endsOperand⟩ [] r

/-- The tokens of a script. A first line that names an interpreter is a
comment. -/
def scan (dialect : Dialect) (cs : List Char) : List Token :=
  match cs with
  | '#' :: '!' :: _ =>
    let line := cs.takeWhile (!Token.isLineEnd ·)
    scanFrom dialect 0 {} [.comment (String.ofList line)] (cs.drop line.length)
  | _ => scanFrom dialect 0 {} [] cs

theorem scan_nil (dialect : Dialect) : scan dialect [] = [] := rfl

end ScreenHooks.Script
