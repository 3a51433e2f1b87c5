/-
Statements that are read tree by tree.

The reader of an expression goes on from tree to tree with a small state. Trees
that bring it from one state to another, whatever follows them, can be put one
after another; a semicolon ends the expression, and with it the declaration and
the statement that it stands in.

* **`expressionSize_passes`** — an expression reaches up to its semicolon;
* **`variablesAt?_value`** — a declaration of one pattern with a value;
* **`at_exported`**, **`at_declaration`**, **`at_imports`**, **`at_list`** — the
  statements of generated modules.
-/
import ScreenHooks.Proofs.Script.Statements

namespace ScreenHooks.Script

open Text

namespace Forest

/-! ### Trees -/

/-- One blank. -/
abbrev spaced : List Trivia := [.blank " "]

/-- A word before a forest. -/
abbrev word (lead : List Trivia) (text : String) (rest : Forest) : Forest :=
  .leaf ⟨lead, .word, text⟩ rest

/-- A sign before a forest. -/
abbrev sign (lead : List Trivia) (text : String) (rest : Forest) : Forest :=
  .leaf ⟨lead, .sign, text⟩ rest

/-- A string literal before a forest. -/
abbrev literal (lead : List Trivia) (text : String) (rest : Forest) : Forest :=
  .leaf ⟨lead, .string, text⟩ rest

/-- A group in parentheses before a forest. -/
abbrev round (lead : List Trivia) (inner rest : Forest) : Forest :=
  .group ⟨lead, .opening .round, "("⟩ inner ⟨[], .closing .round, ")"⟩ rest

/-- A group in square brackets before a forest. -/
abbrev square (lead : List Trivia) (inner : Forest) (final : List Trivia) (rest : Forest) :
    Forest :=
  .group ⟨lead, .opening .square, "["⟩ inner ⟨final, .closing .square, "]"⟩ rest

/-- A group in curly brackets before a forest. -/
abbrev curly (lead : List Trivia) (inner : Forest) (final : List Trivia) (rest : Forest) :
    Forest :=
  .group ⟨lead, .opening .curly, "\x7b"⟩ inner ⟨final, .closing .curly, "\x7d"⟩ rest

theorem length_eq_zero {f : Forest} (h : f.length = 0) : f = .nil := by
  cases f with
  | nil => rfl
  | leaf t rest => simp [length] at h
  | group o inner c rest => simp [length] at h

@[simp] theorem word?_leaf (t : Token) (rest : Forest) : (leaf t rest).word? = some t.text := rfl

@[simp] theorem word?_group (o inner c rest) : (group o inner c rest).word? = none := rfl

@[simp] theorem drop_append (a b : Forest) : (a ++ b).drop a.length = b := by
  induction a with
  | nil => rfl
  | leaf t rest ih => exact ih
  | group o inner c rest _ ih => exact ih

theorem take_append (a b : Forest) : (a ++ b).take a.length = a := by
  induction a with
  | nil => cases b <;> rfl
  | leaf t rest ih => exact congrArg (leaf t) ih
  | group o inner c rest _ ih => exact congrArg (group o inner c) ih

end Forest

open Forest

/-! ### Types -/

/-- A name reaches up to the arrow after it, whatever the name. -/
theorem typeSize_before_arrow (lead mid : List Trivia) (name : String) (rest : Forest) :
    typeSize (word lead name (sign mid "=>" rest)) = 1 := by
  simp [typeSize, typeSizeFrom, TypeState.step, TypeState.operandToken, TypeState.afterToken,
    TypeState.complete, startsOperand]

/-- A choice between a name and `null` reaches up to the sign of the value. -/
theorem typeSize_nullable (name : String) (rest : Forest) :
    typeSize (word spaced name <| sign spaced "|" <| word spaced "null" <|
      sign spaced "=" rest) = 3 := by
  simp [typeSize, typeSizeFrom, TypeState.step, TypeState.operandToken, TypeState.afterToken,
    TypeState.complete, TypeState.operator, startsOperand]

/-! ### Expressions -/

/-- The state after an operand. -/
def ExpressionState.done : ExpressionState := { expecting := false }

/-- Whether trees bring the reader of an expression from one state to another,
whatever follows them. -/
def Passes (st : ExpressionState) (f : Forest) (st' : ExpressionState) : Prop :=
  ∀ rest, expressionFrom false st 0 (f ++ rest) =
    (f.length + (expressionFrom false st' 0 rest).1, (expressionFrom false st' 0 rest).2)

theorem Passes.append {st st' st'' : ExpressionState} {a b : Forest} (ha : Passes st a st')
    (hb : Passes st' b st'') : Passes st (a ++ b) st'' := by
  intro rest
  rw [append_assoc, ha, hb, length_append, Nat.add_assoc]

/-- The state of the reader among open choices, before an operand or after one. -/
def ExpressionState.among (expecting : Bool) (choices : Nat) : ExpressionState :=
  ⟨expecting, choices, false⟩

section Steps

variable {st st' : ExpressionState}

theorem passes_leaf {t : Token} (h : ∀ rest, st.step false (.leaf t rest) = some (st', 0)) :
    Passes st (.leaf t .nil) st' := by
  intro rest
  simp [expressionFrom, h, length, Nat.add_comm]

theorem passes_tree {o inner c : _} (h : ∀ rest, st.step false (.group o inner c rest) = some (st', 0)) :
    Passes st (.group o inner c .nil) st' := by
  intro rest
  simp [expressionFrom, h, length, Nat.add_comm]

end Steps

section Among

open ExpressionState

variable (expecting : Bool) (choices : Nat) (lead : List Trivia) {text : String}

theorem passes_literal {kind : TokenKind} (h : kind = .string ∨ kind = .number) :
    Passes (.among true choices) (.leaf ⟨lead, kind, text⟩ .nil) (.among false choices) :=
  passes_leaf fun rest => by
    rcases h with rfl | rfl <;> simp [step, among, complete]

theorem passes_bracketed (o c : Token) (inner : Forest) :
    Passes (.among true choices) (.group o inner c .nil) (.among false choices) :=
  passes_tree fun rest => by simp [step, among, complete]

/-- Arguments or an index after an operand, on any line. -/
theorem passes_applied {bracket : Bracket} (h : bracket = .round ∨ bracket = .square)
    (inner : Forest) (c : Token) :
    Passes (.among expecting choices) (.group ⟨lead, .opening bracket, text⟩ inner c .nil)
      (.among false choices) :=
  passes_tree fun rest => by
    rcases h with rfl | rfl <;> cases expecting <;> simp [step, among, complete, continuesLine]

theorem passes_dot {mark name : String} (h : mark = "." ∨ mark = "?.") (mid : List Trivia) :
    Passes (.among expecting choices) (sign lead mark <| word mid name .nil) (.among false choices) := by
  have hmark : Passes (.among expecting choices) (sign lead mark .nil) ⟨true, choices, true⟩ :=
    passes_leaf fun rest => by
      rcases h with rfl | rfl <;> simp [step, among, ExpressionState.sign, operator, continuesLine]
  have hname : Passes ⟨true, choices, true⟩ (word mid name .nil) (.among false choices) :=
    passes_leaf fun rest => by simp [step, among, ExpressionState.word, complete]
  exact hmark.append hname

end Among

/-- Whether a word is an operand where one is expected. -/
def IsOperand (name : String) : Prop :=
  name ∉ operatorWords ∧ name ≠ "function" ∧ name ≠ "class"

theorem passes_operand (lead : List Trivia) {name : String} (h : IsOperand name) :
    Passes {} (word lead name .nil) .done := by
  obtain ⟨hoperator, hfunction, hclass⟩ := h
  exact passes_leaf fun rest => by
    simp [ExpressionState.step, ExpressionState.word, ExpressionState.complete,
      ExpressionState.done, hoperator, hfunction, hclass]

theorem passes_group (o c : Token) (inner : Forest) : Passes {} (.group o inner c .nil) .done :=
  passes_bracketed 0 o c inner

/-- The arguments of a call. -/
theorem passes_call (inner : Forest) : Passes .done (round [] inner .nil) .done :=
  passes_applied false 0 [] (.inl rfl) inner _

theorem passes_arrow : Passes .done (sign spaced "=>" .nil) {} :=
  passes_leaf fun rest => by
    simp [ExpressionState.step, ExpressionState.sign, ExpressionState.operator,
      ExpressionState.done, continuesLine]

/-- A return type with its arrow. -/
theorem passes_returns (name : String) :
    Passes .done (sign [] ":" <| word spaced name <| sign spaced "=>" .nil) {} := by
  intro rest
  simp [expressionFrom, ExpressionState.step, ExpressionState.sign, ExpressionState.operator,
    ExpressionState.complete, ExpressionState.done, continuesLine, typeSize_before_arrow, length]
  omega

/-- A member, whatever its name. -/
theorem passes_member (name : String) :
    Passes .done (sign [] "." <| word [] name .nil) .done :=
  passes_dot false 0 [] (.inl rfl) []

/-- A type argument with the arguments of the call. -/
theorem passes_typed_call (name : String) (inner : Forest) :
    Passes .done (sign [] "<" <| word [] name <| sign [] ">" <| round [] inner .nil) .done := by
  intro rest
  have hsize : ExpressionState.argumentsSize? (word [] name <| sign [] ">" <| round [] inner rest) =
      some 2 := by
    simp [ExpressionState.argumentsSize?, anglesFrom, isArgumentToken, drop,
      ExpressionState.endsArguments]
  simp [expressionFrom, ExpressionState.step, ExpressionState.sign, ExpressionState.done,
    continuesLine, hsize, Token.startsLine, length]
  omega

/-- An expression reaches up to its semicolon. -/
theorem expressionSize_passes {value : Forest} {st : ExpressionState} (h : Passes {} value st)
    (rest : Forest) : expressionSize (value ++ sign [] ";" rest) = value.length := by
  rw [expressionSize, h, expressionFrom_semicolon, Nat.add_zero]

/-! ### Variables -/

theorem dropDeclarator_value {typing value : Forest} {st : ExpressionState}
    (htyping : ∀ rest, dropTyping (dropText "!" (typing ++ sign spaced "=" rest)) =
      sign spaced "=" rest) (hvalue : Passes {} value st) {f rest : Forest}
    (hf : f.drop 1 = typing ++ sign spaced "=" (value ++ sign [] ";" rest)) :
    dropDeclarator f = sign [] ";" rest := by
  rw [dropDeclarator, hf, htyping]
  simp only [if_true]
  rw [expressionSize_passes hvalue, drop_append]

theorem declaratorsFrom_skip (next : Bool) (a b : Forest) :
    declaratorsFrom next a.length (a ++ b) =
      ((declaratorsFrom next 0 b).1, (declaratorsFrom next 0 b).2 + a.length) := by
  induction a with
  | nil => rfl
  | leaf t rest ih => simp only [length, leaf_append, declaratorsFrom, ih, Nat.add_assoc]
  | group o inner c rest _ ih => simp only [length, group_append, declaratorsFrom, ih, Nat.add_assoc]

/-- A declaration of a pattern with a type and a value binds what the pattern
binds. -/
theorem variablesAt?_value {pattern typing value : Forest} {st : ExpressionState}
    (hpattern : pattern.length = 1 ∧ startsPattern pattern = true)
    (htyping : ∀ rest, dropTyping (dropText "!" (typing ++ sign spaced "=" rest)) =
      sign spaced "=" rest) (hvalue : Passes {} value st) (rest : Forest) :
    variablesAt? (pattern ++ (typing ++ sign spaced "=" (value ++ sign [] ";" rest))) =
      some (.bindings (bound pattern), rest) := by
  obtain ⟨hlength, hstarts⟩ := hpattern
  -- `tail` is what the pattern's tree is followed by, up to the semicolon
  generalize htail : typing ++ sign spaced "=" value = tail
  have hmore : typing ++ sign spaced "=" (value ++ sign [] ";" rest) = tail ++ sign [] ";" rest := by
    rw [← htail, append_assoc, leaf_append]
  have hend : declaratorsFrom false 0 (sign [] ";" rest) = ([], 0) := by simp [declaratorsFrom]
  -- the reader of declarations counts back from what follows the value
  have htree : ∀ f : Forest, f.drop 1 = tail ++ sign [] ";" rest →
      declaratorsFrom false ((tail ++ sign [] ";" rest).length - (dropDeclarator f).length)
        (tail ++ sign [] ";" rest) = ([], tail.length) := by
    intro f hf
    rw [dropDeclarator_value htyping hvalue (hf.trans hmore.symm), length_append,
      Nat.add_sub_cancel, declaratorsFrom_skip, hend, Nat.zero_add]
  rw [hmore]
  cases pattern with
  | nil => cases hlength
  | leaf t more =>
    obtain rfl := length_eq_zero (Nat.succ.inj hlength)
    have hkind : t.kind = .word := by simpa [startsPattern] using hstarts
    have hdecl := htree (.leaf t (tail ++ sign [] ";" rest)) rfl
    simp only [leaf_append, nil_append, variablesAt?, startsPattern, hkind, BEq.rfl, if_true,
      declarators, declaratorsFrom, hdecl, drop, drop_append, dropText, bound]
  | group o inner c more =>
    obtain rfl := length_eq_zero (Nat.succ.inj hlength)
    have hagain : ∀ more, startsPattern (.group o inner c more) = true := fun _ => hstarts
    have hdecl := htree (.group o inner c (tail ++ sign [] ";" rest)) rfl
    simp only [group_append, nil_append, variablesAt?, hagain, if_true, declarators,
      declaratorsFrom, and_self, hdecl, drop, drop_append, dropText, bound, List.append_nil]

/-! ### Statements -/

/-- An export starts with its keyword, if it is no label. -/
theorem at_export {f : Forest} (hcolon : f.word? ≠ some ":") (lead : List Trivia) :
    Statement.at (word lead "export" f) = exportAt f := by
  simp [Statement.at, startsControl, startsGroup, controlWords, named?, drop, simpleAt,
    hcolon]

/-- So does an import that is no expression. -/
theorem at_import {f : Forest} (hcolon : f.word? ≠ some ":") (hdot : f.word? ≠ some ".")
    (hround : f.startsGroup .round = false) (lead : List Trivia) :
    Statement.at (word lead "import" f) = importAt f := by
  have hstarts : startsImport (word lead "import" f) = true := by
    simp [startsImport, drop, hdot, hround]
  simp [Statement.at, startsControl, startsGroup, controlWords, named?, drop, simpleAt,
    hstarts, hcolon]

theorem at_exported {f rest : Forest} {d : Declaration} (h : variablesAt? f = some (d, rest))
    (hword : f.word? ≠ some "enum") (lead : List Trivia) :
    Statement.at (word lead "export" (word spaced "const" f)) = (.exported d, rest) := by
  rw [at_export (by simp)]
  simp [exportAt, exportedAt, declarationAt?, plainDeclarationAt?,
    hword, h]

theorem at_declaration {f rest : Forest} {d : Declaration} (h : variablesAt? f = some (d, rest))
    (hword : f.word? ≠ some "enum") (hcolon : f.word? ≠ some ":") {keyword : String}
    (hkeyword : keyword = "const" ∨ keyword = "let") (lead : List Trivia) :
    Statement.at (word lead keyword f) = (.declaration d, rest) := by
  rcases hkeyword with rfl | rfl <;>
    simp [Statement.at, startsControl, startsGroup, controlWords, named?, drop, hcolon, simpleAt,
      startsImport, declarationAt?, plainDeclarationAt?, hword, h]

/-- The end of a statement that names a module. -/
def fromModule (text : String) : Forest :=
  word spaced "from" <| literal spaced text <| sign [] ";" .nil

theorem source?_fromModule (text : String) (rest : Forest) :
    source? (fromModule text ++ rest) = some (unquote text, rest) := by
  simp [fromModule, source?, dropAttributes, dropText]

theorem at_imports (inner : Forest) (text : String) (lead : List Trivia) (rest : Forest) :
    Statement.at (word lead "import" <| curly spaced inner spaced <| fromModule text ++ rest) =
      (.imports (specifiers inner) (unquote text), rest) := by
  rw [at_import (by simp) (by simp) rfl]
  simp [importAt, named?, importClause, importedNames, source?_fromModule]

theorem at_importsTypes (inner : Forest) (text : String) (lead : List Trivia) (rest : Forest) :
    Statement.at (word lead "import" <| word spaced "type" <| curly spaced inner spaced <|
      fromModule text ++ rest) = (.imports (specifiers inner) (unquote text), rest) := by
  rw [at_import (by simp) (by simp) rfl]
  simp [importAt, named?, marksTypes, importClause, importedNames, source?_fromModule]

theorem at_importsDefault {name text : String} (hname : isWord name = true) (htext : IsQuoted text)
    (lead : List Trivia) (rest : Forest) :
    Statement.at (word lead "import" <| word spaced name <| fromModule text ++ rest) =
      (.imports [⟨"default", name, false⟩] (unquote text), rest) := by
  have hfrom : (fromModule text ++ rest).word? = some "from" := rfl
  have hcolon : name ≠ ":" := isWord_ne hname (by decide)
  have hdot : name ≠ "." := isWord_ne hname (by decide)
  have hquote : text ≠ "from" := by
    rintro rfl
    obtain ⟨body, hbody, -⟩ := htext
    exact absurd (List.cons.inj hbody).1 (by decide)
  have hnames : importedNames (fromModule text ++ rest) = ([], fromModule text ++ rest) := by
    simp [fromModule, importedNames]
  have hcomma : dropText "," (fromModule text ++ rest) = fromModule text ++ rest := by
    simp [fromModule, dropText]
  have hmarks : marksTypes (fromModule text ++ rest) = false := by
    simp [fromModule, marksTypes, hquote]
  rw [at_import (by simpa using hcolon) (by simpa using hdot) rfl]
  simp [importAt, named?, hmarks, importClause, hfrom, hnames, hcomma, source?_fromModule]

theorem at_list (inner : Forest) (text : String) (lead : List Trivia) (rest : Forest) :
    Statement.at (word lead "export" <| curly spaced inner spaced <| fromModule text ++ rest) =
      (.exportList (specifiers inner) (some (unquote text)) false, rest) := by
  rw [at_export (by simp)]
  simp [exportAt, listAt, source?_fromModule]

theorem at_typeList (inner : Forest) (text : String) (lead : List Trivia) (rest : Forest) :
    Statement.at (word lead "export" <| word spaced "type" <| curly spaced inner spaced <|
      fromModule text ++ rest) =
      (.exportList (specifiers inner) (some (unquote text)) true, rest) := by
  rw [at_export (by simp)]
  simp [exportAt, listAt, source?_fromModule]

theorem at_typeStar (text : String) (lead : List Trivia) (rest : Forest) :
    Statement.at (word lead "export" <| word spaced "type" <| sign spaced "*" <|
      fromModule text ++ rest) = (.exportTypeStar (unquote text), rest) := by
  rw [at_export (by simp)]
  simp [exportAt, starAt, source?_fromModule]

end ScreenHooks.Script
