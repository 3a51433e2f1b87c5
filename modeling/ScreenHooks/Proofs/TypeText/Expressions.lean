/-
Type expressions and the names in their texts.

A type expression is written with any blanks between its tokens. Each way to build one leaves
its parts between separators, next to characters that make no difference, so the names of the
text are those of the tree: the named types in the order in which they are written, heads of
generics included, names of properties and parameters left out.

* **`Spells.namesIn`** — the names of a text are the names of what it spells;
* **`typeNames_expression`** — the names of a type expression.
-/
import ScreenHooks.Proofs.TypeText.Mentions

namespace ScreenHooks.TypeText

open Text

/-! ### Expressions -/

/-- The name of a property or a parameter, and whether it may be left out. -/
structure Label where
  name : String
  optional : Bool := false
  deriving DecidableEq, Repr

/-- A type expression. -/
inductive TypeExpr where
  /-- A named type, a primitive or a type that is in scope everywhere. -/
  | name (text : String)
  /-- A number or a string. -/
  | literal (text : String)
  | array (element : TypeExpr)
  | generic (head : String) (arguments : List TypeExpr)
  | union (left right : TypeExpr)
  | intersection (left right : TypeExpr)
  | parenthesized (inner : TypeExpr)
  | object (fields : List (Label × TypeExpr))
  | function (parameters : List (Label × TypeExpr)) (result : TypeExpr)
  /-- An operator such as `keyof` in front of a type. -/
  | operator (word : String) (operand : TypeExpr)

/-- A name, if it is one of a named type. -/
def named (text : String) : List String := if isBuiltin text then [] else [text]

mutual

/-- The named types of an expression in the order in which they are written. -/
def TypeExpr.names : TypeExpr → List String
  | .name text => named text
  | .literal _ => []
  | .array element => element.names
  | .generic head arguments => named head ++ typesNames arguments
  | .union left right => left.names ++ right.names
  | .intersection left right => left.names ++ right.names
  | .parenthesized inner => inner.names
  | .object fields => fieldsNames fields
  | .function parameters result => fieldsNames parameters ++ result.names
  | .operator _ operand => operand.names

/-- The named types of a list of expressions. -/
def typesNames : List TypeExpr → List String
  | [] => []
  | type :: rest => type.names ++ typesNames rest

/-- The named types of a list of properties or parameters. -/
def fieldsNames : List (Label × TypeExpr) → List String
  | [] => []
  | (_, type) :: rest => type.names ++ fieldsNames rest

end

/-! ### Texts -/

/-- Whether a text consists of blanks. -/
def AreBlanks (cs : List Char) : Prop := ∀ c ∈ cs, isBlank c = true

/-- The quotes around strings. -/
def quotes : List Char := ['\'', '"', '\x60']

/-- A character inside a number. -/
def isNumberPart (c : Char) : Bool := isNamePart c || c == '.' || c == '-' || c == '+'

/-- The texts of literals: numbers with or without a sign, and strings without separators and
colons. -/
inductive IsLiteral : List Char → Prop where
  | number {c : Char} {r : List Char} (hc : c.isDigit = true ∨ c = '.')
      (hr : ∀ d ∈ r, isNumberPart d = true) : IsLiteral (c :: r)
  | negative {blanks cs : List Char} (hblanks : AreBlanks blanks)
      (hcs : ∀ d ∈ cs, isNumberPart d = true) : IsLiteral ('-' :: (blanks ++ cs))
  | string {quote : Char} {body : List Char} (hquote : quote ∈ quotes)
      (hbody : ∀ c ∈ body, isSeparator c = false ∧ c ≠ ':' ∧ c ≠ quote) :
      IsLiteral (quote :: (body ++ [quote]))

/-- The texts of labels, a question mark behind the name of an optional one included. -/
inductive IsLabel : Label → List Char → Prop where
  | required {name : String} {before after : List Char} (hname : Whole name.toList)
      (hbefore : AreBlanks before) (hafter : AreBlanks after) :
      IsLabel ⟨name, false⟩ (before ++ name.toList ++ after)
  | optional {name : String} {before after last : List Char} (hname : Whole name.toList)
      (hbefore : AreBlanks before) (hafter : AreBlanks after) (hlast : AreBlanks last) :
      IsLabel ⟨name, true⟩ (before ++ name.toList ++ after ++ '?' :: last)

/-- The two kinds of labelled types. -/
inductive FieldKind where
  | property
  | parameter

/-- The marks that may stand between labelled types. -/
def FieldKind.marks : FieldKind → List Char
  | property => [',', ';']
  | parameter => [',']

/-- The parts of a type text with what they stand for. -/
inductive Part where
  | type (type : TypeExpr)
  | types (types : List TypeExpr)
  | fields (kind : FieldKind) (fields : List (Label × TypeExpr))

/-- The texts of the parts. A mark may also follow the last property or parameter, and an
operator ends before its operand starts. -/
inductive Spells : Part → List Char → Prop where
  | name {text : String} (h : isIdentifier text.toList = true) :
      Spells (.type (.name text)) text.toList
  | literal {text : String} (h : IsLiteral text.toList) :
      Spells (.type (.literal text)) text.toList
  | array {element : TypeExpr} {cs inside : List Char} (helement : Spells (.type element) cs)
      (hinside : AreBlanks inside) :
      Spells (.type (.array element)) (cs ++ '[' :: (inside ++ [']']))
  | generic {head : String} {arguments : List TypeExpr} {cs between : List Char}
      (hhead : isIdentifier head.toList = true) (hbetween : AreBlanks between)
      (harguments : Spells (.types arguments) cs) :
      Spells (.type (.generic head arguments)) (head.toList ++ between ++ '<' :: (cs ++ ['>']))
  | union {left right : TypeExpr} {s t : List Char} (hleft : Spells (.type left) s)
      (hright : Spells (.type right) t) : Spells (.type (.union left right)) (s ++ '|' :: t)
  | intersection {left right : TypeExpr} {s t : List Char} (hleft : Spells (.type left) s)
      (hright : Spells (.type right) t) :
      Spells (.type (.intersection left right)) (s ++ '&' :: t)
  | parenthesized {inner : TypeExpr} {cs : List Char} (hinner : Spells (.type inner) cs) :
      Spells (.type (.parenthesized inner)) ('(' :: (cs ++ [')']))
  | object {fields : List (Label × TypeExpr)} {cs : List Char}
      (hfields : Spells (.fields .property fields) cs) :
      Spells (.type (.object fields)) ('\x7b' :: (cs ++ ['\x7d']))
  | function {parameters : List (Label × TypeExpr)} {result : TypeExpr} {cs between t : List Char}
      (hparameters : Spells (.fields .parameter parameters) cs) (hbetween : AreBlanks between)
      (hresult : Spells (.type result) t) :
      Spells (.type (.function parameters result))
        ('(' :: (cs ++ ')' :: (between ++ '=' :: '>' :: t)))
  | operator {word : String} {operand : TypeExpr} {cs : List Char} (hword : word ∈ operators)
      (hoperand : Spells (.type operand) cs) (hends : ∀ c ∈ cs.head?, isNamePart c = false) :
      Spells (.type (.operator word operand)) (word.toList ++ cs)
  | before {type : TypeExpr} {c : Char} {cs : List Char} (hc : isBlank c = true)
      (htype : Spells (.type type) cs) : Spells (.type type) (c :: cs)
  | after {type : TypeExpr} {c : Char} {cs : List Char} (hc : isBlank c = true)
      (htype : Spells (.type type) cs) : Spells (.type type) (cs ++ [c])
  | oneType {type : TypeExpr} {cs : List Char} (htype : Spells (.type type) cs) :
      Spells (.types [type]) cs
  | moreTypes {type : TypeExpr} {rest : List TypeExpr} {s t : List Char}
      (htype : Spells (.type type) s) (hrest : Spells (.types rest) t) :
      Spells (.types (type :: rest)) (s ++ ',' :: t)
  | noField {kind : FieldKind} {blanks : List Char} (hblanks : AreBlanks blanks) :
      Spells (.fields kind []) blanks
  | oneField {kind : FieldKind} {label : Label} {type : TypeExpr} {s t : List Char}
      (hlabel : IsLabel label s) (htype : Spells (.type type) t) :
      Spells (.fields kind [(label, type)]) (s ++ ':' :: t)
  | moreFields {kind : FieldKind} {label : Label} {type : TypeExpr}
      {rest : List (Label × TypeExpr)} {s t u : List Char} {mark : Char}
      (hlabel : IsLabel label s) (htype : Spells (.type type) t) (hmark : mark ∈ kind.marks)
      (hrest : Spells (.fields kind rest) u) :
      Spells (.fields kind ((label, type) :: rest)) (s ++ ':' :: (t ++ mark :: u))

/-! ### Tokens -/

theorem AreBlanks.quiet {blanks : List Char} (h : AreBlanks blanks) :
    ∀ c ∈ blanks, isQuiet c = true := fun c hc => isQuiet_of_isBlank (h c hc)

theorem AreBlanks.whole {blanks : List Char} (h : AreBlanks blanks) : Whole blanks :=
  fun c hc => (isBlank_ne (h c hc)).1

theorem namesIn_blanks {blanks : List Char} (h : AreBlanks blanks) : namesIn blanks = [] := by
  have hquiet := namesIn_quiet h.quiet []
  rwa [List.nil_append, namesIn_nil] at hquiet

theorem imported?_toList (text : String) : (imported? text.toList).toList = named text := by
  rw [imported?, named, String.ofList_toList]
  split <;> rfl

theorem namesIn_identifier {text : String} (h : isIdentifier text.toList = true) :
    namesIn text.toList = named text := by
  rw [namesIn_word h, imported?_toList]

theorem isNumberPart_ne {c : Char} (h : isNumberPart c = true) :
    isSeparator c = false ∧ c ≠ ':' := by
  simp only [isNumberPart, Bool.or_eq_true, beq_iff_eq] at h
  rcases h with ((h | rfl) | rfl) | rfl
  · obtain ⟨hseparator, hne⟩ := isNamePart_ne h
    exact ⟨hseparator, fun hc => hne (by simp [hc])⟩
  all_goals decide

/-- A literal starts like no identifier and is one piece. -/
theorem IsLiteral.mute {cs : List Char} (h : IsLiteral cs) :
    (∃ c r, cs = c :: r ∧ isNameStart c = false ∧ isBlank c = false ∧ c ∉ ['[', ']']) ∧
      Whole cs ∧ ':' ∉ cs := by
  -- a text without separators and colons is one piece
  have hpieces : ∀ {cs : List Char}, (∀ c ∈ cs, isSeparator c = false ∧ c ≠ ':') →
      Whole cs ∧ ':' ∉ cs :=
    fun h => ⟨fun c hc => (h c hc).1, fun hmem => (h ':' hmem).2 rfl⟩
  cases h with
  | @number c r hc hr =>
    have hfirst : isNameStart c = false ∧ isBlank c = false ∧ c ∉ ['[', ']'] ∧
        isNumberPart c = true := by
      rcases hc with hc | rfl
      · obtain ⟨hpart, hstart⟩ := isDigit_part hc
        obtain ⟨-, hne⟩ := isNamePart_ne hpart
        refine ⟨hstart, isNamePart_not_blank hpart, fun hmem => hne ?_, by
          simp [isNumberPart, hpart]⟩
        simp only [List.mem_cons, List.not_mem_nil, or_false] at hmem ⊢
        tauto
      · decide
    exact ⟨⟨c, r, rfl, hfirst.1, hfirst.2.1, hfirst.2.2.1⟩, hpieces fun d hd =>
      isNumberPart_ne ((List.mem_cons.1 hd).elim (fun heq => heq ▸ hfirst.2.2.2) (hr d))⟩
  | negative hblanks hcs =>
    refine ⟨⟨_, _, rfl, by decide⟩, hpieces fun d hd => ?_⟩
    rcases List.mem_cons.1 hd with rfl | hd
    · decide
    rcases List.mem_append.1 hd with hd | hd
    · obtain ⟨hseparator, hne⟩ := isBlank_ne (hblanks d hd)
      exact ⟨hseparator, fun hc => hne (by simp [hc])⟩
    · exact isNumberPart_ne (hcs d hd)
  | @string quote body hquote hbody =>
    have hfirst : isNameStart quote = false ∧ isBlank quote = false ∧ quote ∉ ['[', ']'] ∧
        isSeparator quote = false ∧ quote ≠ ':' := by
      simp only [quotes, List.mem_cons, List.not_mem_nil, or_false] at hquote
      rcases hquote with rfl | rfl | rfl <;> decide
    refine ⟨⟨_, _, rfl, hfirst.1, hfirst.2.1, hfirst.2.2.1⟩, hpieces fun d hd => ?_⟩
    rcases List.mem_cons.1 hd with rfl | hd
    · exact hfirst.2.2.2
    rcases List.mem_append.1 hd with hd | hd
    · exact ⟨(hbody d hd).1, (hbody d hd).2.1⟩
    · exact List.mem_singleton.1 hd ▸ hfirst.2.2.2

theorem namesIn_literal {cs : List Char} (h : IsLiteral cs) : namesIn cs = [] := by
  obtain ⟨⟨c, r, rfl, hstart, hblank, hbracket⟩, hwhole, hcolon⟩ := h.mute
  exact namesIn_mute hstart hblank hwhole hcolon fun hc => absurd (by simp [hc]) hbracket

theorem IsLabel.whole {label : Label} {cs : List Char} (h : IsLabel label cs) : Whole cs := by
  have hmark : Whole ['?'] := by simp [Whole, isSeparator]
  cases h with
  | required hname hbefore hafter => exact (hbefore.whole.append hname).append hafter.whole
  | optional hname hbefore hafter hlast =>
    exact ((hbefore.whole.append hname).append hafter.whole).append (hmark.append hlast.whole)

theorem isSeparator_mark {kind : FieldKind} {mark : Char} (h : mark ∈ kind.marks) :
    isSeparator mark = true := by
  have hall : ∀ mark ∈ [',', ';'], isSeparator mark = true := List.all_eq_true.1 (by decide)
  refine hall mark ?_
  cases kind with
  | property => exact h
  | parameter => exact List.mem_cons.2 (.inl (List.mem_singleton.1 h))

/-- No type starts with a square bracket. -/
theorem Spells.head {part : Part} {cs : List Char} (h : Spells part cs) {e : TypeExpr}
    (htype : part = .type e) : ∃ c r, cs = c :: r ∧ c ∉ ['[', ']'] := by
  have hname : ∀ {text : String}, isIdentifier text.toList = true →
      ∃ c r, text.toList = c :: r ∧ c ∉ ['[', ']'] := by
    intro text hidentifier
    obtain ⟨hne, hparts, -⟩ := isIdentifier_parts hidentifier
    obtain ⟨c, r, hcs⟩ := List.exists_cons_of_ne_nil hne
    refine ⟨c, r, hcs, fun hmem => (isNamePart_ne (hparts c (by simp [hcs]))).2 ?_⟩
    simp only [List.mem_cons, List.not_mem_nil, or_false] at hmem ⊢
    tauto
  have hmore : ∀ {s t : List Char}, (∃ c r, s = c :: r ∧ c ∉ ['[', ']']) →
      ∃ c r, s ++ t = c :: r ∧ c ∉ ['[', ']'] :=
    fun ⟨c, r, hs, hc⟩ => ⟨c, r ++ _, congrArg (· ++ _) hs, hc⟩
  induction h generalizing e with
  | name h => exact hname h
  | literal h =>
    obtain ⟨⟨c, r, hcs, -, -, hc⟩, -⟩ := h.mute
    exact ⟨c, r, hcs, hc⟩
  | array _ _ ih => exact hmore (ih rfl)
  | generic hhead _ _ _ => exact hmore (hmore (hname hhead))
  | union _ _ ih _ => exact hmore (ih rfl)
  | intersection _ _ ih _ => exact hmore (ih rfl)
  | parenthesized _ _ => exact ⟨_, _, rfl, by decide⟩
  | object _ _ => exact ⟨_, _, rfl, by decide⟩
  | function _ _ _ _ _ => exact ⟨_, _, rfl, by decide⟩
  | operator hword _ _ _ =>
    exact hmore (hname (isIdentifier_operator (by rwa [String.ofList_toList])))
  | before hc _ _ =>
    refine ⟨_, _, rfl, fun hmem => (isBlank_ne hc).2 ?_⟩
    simp only [List.mem_cons, List.not_mem_nil, or_false] at hmem ⊢
    tauto
  | after _ _ ih => exact hmore (ih rfl)
  | oneType | moreTypes | noField | oneField | moreFields => cases htype

/-! ### Names -/

/-- The named types of a part. -/
def Part.names : Part → List String
  | .type e => e.names
  | .types es => typesNames es
  | .fields _ fs => fieldsNames fs

/-- The names between two separators. -/
theorem namesIn_enclosed {first last : Char} (hfirst : isSeparator first = true)
    (hlast : isSeparator last = true) (cs : List Char) :
    namesIn (first :: (cs ++ [last])) = namesIn cs := by
  have hopen := namesIn_separator hfirst [] (cs ++ [last])
  rw [List.nil_append] at hopen
  rw [hopen, namesIn_separator hlast, namesIn_nil, List.append_nil, List.nil_append]

/-- A type in brackets, or followed by brackets with blanks inside. -/
theorem namesIn_array {inside : List Char} (h : AreBlanks inside) (cs : List Char) :
    namesIn (cs ++ '[' :: (inside ++ [']'])) = namesIn cs := by
  refine namesIn_quiet (fun c hc => ?_) cs
  rcases List.mem_cons.1 hc with rfl | hc
  · decide
  rcases List.mem_append.1 hc with hc | hc
  · exact h.quiet c hc
  · exact List.mem_singleton.1 hc ▸ by decide

/-- The names of a field are those of its type. -/
theorem namesIn_field {label : Label} {s : List Char} (h : IsLabel label s) (t : List Char) :
    namesIn (s ++ ':' :: t) = namesIn t := namesIn_label h.whole t

/-- The names of a text are the named types of what it spells. -/
theorem Spells.namesIn {part : Part} {cs : List Char} (h : Spells part cs) :
    namesIn cs = part.names := by
  -- each way to build a part leaves its own parts between separators, or next to characters
  -- that make no difference
  induction h with
  | name h => exact namesIn_identifier h
  | literal h => exact namesIn_literal h
  | array _ hinside ih => rw [namesIn_array hinside, ih]; rfl
  | @generic head arguments cs between hhead hbetween _ ih =>
    have harguments := namesIn_separator (c := '>') (by decide) cs []
    rw [namesIn_separator (by decide), namesIn_quiet hbetween.quiet, namesIn_identifier hhead,
      harguments, namesIn_nil, List.append_nil, ih]
    rfl
  | union _ _ ihs iht => rw [namesIn_separator (by decide), ihs, iht]; rfl
  | intersection _ _ ihs iht => rw [namesIn_separator (by decide), ihs, iht]; rfl
  | parenthesized _ ih => rw [namesIn_enclosed (by decide) (by decide), ih]; rfl
  | object _ ih => rw [namesIn_enclosed (by decide) (by decide), ih]; rfl
  | @function parameters result cs between t _ hbetween _ ihs iht =>
    have hopen := namesIn_separator (c := '(') (by decide) []
      (cs ++ ')' :: (between ++ '=' :: '>' :: t))
    have harrow : between ++ '=' :: '>' :: t = (between ++ ['=']) ++ '>' :: t := by simp
    have hequals : ∀ c ∈ ['='], isQuiet c = true := List.all_eq_true.1 (by decide)
    rw [List.nil_append] at hopen
    rw [hopen, namesIn_nil, namesIn_separator (by decide), harrow, namesIn_separator (by decide),
      namesIn_quiet hequals, namesIn_blanks hbetween, ihs, iht]
    rfl
  | operator hword hoperand hends ih =>
    obtain ⟨c, r, rfl, hbracket⟩ := hoperand.head rfl
    have hfirst : ∀ d ∈ (c :: r).head?, isNamePart d = false ∧ d ≠ '[' := fun d hd =>
      ⟨hends d hd, fun hopen => hbracket (by simp [Option.some.inj hd, hopen])⟩
    rw [namesIn_operator (by rwa [String.ofList_toList]) hfirst, ih]
    rfl
  | before hc _ ih => rw [namesIn_blank hc, ih]
  | after hc _ ih =>
    rw [namesIn_quiet (by simpa using isQuiet_of_isBlank hc), ih]
  | oneType _ ih => rw [ih]; exact (List.append_nil _).symm
  | moreTypes _ _ ihs iht => rw [namesIn_separator (by decide), ihs, iht]; rfl
  | noField hblanks => exact namesIn_blanks hblanks
  | oneField hlabel _ ih =>
    rw [namesIn_field hlabel, ih]
    exact (List.append_nil _).symm
  | moreFields hlabel _ hmark _ iht ihu =>
    rw [namesIn_field hlabel, namesIn_separator (isSeparator_mark hmark), iht, ihu]
    rfl

/-- The names of a type text are the named types of its expression, without repeats and in the
order of their first occurrence. -/
theorem typeNames_expression {e : TypeExpr} {text : String}
    (h : Spells (.type e) text.toList) : typeNames text = Names.ofList e.names := by
  rw [typeNames_eq, mentions_eq, h.namesIn]
  rfl

/-- An object type with a function type inside, and its text. -/
def nestedExpression : TypeExpr :=
  .object [(⟨"a", true⟩, .operator "keyof" (.name "Modes")),
    (⟨"b", false⟩, .function [(⟨"x", false⟩, .array (.name "Foo"))]
      (.generic "Map" [.name "Key", .literal "'x-1'"]))]

theorem spells_nested : Spells (.type nestedExpression)
    "\x7b a?: keyof Modes; b: (x: Foo[ ])=>Map<Key, 'x-1'> \x7d".toList := by
  have hnone : AreBlanks [] := by simp [AreBlanks]
  have hone : AreBlanks [' '] := by simp [AreBlanks, isBlank]
  have hblank : isBlank ' ' = true := by decide
  have hname : ∀ text : String, isIdentifier text.toList = true →
      Spells (.type (.name text)) (' ' :: text.toList) := fun text h => .before hblank (.name h)
  have hrequired : ∀ name : String, Whole name.toList → ∀ before, AreBlanks before →
      IsLabel ⟨name, false⟩ (before ++ name.toList ++ []) :=
    fun name h before hbefore => .required h hbefore hnone
  have hoptional : IsLabel ⟨"a", true⟩ ([' '] ++ "a".toList ++ [] ++ ['?']) :=
    .optional (by simp [Whole, isSeparator]) hone hnone hnone
  have hliteral : IsLiteral "'x-1'".toList :=
    @IsLiteral.string '\'' ['x', '-', '1'] (by decide) (by simp [isSeparator])
  have hmodes : Spells (.type (.operator "keyof" (.name "Modes")))
      ("keyof".toList ++ " Modes".toList) :=
    .operator (by decide) (hname "Modes" (by decide)) (by simpa using isBlank_not_part hblank)
  have hfoo : Spells (.type (.array (.name "Foo"))) " Foo[ ]".toList :=
    .array (hname "Foo" (by decide)) hone
  have harguments : Spells (.types [.name "Key", .literal "'x-1'"])
      ("Key".toList ++ ',' :: " 'x-1'".toList) :=
    .moreTypes (.name (by decide)) (.oneType (.before hblank (.literal hliteral)))
  have hfunction : Spells (.type (.function [(⟨"x", false⟩, .array (.name "Foo"))]
      (.generic "Map" [.name "Key", .literal "'x-1'"]))) " (x: Foo[ ])=>Map<Key, 'x-1'>".toList :=
    .before hblank (.function
      (.oneField (hrequired "x" (by simp [Whole, isSeparator]) [] hnone) hfoo) hnone
      (.generic (by decide) hnone harguments))
  exact .object (.moreFields hoptional (.before hblank hmodes) (show ';' ∈ _ by decide)
    (.oneField (hrequired "b" (by simp [Whole, isSeparator]) [' '] hone)
      (.after hblank hfunction)))

theorem typeNames_nested :
    Spells (.type nestedExpression)
      "\x7b a?: keyof Modes; b: (x: Foo[ ])=>Map<Key, 'x-1'> \x7d".toList ∧
    typeNames "\x7b a?: keyof Modes; b: (x: Foo[ ])=>Map<Key, 'x-1'> \x7d" =
      Names.ofList ["Modes", "Foo", "Key"] :=
  ⟨spells_nested, typeNames_expression spells_nested⟩

end ScreenHooks.TypeText
