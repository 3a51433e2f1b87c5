/-
Expressions that are read to their end.

What stands in brackets may be any tokens and brackets in pairs. An expression is built
from operands by members, calls, operators and choices, with any blanks between its tokens.
The reader of expressions goes through it whatever choices are open around it, so it ends
where the expression does.

* **`IsBalanced.fills`** — code in brackets;
* **`Chunk.linked`** — parts with a token between them;
* **`IsCode.holds`** — each part of an expression is read as one;
* **`Crosses.expressionSize`** — an expression before a comma or a semicolon.
-/
import ScreenHooks.Naming
import ScreenHooks.Proofs.Script.Lexemes
import ScreenHooks.Proofs.Script.Spans

namespace ScreenHooks.Script

open Text Forest

/-! ### Code in brackets -/

/-- The text of code in brackets: tokens, and brackets in pairs, with any blanks before
them. -/
inductive IsBalanced : String → Prop where
  | blank {s : String} (h : IsGap s) : IsBalanced s
  | token {before text rest : String} {kind : TokenKind} (hkind : kind ∈ leafKinds)
      (htext : IsLexeme kind text) (hbefore : IsGap before)
      (hstopped : Stopped kind text rest.toList) (hrest : IsBalanced rest) :
      IsBalanced (before ++ text ++ rest)
  | group {before inner rest : String} {bracket : Bracket} (hbracket : bracket ∈ codeBrackets)
      (hbefore : IsGap before) (hinner : IsBalanced inner) (hrest : IsBalanced rest) :
      IsBalanced (before ++ (bracket.opens ++ inner ++ bracket.closes) ++ rest)

/-- Whether a character is a closing bracket. -/
def isCloser (c : Char) : Bool := ")]\x7d".toList.contains c

/-- Any token ends before a closing bracket. -/
theorem stopsAt_closer {c : Char} (hc : isCloser c = true) (kind : TokenKind) (text : String) :
    stopsAt kind text c = true := by
  have hall : ")]\x7d".toList.all (fun d => !isWordPart d &&
      longSigns.all (!·.toList.contains d)) = true := by
    decide
  have hc := List.all_eq_true.1 hall c (List.contains_iff_mem.1 hc)
  simp only [Bool.and_eq_true, Bool.not_eq_true', List.all_eq_true] at hc
  refine stopsAt_of_outside hc.1 (fun long hmem hd => ?_) kind text
  have hnone := hc.2 long hmem
  rw [List.contains_iff_mem.2 hd] at hnone
  cases hnone

/-- Whether a forest with blanks after it is the given text in brackets. -/
structure Fills (f : Forest) (after s : String) : Prop where
  source : f.source ++ after = s
  blank : IsGap after
  cut : ∀ rest, headIs isCloser rest = true → f.Cut (after.toList ++ rest)

/-- A forest in brackets, with blanks before them, before another one. -/
def bracketed (before : String) (bracket : Bracket) (inner : Forest) (after : String)
    (rest : Forest) : Forest :=
  .group ⟨gap before, .opening bracket, bracket.opens⟩ inner
    ⟨gap after, .closing bracket, bracket.closes⟩ rest

theorem Fills.source_bracketed {inner : Forest} {after s : String} (h : Fills inner after s)
    (before : String) (bracket : Bracket) (rest : Forest) :
    (bracketed before bracket inner after rest).source =
      before ++ (bracket.opens ++ s ++ bracket.closes) ++ rest.source := by
  simp only [bracketed, source_group, source_gap, ← h.source, String.append_assoc]

theorem Fills.cut_bracketed {inner : Forest} {after s : String} (h : Fills inner after s)
    {before : String} (hbefore : IsGap before) {bracket : Bracket}
    (hbracket : bracket ∈ codeBrackets) {rest : Forest} {more : List Char} (hrest : rest.Cut more) :
    (bracketed before bracket inner after rest).Cut more := by
  have hopen : ∀ (text : String) (rest : List Char), Stopped (.opening bracket) text rest :=
    fun text rest => headIs_iff.2 fun _ _ => rfl
  have hclose : ∀ (text : String) (rest : List Char), Stopped (.closing bracket) text rest :=
    fun text rest => headIs_iff.2 fun _ _ => rfl
  have hcloser : ∀ bracket ∈ codeBrackets, bracket.closes.toList ≠ [] ∧
      headIs isCloser bracket.closes.toList = true := by
    decide
  obtain ⟨hne, hhead⟩ := hcloser bracket hbracket
  refine ⟨⟨bracket, rfl, rfl⟩, ⟨.opening hbracket, apart_gap hbefore _ _, hopen _ _⟩, ?_,
    ⟨.closing hbracket, apart_gap h.blank _ _, hclose _ _⟩, hrest⟩
  rw [source_gap, String.toList_append, List.append_assoc]
  exact h.cut _ (by rw [headIs_append_of_ne_nil hne, hhead])

theorem IsBalanced.fills {s : String} (h : IsBalanced s) : ∃ f after, Fills f after s := by
  induction h with
  | @blank s h => exact ⟨.nil, s, String.empty_append, h, fun _ _ => trivial⟩
  | @token before text rest kind hkind htext hbefore hstopped _ ih =>
    obtain ⟨g, after, hg⟩ := ih
    refine ⟨.leaf ⟨gap before, kind, text⟩ g, after, ?_, hg.blank, fun more hmore => ?_⟩
    · rw [source_leaf, source_gap, String.append_assoc, hg.source]
    · refine ⟨hkind, ⟨htext, apart_gap hbefore _ _, ?_⟩, hg.cut more hmore⟩
      rw [← List.append_assoc, ← String.toList_append, hg.source]
      exact headIs_append hstopped fun _ => headIs_mono (fun c hc => stopsAt_closer hc kind text) hmore
  | @group before inner rest bracket hbracket hbefore _ _ ihInner ih =>
    obtain ⟨f, final, hf⟩ := ihInner
    obtain ⟨g, after, hg⟩ := ih
    refine ⟨bracketed before bracket f final g, after, ?_, hg.blank, fun more hmore => ?_⟩
    · rw [hf.source_bracketed, String.append_assoc, hg.source]
    · exact hf.cut_bracketed hbefore hbracket (hg.cut more hmore)

/-! ### Texts of expressions -/

/-- Whether a text is an identifier. -/
def IsIdentifier (s : String) : Prop := isWord s = true ∧ s ∉ reservedWords

/-- Whether a word is an operand: an identifier, or a word that is a value of its own. -/
def IsOperandWord (s : String) : Prop := isWord s = true ∧ (s ∈ reservedWords → s ∈ valueWords)

/-- The words before an operand. -/
def prefixWords : List String := ["typeof", "void", "delete", "new", "await", "yield"]

/-- The signs before an operand. -/
def prefixSigns : List String := ["!", "-", "+", "~"]

/-- The words between operands. -/
def infixWords : List String := ["in", "instanceof"]

/-- The signs between operands. -/
def infixSigns : List String :=
  ["=", "=>", "==", "!=", "===", "!==", "|", "&", "^", "||", "&&", "??", "+", "-", "*", "%", "**", ">"]

/-- The parts of expressions: operands take calls and members. -/
inductive CodePart where
  | operand
  | expression

/-- The texts of expressions that are built from words, strings, numbers and code in
brackets. A sign stands alone if the text after it does not go on with it. -/
inductive IsCode : CodePart → String → Prop where
  | word {text : String} (h : IsOperandWord text) : IsCode .operand text
  | string {text : String} (h : IsLexeme .string text) : IsCode .operand text
  | group {inner : String} {bracket : Bracket} (hbracket : bracket ∈ codeBrackets)
      (hinner : IsBalanced inner) : IsCode .operand (bracket.opens ++ inner ++ bracket.closes)
  | member {a before mark after name : String} (ha : IsCode .operand a)
      (hmark : mark = "." ∨ mark = "?.") (hname : isWord name = true) (hbefore : IsGap before)
      (hafter : IsGap after) : IsCode .operand (a ++ before ++ mark ++ after ++ name)
  | applied {a before inner : String} {bracket : Bracket} (ha : IsCode .operand a)
      (hbracket : bracket = .round ∨ bracket = .square) (hinner : IsBalanced inner)
      (hbefore : IsGap before) :
      IsCode .operand (a ++ before ++ (bracket.opens ++ inner ++ bracket.closes))
  | operand {a : String} (ha : IsCode .operand a) : IsCode .expression a
  | number {text : String} (h : IsLexeme .number text) : IsCode .expression text
  | prefixWord {word after a : String} (ha : IsCode .expression a) (hword : word ∈ prefixWords)
      (hafter : IsGap after) (hne : after ≠ "") : IsCode .expression (word ++ after ++ a)
  | prefixSign {mark after a : String} (ha : IsCode .expression a) (hmark : mark ∈ prefixSigns)
      (hafter : IsGap after) (hstopped : Stopped .sign mark (after ++ a).toList) :
      IsCode .expression (mark ++ after ++ a)
  | infixWord {a before word after b : String} (ha : IsCode .expression a)
      (hb : IsCode .expression b) (hword : word ∈ infixWords) (hbefore : IsGap before)
      (hbeforeNe : before ≠ "") (hafter : IsGap after) (hafterNe : after ≠ "") :
      IsCode .expression (a ++ before ++ word ++ after ++ b)
  | infixSign {a before mark after b : String} (ha : IsCode .expression a)
      (hb : IsCode .expression b) (hmark : mark ∈ infixSigns) (hbefore : IsGap before)
      (hafter : IsGap after) (hstopped : Stopped .sign mark (after ++ b).toList) :
      IsCode .expression (a ++ before ++ mark ++ after ++ b)
  | choice {a before after b mid final c : String} (ha : IsCode .expression a)
      (hb : IsCode .expression b) (hc : IsCode .expression c) (hbefore : IsGap before)
      (hafter : IsGap after) (hmid : IsGap mid) (hfinal : IsGap final)
      (hstopped : Stopped .sign "?" (after ++ b).toList) :
      IsCode .expression (a ++ before ++ "?" ++ after ++ (b ++ mid ++ ":" ++ final ++ c))

/-! ### Tokens of a part -/

/-- Whether a character after a part does not go on with its last token. -/
def CodePart.stops : CodePart → Char → Bool
  | operand => stopsAt .word ""
  | expression => stopsAt .number ""

/-- Whether a forest starts right with its first token, and each token ends where the
next one starts, whatever follows the last. -/
structure Chunk (part : CodePart) (f : Forest) : Prop where
  first : ∃ t, f.first? = some t ∧ t.lead = []
  cut : ∀ rest, headIs part.stops rest = true → f.Cut rest

/-- A token before a forest that may have blanks before it. -/
def linked (before : String) (kind : TokenKind) (text after : String) (f : Forest) : Forest :=
  .leaf ⟨gap before, kind, text⟩ (f.leadBy (gap after))

theorem CodePart.stops_space (part : CodePart) {c : Char} (hc : isSpace c = true) :
    part.stops c = true := by
  cases part with
  | operand => exact stopsAt_space hc .word ""
  | expression => exact stopsAt_space hc .number ""

theorem CodePart.stops_expression {part : CodePart} {c : Char}
    (hc : CodePart.expression.stops c = true) : part.stops c = true := by
  cases part with
  | operand =>
    simp only [CodePart.stops, stopsAt, Bool.and_eq_true] at hc ⊢
    exact hc.1
  | expression => exact hc

section Chunk

variable {part : CodePart} {f g : Forest} {before text after : String} {kind : TokenKind}

theorem Chunk.tight (h : Chunk part f) : ∀ t ∈ f.first?, t.lead = [] := by
  obtain ⟨t, hfirst, hlead⟩ := h.first
  intro u hu
  rw [hfirst] at hu
  obtain rfl := Option.some.inj hu
  exact hlead

theorem Chunk.source_linked (h : Chunk part f) (before : String) (kind : TokenKind)
    (text after : String) :
    (linked before kind text after f).source = before ++ text ++ after ++ f.source := by
  obtain ⟨t, hfirst, -⟩ := h.first
  rw [linked, source_leaf, source_gap, source_leadBy hfirst, String.append_assoc, String.append_assoc,
    String.append_assoc]

theorem Chunk.source_ne (h : Chunk part f) : f.source.toList ≠ [] := by
  obtain ⟨t, hfirst, -⟩ := h.first
  have hcut := h.cut [] rfl
  have htoken : ∀ t rest, Token.Cut t rest → t.source.toList ≠ [] := by
    intro t rest ht
    have hne := ht.lexeme.ne_empty
    simp [Token.source, hne]
  cases f with
  | nil => cases hfirst
  | leaf u rest => simp [htoken u _ hcut.2.1]
  | group o inner c rest => simp [htoken o _ hcut.2.1]

/-- A part before what does not go on with it. -/
theorem Chunk.append {other : CodePart} (hf : Chunk other f)
    (hg : ∀ rest, headIs part.stops rest = true →
      headIs other.stops (g.source.toList ++ rest) = true ∧ g.Cut rest) : Chunk part (f ++ g) := by
  obtain ⟨t, hfirst, hlead⟩ := hf.first
  refine ⟨⟨t, by rw [first?_append, hfirst]; rfl, hlead⟩, fun rest hrest => ?_⟩
  obtain ⟨hhead, hcut⟩ := hg rest hrest
  exact cut_append.2 ⟨hf.cut _ hhead, hcut⟩

/-- A token before a part is cut off where what follows it stops the token. -/
theorem Chunk.cut_linked (h : Chunk part f) (hkind : kind ∈ leafKinds) (htext : IsLexeme kind text)
    (hbefore : IsGap before) (hafter : IsGap after)
    (hstopped : Stopped kind text (after ++ f.source).toList) {rest : List Char}
    (hrest : headIs part.stops rest = true) : (linked before kind text after f).Cut rest := by
  obtain ⟨t, hfirst, -⟩ := h.first
  refine ⟨hkind, ⟨htext, apart_gap hbefore _ _, ?_⟩, (h.cut rest hrest).leadBy h.tight hafter⟩
  rw [source_leadBy hfirst]
  refine headIs_append hstopped fun hnil => absurd hnil ?_
  simp [h.source_ne]

/-- A part with a token before it. -/
theorem Chunk.led (h : Chunk part f) (hkind : kind ∈ leafKinds) (htext : IsLexeme kind text)
    (hafter : IsGap after) (hstopped : Stopped kind text (after ++ f.source).toList) :
    Chunk part (linked "" kind text after f) :=
  ⟨⟨_, rfl, rfl⟩, fun _ hrest => h.cut_linked hkind htext isGap_empty hafter hstopped hrest⟩

/-- Two parts with a token between them. -/
theorem Chunk.joined {other : CodePart} (hf : Chunk other f) (hg : Chunk part g)
    (hkind : kind ∈ leafKinds) (htext : IsLexeme kind text) (hbefore : IsGap before)
    (hafter : IsGap after) (hhead : headIs other.stops (before ++ text).toList = true)
    (hstopped : Stopped kind text (after ++ g.source).toList) :
    Chunk part (f ++ linked before kind text after g) := by
  refine hf.append fun rest hrest =>
    ⟨?_, hg.cut_linked hkind htext hbefore hafter hstopped hrest⟩
  rw [hg.source_linked, String.append_assoc, String.toList_append, List.append_assoc]
  have hne : (before ++ text).toList ≠ [] := by simp [htext.ne_empty]
  rw [headIs_append_of_ne_nil hne, hhead]

end Chunk

/-! ### Crossing expressions -/

/-- Whether the reader of expressions goes through a forest where it expects an operand,
whatever choices are open. A name such as `of` leaves it expecting one. -/
def Crosses (f : Forest) : Prop :=
  ∃ expecting, ∀ choices lead, Passes (.among true choices) (f.leadBy lead) (.among expecting choices)

section Tokens

open ExpressionState

variable (expecting : Bool) (choices : Nat) (lead : List Trivia) {text : String}

theorem passes_name (h : text ∉ ["function", "class"]) :
    Passes (.among true choices) (word lead text .nil)
      (.among (decide (text ∈ operatorWords)) choices) := by
  simp only [List.mem_cons, List.not_mem_nil, or_false, not_or] at h
  refine passes_leaf fun rest => ?_
  by_cases hoperator : text ∈ operatorWords <;>
    simp [step, among, ExpressionState.word, complete, h.1, h.2, hoperator]

theorem passes_prefixWord (h : text ∈ prefixWords) :
    Passes (.among true choices) (word lead text .nil) (.among true choices) := by
  have hall : ∀ word ∈ prefixWords, word ∉ ["function", "class"] ∧ word ∈ operatorWords := by decide
  obtain ⟨hplain, hoperator⟩ := hall text h
  simpa [hoperator] using passes_name choices lead hplain

theorem passes_prefixSign (h : text ∈ prefixSigns) :
    Passes (.among true choices) (sign lead text .nil) (.among true choices) :=
  passes_leaf fun rest => by
    simp only [prefixSigns, List.mem_cons, List.not_mem_nil, or_false] at h
    rcases h with rfl | rfl | rfl | rfl <;> simp [step, among, ExpressionState.sign, operator]

theorem passes_infixWord (h : text ∈ infixWords) :
    Passes (.among expecting choices) (word lead text .nil) (.among true choices) :=
  passes_leaf fun rest => by
    simp only [infixWords, List.mem_cons, List.not_mem_nil, or_false] at h
    rcases h with rfl | rfl <;> cases expecting <;>
      simp [step, among, ExpressionState.word, operator, continuesLine, operatorWords]

theorem passes_infixSign (h : text ∈ infixSigns) :
    Passes (.among expecting choices) (sign lead text .nil) (.among true choices) := by
  have hall : ∀ mark ∈ infixSigns,
      mark ∉ [";", ",", "<", ":", "?", "!", "++", "--", ".", "?.", "@", "...", "~"] := by
    decide
  have hother := hall text h
  simp only [List.mem_cons, List.not_mem_nil, or_false, not_or] at hother
  exact passes_leaf fun rest => by simp [step, among, ExpressionState.sign, operator, continuesLine, hother]

/-- A question mark opens a choice. -/
theorem passes_question : Passes (.among expecting choices) (sign lead "?" .nil)
    (.among true (choices + 1)) :=
  passes_leaf fun rest => by simp [step, among, ExpressionState.sign, operator, continuesLine]

/-- Its colon closes it. -/
theorem passes_colon : Passes (.among expecting (choices + 1)) (sign lead ":" .nil)
    (.among true choices) :=
  passes_leaf fun rest => by simp [step, among, ExpressionState.sign, operator, continuesLine]

end Tokens

section Crosses

variable {f g : Forest} {t : Token} {kind : TokenKind} {text : String}

theorem Crosses.led (hg : Crosses g)
    (h : ∀ choices lead, Passes (.among true choices) (.leaf ⟨lead, kind, text⟩ .nil)
      (.among true choices)) (after : String) : Crosses (linked "" kind text after g) := by
  obtain ⟨expecting, hpasses⟩ := hg
  refine ⟨expecting, fun choices lead => ?_⟩
  exact (h choices (lead ++ gap "")).append (hpasses choices (gap after))

theorem Crosses.joined (hf : Crosses f) (hfirst : f.first? = some t) (hg : Crosses g)
    (h : ∀ expecting choices lead, Passes (.among expecting choices) (.leaf ⟨lead, kind, text⟩ .nil)
      (.among true choices)) (before after : String) :
    Crosses (f ++ linked before kind text after g) := by
  obtain ⟨mid, hpassesF⟩ := hf
  obtain ⟨expecting, hpassesG⟩ := hg
  refine ⟨expecting, fun choices lead => ?_⟩
  rw [leadBy_append hfirst]
  exact (hpassesF choices lead).append
    ((h mid choices (gap before)).append (hpassesG choices (gap after)))

end Crosses

/-! ### Parts of expressions -/

/-- Whether a forest is read as a part of an expression. -/
structure CodePart.Holds (part : CodePart) (f : Forest) : Prop extends Chunk part f where
  crosses : Crosses f

section Parts

variable {part : CodePart} {f g : Forest} {before text mark after s : String} {kind : TokenKind}

theorem chunk_leaf (hkind : kind ∈ leafKinds) (h : IsLexeme kind text)
    (hstops : ∀ c, part.stops c = true → stopsAt kind text c = true) :
    Chunk part (.leaf ⟨[], kind, text⟩ .nil) :=
  ⟨⟨_, rfl, rfl⟩, fun _ hrest => ⟨hkind, ⟨h, apart_tight _ _, headIs_mono hstops hrest⟩, trivial⟩⟩

theorem chunk_name (h : isWord text = true) : Chunk .operand (word [] text .nil) :=
  chunk_leaf (by decide) (.word h) fun _ hc => hc

theorem chunk_bracketed {inner : Forest} {bracket : Bracket} (hbracket : bracket ∈ codeBrackets)
    (h : Fills inner after s) : Chunk part (bracketed "" bracket inner after .nil) :=
  ⟨⟨_, rfl, rfl⟩, fun _ _ => h.cut_bracketed isGap_empty hbracket trivial⟩

/-- A part ends before blanks. -/
theorem headIs_blank {p : Char → Bool} (hp : ∀ c, isSpace c = true → p c = true) (hs : IsGap s)
    (hne : s ≠ "") (more : String) : headIs p (s ++ more).toList = true := by
  rw [String.toList_append]
  exact headIs_append (headIs_iff.2 fun c hc => hp c (hs c (List.mem_of_head? hc))) fun hnil =>
    absurd (String.toList_inj.1 hnil) hne

/-- And before a sign, with blanks or without. -/
theorem headIs_mark (hbefore : IsGap before) (hmark : headIs part.stops mark.toList = true) :
    headIs part.stops (before ++ mark).toList = true := by
  rw [String.toList_append]
  exact headIs_gap hbefore (fun _ => part.stops_space) hmark

/-- A point ends before the name of a member. -/
theorem stopped_dot (hmark : mark = "." ∨ mark = "?.") {name : String} (hname : isWord name = true)
    (hafter : IsGap after) : Stopped .sign mark (after ++ name).toList := by
  have hquiet : ∀ c, isQuiet c = true → stopsAt .sign mark c = true := by
    intro c hc
    have hdot : '.' ≠ c := isQuiet_ne hc '.' (by simp)
    simp only [isQuiet, Bool.and_eq_true, Bool.not_eq_true'] at hc
    rcases hmark with rfl | rfl <;> simp [stopsAt, longSigns, List.isPrefixOf, hdot.symm, hc.2]
  obtain ⟨c, r, htext, hc, -⟩ := isWord_iff.1 hname
  rw [String.toList_append]
  refine headIs_gap hafter (fun c hc => hquiet c (isSpace_ends hc).2) ?_
  rw [htext, headIs_cons]
  exact hquiet c (isQuiet_of_isWordStart hc)

theorem holds_word (h : IsOperandWord text) : CodePart.operand.Holds (word [] text .nil) := by
  have hplain : text ∉ ["function", "class"] := by
    have hall : ∀ keyword ∈ ["function", "class"], keyword ∈ reservedWords ∧ keyword ∉ valueWords := by
      decide
    exact fun hmem => (hall text hmem).2 (h.2 (hall text hmem).1)
  exact ⟨chunk_name h.1, _, fun choices lead => passes_name choices (lead ++ []) hplain⟩

theorem holds_string (h : IsLexeme .string text) :
    CodePart.operand.Holds (.leaf ⟨[], .string, text⟩ .nil) :=
  ⟨chunk_leaf (by decide) h fun _ _ => rfl, _,
    fun choices lead => passes_literal choices (lead ++ []) (.inl rfl)⟩

theorem holds_number (h : IsLexeme .number text) :
    CodePart.expression.Holds (.leaf ⟨[], .number, text⟩ .nil) :=
  ⟨chunk_leaf (by decide) h fun _ hc => hc, _,
    fun choices lead => passes_literal choices (lead ++ []) (.inr rfl)⟩

theorem holds_group {inner : Forest} {bracket : Bracket} (hbracket : bracket ∈ codeBrackets)
    (h : Fills inner after s) : CodePart.operand.Holds (bracketed "" bracket inner after .nil) :=
  ⟨chunk_bracketed hbracket h, _, fun choices _ => passes_bracketed choices _ _ _⟩

theorem holds_member (hf : CodePart.operand.Holds f) (hmark : mark = "." ∨ mark = "?.")
    {name : String} (hname : isWord name = true) (hbefore : IsGap before) (hafter : IsGap after) :
    CodePart.operand.Holds (f ++ linked before .sign mark after (word [] name .nil)) where
  toChunk := by
    have hsign : mark ∈ codeSigns := by rcases hmark with rfl | rfl <;> decide
    have hhead : headIs CodePart.operand.stops mark.toList = true := by
      rcases hmark with rfl | rfl <;> decide
    have hname' : (word [] name .nil).source = name := by simp
    refine hf.toChunk.joined (chunk_name hname) (by decide) (.sign hsign) hbefore hafter
      (headIs_mark hbefore hhead) ?_
    rw [hname']
    exact stopped_dot hmark hname hafter
  crosses := by
    obtain ⟨expecting, hpasses⟩ := hf.crosses
    obtain ⟨t, hfirst, -⟩ := hf.first
    refine ⟨false, fun choices lead => ?_⟩
    rw [leadBy_append hfirst]
    exact (hpasses choices lead).append
      (passes_dot expecting choices (gap before) hmark (gap after ++ []))

theorem holds_applied (hf : CodePart.operand.Holds f) {inner : Forest} {bracket : Bracket}
    (hbracket : bracket = .round ∨ bracket = .square) (h : Fills inner after s)
    (hbefore : IsGap before) :
    CodePart.operand.Holds (f ++ bracketed before bracket inner after .nil) where
  toChunk := by
    have hmem : bracket ∈ codeBrackets := by rcases hbracket with rfl | rfl <;> decide
    have hopens : headIs CodePart.operand.stops bracket.opens.toList = true := by
      rcases hbracket with rfl | rfl <;> decide
    have hne : bracket.opens.toList ≠ [] := by rcases hbracket with rfl | rfl <;> decide
    refine hf.toChunk.append fun rest _ => ⟨?_, h.cut_bracketed hbefore hmem trivial⟩
    rw [h.source_bracketed]
    simp only [String.toList_append, List.append_assoc]
    refine headIs_gap hbefore (fun _ => CodePart.operand.stops_space) ?_
    rw [headIs_append_of_ne_nil hne, hopens]
  crosses := by
    obtain ⟨expecting, hpasses⟩ := hf.crosses
    obtain ⟨t, hfirst, -⟩ := hf.first
    refine ⟨false, fun choices lead => ?_⟩
    rw [leadBy_append hfirst]
    exact (hpasses choices lead).append (passes_applied expecting choices (gap before) hbracket _ _)

theorem holds_operand (h : CodePart.operand.Holds f) : CodePart.expression.Holds f :=
  ⟨⟨h.first, fun rest hrest => h.cut rest (headIs_mono (fun _ => CodePart.stops_expression) hrest)⟩,
    h.crosses⟩

theorem holds_prefixWord (hf : CodePart.expression.Holds f) (hword : text ∈ prefixWords)
    (hafter : IsGap after) (hne : after ≠ "") :
    CodePart.expression.Holds (linked "" .word text after f) := by
  have hall : ∀ word ∈ prefixWords, isWord word = true := by decide
  exact ⟨hf.toChunk.led (by decide) (.word (hall text hword)) hafter
    (headIs_blank (fun _ hc => stopsAt_space hc _ _) hafter hne _), hf.crosses.led (fun choices lead =>
      passes_prefixWord choices lead hword) after⟩

theorem holds_prefixSign (hf : CodePart.expression.Holds f) (hmark : mark ∈ prefixSigns)
    (hafter : IsGap after) (hstopped : Stopped .sign mark (after ++ f.source).toList) :
    CodePart.expression.Holds (linked "" .sign mark after f) := by
  have hall : ∀ mark ∈ prefixSigns, mark ∈ codeSigns := by decide
  exact ⟨hf.toChunk.led (by decide) (.sign (hall mark hmark)) hafter hstopped,
    hf.crosses.led (fun choices lead => passes_prefixSign choices lead hmark) after⟩

theorem holds_infixWord (hf : CodePart.expression.Holds f) (hg : CodePart.expression.Holds g)
    (hword : text ∈ infixWords) (hbefore : IsGap before) (hbeforeNe : before ≠ "")
    (hafter : IsGap after) (hafterNe : after ≠ "") :
    CodePart.expression.Holds (f ++ linked before .word text after g) := by
  have hall : ∀ word ∈ infixWords, isWord word = true := by decide
  obtain ⟨t, hfirst, -⟩ := hf.first
  refine ⟨hf.toChunk.joined hg.toChunk (by decide) (.word (hall text hword)) hbefore hafter
    (headIs_blank (fun _ => CodePart.expression.stops_space) hbefore hbeforeNe _)
    (headIs_blank (fun _ hc => stopsAt_space hc _ _) hafter hafterNe _), ?_⟩
  exact hf.crosses.joined hfirst hg.crosses
    (fun expecting choices lead => passes_infixWord expecting choices lead hword) before after

theorem holds_infixSign (hf : CodePart.expression.Holds f) (hg : CodePart.expression.Holds g)
    (hmark : mark ∈ infixSigns) (hbefore : IsGap before) (hafter : IsGap after)
    (hstopped : Stopped .sign mark (after ++ g.source).toList) :
    CodePart.expression.Holds (f ++ linked before .sign mark after g) := by
  have hall : ∀ mark ∈ infixSigns, mark ∈ codeSigns ∧
      headIs CodePart.expression.stops mark.toList = true := by
    decide
  obtain ⟨hsign, hhead⟩ := hall mark hmark
  obtain ⟨t, hfirst, -⟩ := hf.first
  refine ⟨hf.toChunk.joined hg.toChunk (by decide) (.sign hsign) hbefore hafter
    (headIs_mark hbefore hhead) hstopped, ?_⟩
  exact hf.crosses.joined hfirst hg.crosses
    (fun expecting choices lead => passes_infixSign expecting choices lead hmark) before after

/-- The branches of a choice with the colon between them. -/
theorem chunk_branches {mid final : String} (hf : Chunk .expression f) (hg : Chunk .expression g)
    (hmid : IsGap mid) (hfinal : IsGap final) :
    Chunk .expression (f ++ linked mid .sign ":" final g) := by
  exact hf.joined hg (by decide) (.sign (by decide)) hmid hfinal (headIs_mark hmid (by decide))
    (stopped_alone (by simp) _)

theorem holds_choice {h : Forest} {mid final : String} (hf : CodePart.expression.Holds f)
    (hg : CodePart.expression.Holds g) (hh : CodePart.expression.Holds h) (hbefore : IsGap before)
    (hafter : IsGap after) (hmid : IsGap mid) (hfinal : IsGap final)
    (hstopped : Stopped .sign "?" (after ++ g.source).toList) :
    CodePart.expression.Holds
      (f ++ linked before .sign "?" after (g ++ linked mid .sign ":" final h)) where
  toChunk := by
    refine hf.toChunk.joined (chunk_branches hg.toChunk hh.toChunk hmid hfinal) (by decide)
      (.sign (by decide)) hbefore hafter (headIs_mark hbefore (by decide)) ?_
    rw [source_append, ← String.append_assoc, String.toList_append]
    exact headIs_append hstopped fun hnil => absurd hnil (by simp [hg.toChunk.source_ne])
  crosses := by
    obtain ⟨condition, hpassesF⟩ := hf.crosses
    obtain ⟨first, hpassesG⟩ := hg.crosses
    obtain ⟨t, hfirst, -⟩ := hf.first
    obtain ⟨u, hfirstG, -⟩ := hg.first
    obtain ⟨second, hpassesH⟩ := hh.crosses
    refine ⟨second, fun choices lead => ?_⟩
    rw [leadBy_append hfirst]
    have hrest := (passes_colon first choices (gap mid)).append (hpassesH choices (gap final))
    have hbranches := (hpassesG (choices + 1) (gap after)).append hrest
    rw [linked, leadBy_append hfirstG]
    exact (hpassesF choices lead).append ((passes_question condition choices (gap before)).append hbranches)

end Parts

/-- Each part of an expression is read as one. -/
theorem IsCode.holds {part : CodePart} {text : String} (h : IsCode part text) :
    ∃ f, part.Holds f ∧ f.source = text := by
  -- the texts of the smaller parts have forests, of which each case makes its own
  induction h with
  | word h => exact ⟨_, holds_word h, by simp⟩
  | string h => exact ⟨_, holds_string h, by simp⟩
  | group hbracket hinner =>
    obtain ⟨inner, after, hfills⟩ := hinner.fills
    refine ⟨_, holds_group hbracket hfills, ?_⟩
    rw [hfills.source_bracketed, source_nil, String.append_empty, String.empty_append]
  | member _ hmark hname hbefore hafter ih =>
    obtain ⟨f, hf, rfl⟩ := ih
    refine ⟨_, holds_member hf hmark hname hbefore hafter, ?_⟩
    rw [source_append, (chunk_name hname).source_linked]
    simp [String.append_assoc]
  | applied _ hbracket hinner hbefore ih =>
    obtain ⟨f, hf, rfl⟩ := ih
    obtain ⟨inner, after, hfills⟩ := hinner.fills
    refine ⟨_, holds_applied hf hbracket hfills hbefore, ?_⟩
    rw [source_append, hfills.source_bracketed, source_nil, String.append_empty]
    simp only [String.append_assoc]
  | operand _ ih =>
    obtain ⟨f, hf, rfl⟩ := ih
    exact ⟨f, holds_operand hf, rfl⟩
  | number h => exact ⟨_, holds_number h, by simp⟩
  | prefixWord _ hword hafter hne ih =>
    obtain ⟨f, hf, rfl⟩ := ih
    refine ⟨_, holds_prefixWord hf hword hafter hne, ?_⟩
    rw [hf.toChunk.source_linked, String.empty_append]
  | prefixSign _ hmark hafter hstopped ih =>
    obtain ⟨f, hf, rfl⟩ := ih
    refine ⟨_, holds_prefixSign hf hmark hafter hstopped, ?_⟩
    rw [hf.toChunk.source_linked, String.empty_append]
  | infixWord _ _ hword hbefore hbeforeNe hafter hafterNe iha ihb =>
    obtain ⟨f, hf, rfl⟩ := iha
    obtain ⟨g, hg, rfl⟩ := ihb
    refine ⟨_, holds_infixWord hf hg hword hbefore hbeforeNe hafter hafterNe, ?_⟩
    rw [source_append, hg.toChunk.source_linked]
    simp only [String.append_assoc]
  | infixSign _ _ hmark hbefore hafter hstopped iha ihb =>
    obtain ⟨f, hf, rfl⟩ := iha
    obtain ⟨g, hg, rfl⟩ := ihb
    refine ⟨_, holds_infixSign hf hg hmark hbefore hafter hstopped, ?_⟩
    rw [source_append, hg.toChunk.source_linked]
    simp only [String.append_assoc]
  | choice _ _ _ hbefore hafter hmid hfinal hstopped iha ihb ihc =>
    obtain ⟨f, hf, rfl⟩ := iha
    obtain ⟨g, hg, rfl⟩ := ihb
    obtain ⟨h, hh, rfl⟩ := ihc
    refine ⟨_, holds_choice hf hg hh hbefore hafter hmid hfinal hstopped, ?_⟩
    rw [source_append, (chunk_branches hg.toChunk hh.toChunk hmid hfinal).source_linked, source_append,
      hh.toChunk.source_linked]
    simp only [String.append_assoc]

/-! ### Where expressions end -/

/-- What may follow an expression in a list or a statement: nothing, a comma or a semicolon. -/
def EndsExpression (rest : Forest) : Prop :=
  rest = .nil ∨ ∃ lead mark more, (mark = "," ∨ mark = ";") ∧ rest = sign lead mark more

theorem expressionFrom_ends (st : ExpressionState) {rest : Forest} (h : EndsExpression rest) :
    expressionFrom false st 0 rest = (0, st.expecting) := by
  rcases h with rfl | ⟨lead, mark, more, rfl | rfl, rfl⟩
  · exact expressionFrom_nil _ _ _
  · simp [expressionFrom, ExpressionState.step]
  · exact expressionFrom_semicolon _ _ _ _

/-- An expression reaches to its end. -/
theorem Crosses.expressionSize {f rest : Forest} (h : Crosses f) (hrest : EndsExpression rest)
    (lead : List Trivia) : expressionSize (f.leadBy lead ++ rest) = (f.leadBy lead).length := by
  obtain ⟨expecting, hpasses⟩ := h
  have hread := hpasses 0 lead rest
  rw [Script.expressionSize]
  rw [ExpressionState.among] at hread
  rw [hread, expressionFrom_ends _ hrest, Nat.add_zero]

end ScreenHooks.Script
