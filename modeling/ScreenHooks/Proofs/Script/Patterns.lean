/-
Patterns that bind their names.

A pattern is a name, or an object or an array pattern, with any blanks between its tokens.
Keys, default values and computed names may have any names in them: the reader of patterns
passes over a key up to its colon, and over a default value as far as the expression reaches.

* **`Binds.element`**, **`binds_shorthand`**, **`binds_pair`**, **`binds_rest`** — the parts of
  a pattern;
* **`IsPattern.holds`** — each pattern binds its names, in their order;
* **`read_destructured`** — the names that an exported declaration of a pattern records.
-/
import ScreenHooks.Proofs.Script.Expressions
import ScreenHooks.Proofs.Table

namespace ScreenHooks.Script

open Text Forest

/-! ### Texts of patterns -/

/-- What may follow a pattern in a list: nothing, or a default value. -/
inductive IsDefault : String → Prop where
  | none : IsDefault ""
  | value {before after a : String} (ha : IsCode .expression a) (hbefore : IsGap before)
      (hafter : IsGap after) (hstopped : Stopped .sign "=" (after ++ a).toList) :
      IsDefault (before ++ "=" ++ after ++ a)

/-- The keys of properties: any words, and computed names with any code in them. -/
inductive IsKey : String → Prop where
  | word {text : String} (h : isWord text = true) : IsKey text
  | string {text : String} (h : IsLexeme .string text) : IsKey text
  | number {text : String} (h : IsLexeme .number text) : IsKey text
  | computed {inner : String} (h : IsBalanced inner) : IsKey ("[" ++ inner ++ "]")

/-- The parts of patterns; the parts of object and of array patterns are different. -/
inductive PatternPart where
  | pattern
  /-- A pattern that may have a default value. -/
  | target
  | part (object : Bool)
  | parts (object : Bool)

/-- The brackets of object and array patterns. -/
def patternBracket (object : Bool) : Bracket := if object then .curly else .square

/-- The texts of patterns, with the names that they bind. -/
inductive IsPattern : PatternPart → List String → String → Prop where
  | name {name : String} (h : IsIdentifier name) : IsPattern .pattern [name] name
  | group {object : Bool} {names : List String} {body : String}
      (hbody : IsPattern (.parts object) names body) :
      IsPattern .pattern names
        ((patternBracket object).opens ++ body ++ (patternBracket object).closes)
  | target {names : List String} {pattern default : String}
      (hpattern : IsPattern .pattern names pattern) (hdefault : IsDefault default) :
      IsPattern .target names (pattern ++ default)
  | element {names : List String} {target : String} (htarget : IsPattern .target names target) :
      IsPattern (.part false) names target
  | shorthand {name default : String} (hname : IsIdentifier name) (hdefault : IsDefault default) :
      IsPattern (.part true) [name] (name ++ default)
  | pair {names : List String} {key before after target : String} (hkey : IsKey key)
      (htarget : IsPattern .target names target) (hbefore : IsGap before) (hafter : IsGap after) :
      IsPattern (.part true) names (key ++ before ++ ":" ++ after ++ target)
  | rest {object : Bool} {names : List String} {after pattern : String}
      (hpattern : IsPattern .pattern names pattern) (hafter : IsGap after) :
      IsPattern (.part object) names ("..." ++ after ++ pattern)
  | blank {object : Bool} {s : String} (h : IsGap s) : IsPattern (.parts object) [] s
  | last {object : Bool} {names : List String} {before part after : String}
      (hpart : IsPattern (.part object) names part) (hbefore : IsGap before)
      (hafter : IsGap after) : IsPattern (.parts object) names (before ++ part ++ after)
  | more {object : Bool} {names others : List String} {before part after rest : String}
      (hpart : IsPattern (.part object) names part) (hrest : IsPattern (.parts object) others rest)
      (hbefore : IsGap before) (hafter : IsGap after) :
      IsPattern (.parts object) (names ++ others) (before ++ part ++ (after ++ "," ++ rest))
  | hole {names : List String} {before rest : String} (hrest : IsPattern (.parts false) names rest)
      (hbefore : IsGap before) : IsPattern (.parts false) names (before ++ "," ++ rest)

/-! ### The reader of patterns -/

theorem bindingsFrom_skip (object : Bool) (st : PatternState) (a b : Forest) :
    bindingsFrom object st a.length (a ++ b) = bindingsFrom object st 0 b := by
  induction a with
  | nil => rfl
  | leaf t rest ih => exact ih
  | group o inner c rest _ ih => exact ih

/-- A comma starts the next part. -/
theorem bindingsFrom_comma (object : Bool) (st : PatternState) (lead : List Trivia) (rest : Forest) :
    bindingsFrom object st 0 (sign lead "," rest) =
      bindingsFrom object (.start object) 0 rest := by
  simp [bindingsFrom, PatternState.token]

/-- A word, a string or a number is no sign. -/
theorem IsLexeme.ne_sign {kind : TokenKind} {text : String} (h : IsLexeme kind text)
    (hkind : kind ≠ .sign) {mark : String} (hmark : mark ∈ codeSigns) : text ≠ mark := by
  rintro rfl
  exact hkind (h.kind_unique (.sign hmark))

/-- The key of a property, up to its colon. -/
theorem bindingsFrom_key {kind : TokenKind} {text : String} (h : IsLexeme kind text)
    (hkind : kind ≠ .sign) (lead mid : List Trivia) (rest : Forest) :
    bindingsFrom true .key 0 (.leaf ⟨lead, kind, text⟩ <| sign mid ":" rest) =
      bindingsFrom true .target 0 rest := by
  have hcomma : text ≠ "," := h.ne_sign hkind (by decide)
  have hdots : text ≠ "..." := h.ne_sign hkind (by decide)
  simp [bindingsFrom, PatternState.token, hcomma, hdots]

theorem bindingsFrom_computed (o c : Token) (inner : Forest) (mid : List Trivia) (rest : Forest) :
    bindingsFrom true .key 0 (.group o inner c <| sign mid ":" rest) =
      bindingsFrom true .target 0 rest := by
  simp [bindingsFrom, PatternState.afterGroup, PatternState.token]

/-- Dots before a pattern. -/
theorem bindingsFrom_dots (object : Bool) (lead : List Trivia) (rest : Forest) :
    bindingsFrom object (.start object) 0 (sign lead "..." rest) =
      bindingsFrom object .target 0 rest := by
  cases object <;> simp [bindingsFrom, PatternState.token, PatternState.start]

/-! ### Default values -/

/-- Whether a forest is read as a default value or is nothing. -/
structure Defaults (f : Forest) : Prop where
  cut : ∀ rest, headIs CodePart.expression.stops rest = true → f.Cut rest
  head : ∀ rest, headIs CodePart.expression.stops rest = true →
    headIs CodePart.operand.stops (f.source.toList ++ rest) = true
  passed : ∀ object rest, EndsExpression rest →
    bindingsFrom object .after 0 (f ++ rest) = bindingsFrom object .after 0 rest
  noColon : ∀ rest, EndsExpression rest → (f ++ rest).word? ≠ some ":"

theorem defaults_nil : Defaults .nil where
  cut _ _ := trivial
  head _ hrest := headIs_mono (fun _ => CodePart.stops_expression) hrest
  passed _ _ _ := rfl
  noColon := by
    rintro rest (rfl | ⟨lead, mark, more, rfl | rfl, rfl⟩) <;> simp [word?]

theorem defaults_value {f : Forest} (hf : CodePart.expression.Holds f) {before after : String}
    (hbefore : IsGap before) (hafter : IsGap after)
    (hstopped : Stopped .sign "=" (after ++ f.source).toList) :
    Defaults (linked before .sign "=" after f) where
  cut _ hrest := hf.toChunk.cut_linked (by decide) (.sign (by decide)) hbefore hafter hstopped hrest
  head rest _ := by
    rw [hf.toChunk.source_linked]
    simp only [String.toList_append, List.append_assoc]
    exact headIs_gap hbefore (fun _ => CodePart.operand.stops_space) rfl
  passed object rest hrest := by
    have hsize := hf.crosses.expressionSize hrest (gap after)
    show bindingsFrom object .after 0 (sign (gap before) "=" (f.leadBy (gap after) ++ rest)) = _
    rw [bindingsFrom]
    simp only [PatternState.token, if_true, hsize]
    simp [bindingsFrom_skip]
  noColon rest _ := by simp [linked]

theorem IsDefault.defaults {text : String} (h : IsDefault text) :
    ∃ f, Defaults f ∧ f.source = text := by
  cases h with
  | none => exact ⟨.nil, defaults_nil, rfl⟩
  | value ha hbefore hafter hstopped =>
    obtain ⟨f, hf, rfl⟩ := ha.holds
    exact ⟨_, defaults_value hf hbefore hafter hstopped, hf.toChunk.source_linked _ _ _ _⟩

/-! ### Parts of patterns -/

/-- Whether a forest is a key that the reader passes over up to its colon. -/
structure Keys (f : Forest) : Prop extends Chunk .expression f where
  passed : ∀ lead mid rest, bindingsFrom true .key 0 (f.leadBy lead ++ sign mid ":" rest) =
    bindingsFrom true .target 0 rest

/-- Whether a forest is one tree that binds the given names. -/
structure IsBound (names : List String) (f : Forest) : Prop extends Chunk .operand f where
  single : f.length = 1
  starts : startsPattern f = true
  bound : bound f = names
  identifier : ∀ name ∈ f.word?, IsIdentifier name

/-- Whether the reader of patterns binds the given names where it comes to a forest in the
given state, and goes on behind it. -/
structure Binds (object : Bool) (st : PatternState) (names : List String) (f : Forest) : Prop
    extends Chunk .expression f where
  binds : ∀ lead rest, EndsExpression rest →
    bindingsFrom object st 0 (f.leadBy lead ++ rest) = names ++ bindingsFrom object .after 0 rest

theorem keys_leaf {kind : TokenKind} {text : String} (h : IsLexeme kind text)
    (hkind : kind ∈ [.word, .string, .number]) : Keys (.leaf ⟨[], kind, text⟩ .nil) where
  toChunk := by
    simp only [List.mem_cons, List.not_mem_nil, or_false] at hkind
    refine chunk_leaf ?_ h fun c hc => ?_
    · rcases hkind with rfl | rfl | rfl <;> decide
    · rcases hkind with rfl | rfl | rfl
      · exact @CodePart.stops_expression .operand _ hc
      · rfl
      · exact hc
  passed lead mid rest := by
    have hsign : kind ≠ .sign := by
      rintro rfl
      simp at hkind
    exact bindingsFrom_key h hsign (lead ++ []) mid rest

theorem IsKey.keys {text : String} (h : IsKey text) : ∃ f, Keys f ∧ f.source = text := by
  cases h with
  | word h => exact ⟨_, keys_leaf (.word h) (by simp), by simp⟩
  | string h => exact ⟨_, keys_leaf h (by simp), by simp⟩
  | number h => exact ⟨_, keys_leaf h (by simp), by simp⟩
  | computed h =>
    obtain ⟨inner, after, hfills⟩ := h.fills
    refine ⟨bracketed "" .square inner after .nil,
      ⟨chunk_bracketed (by decide) hfills, fun lead mid rest => ?_⟩, ?_⟩
    · exact bindingsFrom_computed _ _ _ _ _
    · rw [hfills.source_bracketed, source_nil, String.append_empty, String.empty_append]
      rfl

/-! ### Patterns -/

section Patterns

variable {object : Bool} {names : List String} {f g : Forest}

theorem isBound_name {name : String} (h : IsIdentifier name) : IsBound [name] (word [] name .nil) where
  toChunk := chunk_name h.1
  single := rfl
  starts := rfl
  bound := rfl
  identifier := by
    rintro other hother
    obtain rfl := Option.some.inj hother
    exact h

theorem isBound_group {inner : Forest} {after s : String} (hfills : Fills inner after s)
    (hbinds : bindingsFrom object (.start object) 0 inner = names) :
    IsBound names (bracketed "" (patternBracket object) inner after .nil) where
  toChunk := chunk_bracketed (by cases object <;> decide) hfills
  single := rfl
  starts := by cases object <;> rfl
  bound := by
    subst hbinds
    cases object <;> rfl
  identifier := by
    intro name hname
    cases hname

/-- A pattern where one is expected. -/
theorem IsBound.target (h : IsBound names f) (object : Bool) (lead : List Trivia) (rest : Forest) :
    bindingsFrom object .target 0 (f.leadBy lead ++ rest) =
      names ++ bindingsFrom object .after 0 rest := by
  have hbound := h.bound
  have hidentifier := h.identifier
  cases f with
  | nil => simpa [length] using h.single
  | leaf t more =>
    obtain rfl := length_eq_zero (Nat.succ.inj h.single)
    have hkind : t.kind = .word := by simpa [startsPattern] using h.starts
    have hcomma : t.text ≠ "," := isWord_ne (hidentifier t.text rfl).1 (by decide)
    subst hbound
    simp [leadBy, bindingsFrom, PatternState.token, hcomma, hkind, Script.bound]
  | group o inner c more =>
    obtain rfl := length_eq_zero (Nat.succ.inj h.single)
    subst hbound
    simp [leadBy, bindingsFrom, PatternState.afterGroup, Script.bound]

/-- A part of code before a default value. -/
theorem Chunk.defaulted (hf : Chunk .operand f) (hg : Defaults g) : Chunk .expression (f ++ g) :=
  hf.append fun rest hrest => ⟨hg.head rest hrest, hg.cut rest hrest⟩

theorem IsBound.binds (hf : IsBound names f) (hg : Defaults g) (object : Bool) :
    Binds object .target names (f ++ g) where
  toChunk := hf.toChunk.defaulted hg
  binds lead rest hrest := by
    obtain ⟨t, hfirst, -⟩ := hf.first
    rw [leadBy_append hfirst, append_assoc, hf.target, hg.passed object rest hrest]

theorem binds_shorthand {name : String} (hname : IsIdentifier name) (hg : Defaults g) :
    Binds true .key [name] (word [] name g) where
  toChunk := (chunk_name hname.1).defaulted hg
  binds lead rest hrest := by
    have hcomma : name ≠ "," := isWord_ne hname.1 (by decide)
    have hdots : name ≠ "..." := isWord_ne hname.1 (by decide)
    show bindingsFrom true .key 0 (word (lead ++ []) name (g ++ rest)) = _
    simp [bindingsFrom, PatternState.token, hcomma, hdots, hg.noColon rest hrest,
      hg.passed true rest hrest]

theorem binds_pair (hf : Keys f) (hg : Binds true .target names g) {before after : String}
    (hbefore : IsGap before) (hafter : IsGap after) :
    Binds true .key names (f ++ linked before .sign ":" after g) where
  toChunk := chunk_branches hf.toChunk hg.toChunk hbefore hafter
  binds lead rest hrest := by
    obtain ⟨t, hfirst, -⟩ := hf.first
    rw [leadBy_append hfirst, append_assoc, linked, leaf_append, hf.passed]
    exact hg.binds (gap after) rest hrest

theorem binds_rest (hf : IsBound names f) (object : Bool) {after : String} (hafter : IsGap after) :
    Binds object (.start object) names (linked "" .sign "..." after f) where
  toChunk := by
    have hdots : "..." ∈ codeSigns := by decide
    have hoperand := hf.toChunk.led (by decide) (.sign hdots) hafter (stopped_alone (by simp) _)
    exact ⟨hoperand.first, fun rest hrest =>
      hoperand.cut rest (headIs_mono (fun _ => CodePart.stops_expression) hrest)⟩
  binds lead rest hrest := by
    show bindingsFrom object (.start object) 0
      (sign (lead ++ gap "") "..." (f.leadBy (gap after) ++ rest)) = _
    rw [bindingsFrom_dots, hf.target]

end Patterns

/-! ### Lists of parts -/

section Lists

variable {f g : Forest} {before after s : String}

theorem fills_blank (h : IsGap s) : Fills .nil s s :=
  ⟨String.empty_append, h, fun _ _ => trivial⟩

/-- A comma with blanks before it. -/
theorem Fills.comma (h : Fills g after s) (hbefore : IsGap before) :
    Fills (sign (gap before) "," g) after (before ++ "," ++ s) where
  source := by rw [source_leaf, source_gap, String.append_assoc, h.source]
  blank := h.blank
  cut rest hrest := by
    have hkind : TokenKind.sign ∈ leafKinds := by decide
    have hsign : "," ∈ codeSigns := by decide
    exact ⟨hkind, ⟨.sign hsign, apart_gap hbefore _ _, stopped_alone (by simp) _⟩,
      h.cut rest hrest⟩

/-- A part with blanks before it, before what does not go on with it. -/
theorem Chunk.fills (hf : Chunk .expression f) (hg : Fills g after s) (hbefore : IsGap before)
    (hhead : ∀ rest, headIs isCloser rest = true →
      headIs CodePart.expression.stops (s.toList ++ rest) = true) :
    Fills (f.leadBy (gap before) ++ g) after (before ++ f.source ++ s) where
  source := by
    obtain ⟨t, hfirst, -⟩ := hf.first
    rw [source_append, source_leadBy hfirst, String.append_assoc, hg.source]
  blank := hg.blank
  cut rest hrest := by
    refine cut_append.2 ⟨(hf.cut _ ?_).leadBy hf.tight hbefore, hg.cut rest hrest⟩
    rw [← List.append_assoc, ← String.toList_append, hg.source]
    exact hhead rest hrest

theorem headIs_closer {rest : List Char} (h : headIs isCloser rest = true) :
    headIs CodePart.expression.stops rest = true :=
  headIs_mono (fun _ hc => stopsAt_closer hc .number "") h

end Lists

/-- Whether a text is read as a part of a pattern that binds the given names. -/
def PatternPart.Holds : PatternPart → List String → String → Prop
  | pattern, names, text => ∃ f, IsBound names f ∧ f.source = text
  | target, names, text => ∃ f, (∀ object, Binds object .target names f) ∧ f.source = text
  | part object, names, text => ∃ f, Binds object (.start object) names f ∧ f.source = text
  | parts object, names, text =>
    ∃ f after, Fills f after text ∧ bindingsFrom object (.start object) 0 f = names

/-- Each pattern binds its names, in their order. -/
theorem IsPattern.holds {part : PatternPart} {names : List String} {text : String}
    (h : IsPattern part names text) : part.Holds names text := by
  -- the texts of the smaller parts have forests, of which each case makes its own
  induction h with
  | name h => exact ⟨_, isBound_name h, by simp⟩
  | group _ ih =>
    obtain ⟨inner, after, hfills, hbinds⟩ := ih
    refine ⟨_, isBound_group hfills hbinds, ?_⟩
    rw [hfills.source_bracketed, source_nil, String.append_empty, String.empty_append]
  | target _ hdefault ih =>
    obtain ⟨f, hf, rfl⟩ := ih
    obtain ⟨g, hg, rfl⟩ := hdefault.defaults
    exact ⟨_, hf.binds hg, source_append f g⟩
  | element _ ih =>
    obtain ⟨f, hf, rfl⟩ := ih
    exact ⟨f, hf false, rfl⟩
  | shorthand hname hdefault =>
    obtain ⟨g, hg, rfl⟩ := hdefault.defaults
    exact ⟨_, binds_shorthand hname hg, by simp⟩
  | pair hkey _ hbefore hafter ih =>
    obtain ⟨f, hf, rfl⟩ := hkey.keys
    obtain ⟨g, hg, rfl⟩ := ih
    refine ⟨_, binds_pair hf (hg true) hbefore hafter, ?_⟩
    rw [source_append, (hg true).toChunk.source_linked]
    simp only [String.append_assoc]
  | @rest object names after pattern _ hafter ih =>
    obtain ⟨f, hf, rfl⟩ := ih
    refine ⟨_, binds_rest hf object hafter, ?_⟩
    rw [hf.toChunk.source_linked, String.empty_append]
  | @blank object s h => exact ⟨.nil, s, fills_blank h, by cases object <;> rfl⟩
  | last _ hbefore hafter ih =>
    obtain ⟨f, hf, rfl⟩ := ih
    refine ⟨_, _, hf.toChunk.fills (fills_blank hafter) hbefore fun rest hrest => ?_, ?_⟩
    · exact headIs_gap hafter (fun _ => CodePart.expression.stops_space) (headIs_closer hrest)
    · rw [hf.binds _ .nil (.inl rfl), bindingsFrom, List.append_nil]
  | more _ _ hbefore hafter ihPart ihRest =>
    obtain ⟨f, hf, rfl⟩ := ihPart
    obtain ⟨g, final, hfills, hbinds⟩ := ihRest
    refine ⟨_, _, hf.toChunk.fills (hfills.comma hafter) hbefore fun rest _ => ?_, ?_⟩
    · simp only [String.toList_append, List.append_assoc]
      exact headIs_gap hafter (fun _ => CodePart.expression.stops_space) rfl
    · rw [hf.binds _ _ (.inr ⟨_, ",", _, .inl rfl, rfl⟩), bindingsFrom_comma, hbinds]
  | hole _ hbefore ih =>
    obtain ⟨g, final, hfills, hbinds⟩ := ih
    refine ⟨_, _, hfills.comma hbefore, ?_⟩
    rw [bindingsFrom_comma, hbinds]

/-! ### Exported declarations -/

/-- The text of an exported declaration of a pattern. -/
def destructuringText (pattern value : String) : String :=
  "export const " ++ pattern ++ " = " ++ value ++ ";"

section Declaration

variable {names : List String} {pattern value : Forest}

/-- The tokens of an exported declaration of a pattern. -/
def destructuringForest (pattern value : Forest) : Forest :=
  linked "" .word "export" " " <| linked "" .word "const" " " <|
    pattern ++ linked " " .sign "=" " " (value ++ sign [] ";" .nil)

/-- A value with the semicolon after it. -/
theorem chunk_ended (h : Chunk .expression value) : Chunk .expression (value ++ sign [] ";" .nil) := by
  have hkind : TokenKind.sign ∈ leafKinds := by decide
  have hsign : ";" ∈ codeSigns := by decide
  exact h.append fun rest _ =>
    ⟨rfl, ⟨hkind, ⟨.sign hsign, apart_tight _ _, stopped_alone (by simp) _⟩, trivial⟩⟩

theorem chunk_destructuring (hpattern : Chunk .operand pattern) (hvalue : Chunk .expression value) :
    Chunk .expression (destructuringForest pattern value) ∧
      (destructuringForest pattern value).source =
        destructuringText pattern.source value.source := by
  have hended := chunk_ended hvalue
  have hspace : ∀ kind text (f : Forest), Stopped kind text (" " ++ f.source).toList :=
    fun kind text f => headIs_blank (fun _ hc => stopsAt_space hc kind text) isGap_blank (by decide) _
  have hequals : "=" ∈ codeSigns := by decide
  have hdeclarator := hpattern.joined hended (by decide) (.sign hequals) isGap_blank isGap_blank
    (by decide) (hspace _ _ _)
  have hkeywords : isWord "const" = true ∧ isWord "export" = true := by decide
  have hconst := hdeclarator.led (by decide) (.word hkeywords.1) isGap_blank (hspace _ _ _)
  have hexport := hconst.led (by decide) (.word hkeywords.2) isGap_blank (hspace _ _ _)
  refine ⟨hexport, ?_⟩
  rw [destructuringForest, hconst.source_linked, hdeclarator.source_linked, source_append,
    hended.source_linked, source_append]
  apply String.toList_inj.1
  show _ = ("export const " ++ pattern.source ++ " = " ++ value.source ++ ";").toList
  simp

theorem destructuringForest_eq (hpattern : Chunk .operand pattern) (hvalue : Chunk .expression value) :
    destructuringForest pattern value = (word [] "export" <| word spaced "const" <|
      pattern.leadBy spaced ++ (.nil ++ sign spaced "=" (value.leadBy spaced ++ sign [] ";" .nil))) := by
  obtain ⟨t, hfirst, -⟩ := hpattern.first
  obtain ⟨u, hfirstValue, -⟩ := hvalue.first
  have hlead : (pattern ++ linked " " .sign "=" " " (value ++ sign [] ";" .nil)).leadBy (gap " ") =
      pattern.leadBy spaced ++ sign spaced "=" (value.leadBy spaced ++ sign [] ";" .nil) := by
    rw [leadBy_append hfirst, linked, leadBy_append hfirstValue]
    rfl
  rw [nil_append, ← hlead]
  rfl

theorem at_destructuring (hpattern : IsBound names pattern)
    (hvalue : CodePart.expression.Holds value) :
    Statement.at (destructuringForest pattern value) = (.exported (.bindings names), .nil) := by
  obtain ⟨expecting, hpasses⟩ := hvalue.crosses
  have hsame : ∀ f : Forest, startsPattern (f.leadBy spaced) = startsPattern f ∧
      bound (f.leadBy spaced) = bound f := by
    intro f
    cases f <;> exact ⟨rfl, rfl⟩
  have hvariables := @variablesAt?_value (pattern.leadBy spaced) .nil (value.leadBy spaced) _
    ⟨(length_leadBy _ _).trans hpattern.single, (hsame pattern).1.trans hpattern.starts⟩
    (fun rest => by simp [dropText, dropTyping]) (hpasses 0 spaced) .nil
  rw [(hsame pattern).2, hpattern.bound] at hvariables
  have henum : ∀ rest, (pattern.leadBy spaced ++ rest).word? ≠ some "enum" := by
    intro rest
    have hidentifier := hpattern.identifier
    intro hword
    cases pattern with
    | nil => simpa [length] using hpattern.single
    | leaf t more => exact (hidentifier "enum" hword).2 (by decide)
    | group o inner c more => cases hword
  rw [destructuringForest_eq hpattern.toChunk hvalue.toChunk]
  exact at_exported hvariables (henum _) []

/-- A table of one kind for all names. -/
theorem lookup_variables {names : List String} {name : String} {kind : DeclarationKind} :
    (names.map (·, DeclarationKind.variable)).lookup name = some kind ↔
      name ∈ names ∧ kind = .variable := by
  have hentry : ∀ {kind : DeclarationKind},
      (names.map (·, DeclarationKind.variable)).lookup name = some kind →
        name ∈ names ∧ kind = .variable := by
    intro kind hlookup
    obtain ⟨other, hmem, hpair⟩ := List.mem_map.1 (Table.mem_of_lookup hlookup)
    obtain ⟨rfl, rfl⟩ := Prod.mk.inj hpair
    exact ⟨hmem, rfl⟩
  refine ⟨hentry, ?_⟩
  rintro ⟨hmem, rfl⟩
  have hkey : name ∈ Table.keys (names.map (·, DeclarationKind.variable)) := by
    simpa [Table.keys] using hmem
  obtain ⟨kind, hkind⟩ := Option.isSome_iff_exists.1 (Table.lookup_isSome_iff.2 hkey)
  rw [hkind, (hentry hkind).2]

/-- An exported declaration of a pattern records the names that the pattern binds, in their
order, as variables, and nothing else: no key, and no name of a default value or of the
value itself. -/
theorem read_destructured {names : List String} {pattern value : String}
    (hpattern : IsPattern .pattern names pattern) (hvalue : IsCode .expression value)
    (dialect : Dialect) :
    Module.read dialect (destructuringText pattern value) =
        { exports := names.map (.declaration · .variable)
          locals := Table.oldest (names.map (·, .variable)) } ∧
      ∀ name kind, (Module.read dialect (destructuringText pattern value)).locals.lookup name =
        some kind ↔ name ∈ names ∧ kind = .variable := by
  -- the module has one statement, which is the declaration
  have hmodule : Module.read dialect (destructuringText pattern value) =
      { exports := names.map (.declaration · .variable)
        locals := Table.oldest (names.map (·, .variable)) } := by
    obtain ⟨f, hf, rfl⟩ := hpattern.holds
    obtain ⟨g, hg, rfl⟩ := hvalue.holds
    obtain ⟨hchunk, hsource⟩ := chunk_destructuring hf.toChunk hg.toChunk
    have hhead : ∀ c ∈ (destructuringForest f g).source.toList.head?, c ≠ '#' := by
      rw [hsource]
      show ∀ c ∈ ("export const " ++ f.source ++ " = " ++ g.source ++ ";").toList.head?, c ≠ '#'
      simp
    rw [← hsource, (hchunk.cut [] rfl).read_module hhead dialect,
      statements_last rfl (at_destructuring hf hg)]
    simp only [Module.ofStatements, List.flatMap_cons, List.flatMap_nil, List.append_nil]
    rfl
  refine ⟨hmodule, fun name kind => ?_⟩
  rw [hmodule, Table.lookup_oldest, lookup_variables]

end Declaration

/-- Keys, default values and holes at several depths. -/
def nestedPattern : String :=
  "\x7b a, b: c = a, [k + x]: \x7b d = e(f), ...g \x7d, 'h': [, i = j ? k : l, ...m] \x7d"

theorem isPattern_nestedPattern :
    IsPattern .pattern ["a", "c", "d", "g", "i", "m"] nestedPattern := by
  have hname : ∀ name ∈ ["a", "c", "d", "g", "i", "m"], IsIdentifier name := by
    have hall : ∀ name ∈ ["a", "c", "d", "g", "i", "m"],
        isWord name = true ∧ name ∉ reservedWords := by
      decide
    exact hall
  have hoperand : ∀ name ∈ ["a", "e", "j", "k", "l"], IsCode .operand name := by
    have hall : ∀ name ∈ ["a", "e", "j", "k", "l"],
        isWord name = true ∧ (name ∈ reservedWords → name ∈ valueWords) := by
      decide
    exact fun name hmem => .word (hall name hmem)
  have htoken : ∀ {text rest : String}, isWord text = true → Stopped .word text rest.toList →
      IsBalanced rest → IsBalanced (text ++ rest) := by
    intro text rest htext hstopped hrest
    simpa using IsBalanced.token (by decide) (.word htext) isGap_empty hstopped hrest
  have hcall : IsCode .operand "e(f)" :=
    .applied (hoperand "e" (by simp)) (.inl rfl)
      (htoken (show isWord "f" = true by decide) rfl (.blank isGap_empty)) isGap_empty
  have hcomputed : IsKey "[k + x]" :=
    .computed (htoken (show isWord "k" = true by decide) (by decide) <|
      .token (by decide) (.sign (show "+" ∈ codeSigns by decide)) isGap_blank (by decide) <|
      .token (by decide) (.word (show isWord "x" = true by decide)) isGap_blank rfl (.blank isGap_empty))
  have hchoice : IsCode .expression "j ? k : l" :=
    .choice (.operand (hoperand "j" (by simp))) (.operand (hoperand "k" (by simp)))
      (.operand (hoperand "l" (by simp))) isGap_blank isGap_blank isGap_blank isGap_blank (by decide)
  have hobject : IsPattern .pattern ["d", "g"] "\x7b d = e(f), ...g \x7d" :=
    @IsPattern.group true _ _ <| .more
      (.shorthand (hname "d" (by simp)) (.value (.operand hcall) isGap_blank isGap_blank (by decide)))
      (.last (.rest (.name (hname "g" (by simp))) isGap_empty) isGap_blank isGap_blank)
      isGap_blank isGap_empty
  have hdefaulted : IsPattern .target ["i"] "i = j ? k : l" :=
    .target (.name (hname "i" (by simp))) (.value hchoice isGap_blank isGap_blank (by decide))
  have harray : IsPattern .pattern ["i", "m"] "[, i = j ? k : l, ...m]" :=
    @IsPattern.group false _ _ <| .hole (.more (.element hdefaulted)
      (.last (.rest (.name (hname "m" (by simp))) isGap_empty) isGap_blank isGap_empty)
      isGap_blank isGap_empty) isGap_empty
  have hrenamed : IsPattern (.part true) ["c"] "b: c = a" :=
    .pair (.word (show isWord "b" = true by decide))
      (.target (.name (hname "c" (by simp)))
        (.value (.operand (hoperand "a" (by simp))) isGap_blank isGap_blank (by decide)))
      isGap_empty isGap_blank
  have hstring : IsLexeme .string "'h'" :=
    .string (.inl rfl) rfl (.char (by decide) (by decide) (by decide) .quote)
  have hnested : IsPattern (.part true) ["d", "g"] "[k + x]: \x7b d = e(f), ...g \x7d" :=
    .pair hcomputed (.target hobject .none) isGap_empty isGap_blank
  have hlisted : IsPattern (.part true) ["i", "m"] "'h': [, i = j ? k : l, ...m]" :=
    .pair (.string hstring) (.target harray .none) isGap_empty isGap_blank
  exact @IsPattern.group true _ _ <| .more (.shorthand (hname "a" (by simp)) .none)
    (.more hrenamed (.more hnested (.last hlisted isGap_blank isGap_blank) isGap_blank isGap_empty)
      isGap_blank isGap_empty) isGap_blank isGap_empty

theorem read_nestedPattern :
    (IsPattern .pattern ["a", "c", "d", "g", "i", "m"] nestedPattern ∧ IsCode .expression "n") ∧
      (Module.read .markup (destructuringText nestedPattern "n")).exports =
        ["a", "c", "d", "g", "i", "m"].map (.declaration · .variable) := by
  have hword : isWord "n" = true ∧ ("n" ∈ reservedWords → "n" ∈ valueWords) := by decide
  have hvalue : IsCode .expression "n" := .operand (.word hword)
  refine ⟨⟨isPattern_nestedPattern, hvalue⟩, ?_⟩
  rw [(read_destructured isPattern_nestedPattern hvalue .markup).1]

end ScreenHooks.Script
