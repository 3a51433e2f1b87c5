/-
Expressions that are read back, and the variables that they are values of.

A value is a row of trees that the reader of expressions passes: names, calls,
members and functions with an arrow. An exported variable with a value, and a
declared one, are read as statements of their own.

* **`Value.name`**, **`Value.call`**, **`Value.member`**, **`Value.arrow`** — values
  are built from values;
* **`reads_exported`**, **`reads_exportedPattern`** — exported variables;
* **`reads_declared`** — declared variables.
-/
import ScreenHooks.Proofs.Script.Phrases

namespace ScreenHooks.Script

open Forest

/-- Whether a forest is an expression that is read back. -/
structure Value (f : Forest) : Prop where
  row : Row f
  passes : Passes {} f .done

/-- Whether a forest may stand in parentheses. -/
def Inside (f : Forest) : Prop := f = .nil ∨ Row f

/-! ### Values -/

theorem row_word {s name : String} (hs : IsGap s) (h : isWord name = true) :
    Row (word (gap s) name .nil) where
  legible := ⟨⟨by simp, h, apart_gap hs _ _⟩, nofun, trivial⟩
  first := ⟨_, rfl, .inl rfl⟩
  last t ht := by
    obtain rfl := Option.some.inj ht
    exact .inl rfl

theorem Value.name {s name : String} (hs : IsGap s) (h : isWord name = true)
    (hoperand : IsOperand name) : Value (word (gap s) name .nil) :=
  ⟨row_word hs h, passes_operand _ hoperand⟩

/-- Brackets around what may stand inside. -/
theorem Inside.legible_group {inner : Forest} (h : Inside inner) {o c : Token} {bracket : Bracket}
    (ho : o.kind = .opening bracket) (hc : c.kind = .closing bracket)
    (hplain : (o.Plain ∧ o.Apart) ∧ c.Plain ∧ c.Apart) :
    (Forest.group o inner c .nil).Legible := by
  rcases h with rfl | h
  · exact ⟨⟨⟨bracket, ho, hc⟩, hplain.1.1, hplain.1.2, hplain.2⟩, ⟨nofun, trivial⟩, nofun, trivial⟩
  · exact h.legible_group ho hc hplain trivial nofun

theorem Inside.legible_round {inner : Forest} (h : Inside inner) {s : String} (hs : IsGap s) :
    (round (gap s) inner .nil).Legible := by
  have hopening : Token.Plain ⟨gap s, .opening .round, "("⟩ := rfl
  have hclosing : Token.Plain ⟨[], .closing .round, ")"⟩ := rfl
  exact h.legible_group rfl rfl ⟨⟨hopening, apart_gap hs _ _⟩, hclosing, apart_tight _ _⟩

theorem last_group {o inner c : _} {t : Token}
    (ht : t ∈ (Forest.group o inner c .nil).tokens.getLast?) : t = c := by
  rw [tokens, ← List.cons_append, List.getLast?_append] at ht
  exact (Option.some.inj ht).symm

theorem Row.call {f inner : Forest} (h : Row f) (hinner : Inside inner) :
    Row (f ++ round [] inner .nil) := by
  refine h.append (hinner.legible_round isGap_empty) rfl
    (fun t ht => ht.follows (.inr (.inl ⟨_, rfl⟩)) nofun) fun t ht => ?_
  rw [last_group ht]
  exact .inr (.inl ⟨_, rfl⟩)

theorem Row.member {f : Forest} (h : Row f) {name : String} (hname : isWord name = true) :
    Row (f ++ (sign [] "." <| word [] name .nil)) := by
  have hdot : "." ≠ "<" := by decide
  refine h.append ⟨⟨by simp, by simp [Token.Plain, plainSigns], apart_tight _ _⟩, ?_,
    (phrase_word hname).legible⟩ rfl (fun t ht => ht.follows (.inl rfl) fun _ => hdot) ?_
  · rintro next hn
    obtain rfl := Option.some.inj hn
    exact Token.Begins.follows (.inl rfl) (.inr (.inl rfl))
  · rintro t ht
    obtain rfl := Option.some.inj ht
    exact .inl rfl

theorem Value.call {f inner : Forest} (h : Value f) (hinner : Inside inner) :
    Value (f ++ round [] inner .nil) :=
  ⟨h.row.call hinner, h.passes.append (passes_call inner)⟩

theorem Value.member {f : Forest} (h : Value f) {name : String} (hname : isWord name = true) :
    Value (f ++ (sign [] "." <| word [] name .nil)) :=
  ⟨h.row.member hname, h.passes.append (passes_member name)⟩

/-- A call with a type argument. -/
theorem Value.typedCall {s head type : String} {inner : Forest} (hs : IsGap s)
    (hhead : isWord head = true) (hoperand : IsOperand head) (htype : isWord type = true)
    (hinner : Inside inner) :
    Value (word (gap s) head <| sign [] "<" <| word [] type <| sign [] ">" <|
      round [] inner .nil) := by
  have hends : Token.endsOperand ⟨gap s, .word, head⟩ = true := by
    simp [Token.endsOperand, hoperand.1]
  refine ⟨⟨⟨⟨by simp, hhead, apart_gap hs _ _⟩, ?_, ⟨by simp, by simp [Token.Plain, plainSigns],
    apart_tight _ _⟩, ?_, ⟨by simp, htype, apart_tight _ _⟩, ?_, ⟨by simp,
    by simp [Token.Plain, plainSigns], apart_tight _ _⟩, ?_, hinner.legible_round isGap_empty⟩,
    ⟨_, rfl, .inl rfl⟩, fun t ht => ?_⟩,
    (passes_operand (gap s) hoperand).append (passes_typed_call type inner)⟩
  -- each token may be followed by the next one, up to the arguments
  · rintro next hn
    obtain rfl := Option.some.inj hn
    exact ⟨.inr rfl, fun _ _ => hends⟩
  · rintro next hn
    obtain rfl := Option.some.inj hn
    exact Token.Begins.follows (.inl rfl) (.inr (.inl rfl))
  · rintro next hn
    obtain rfl := Option.some.inj hn
    exact Token.Complete.follows (.inl rfl) (.inl rfl) fun _ => by decide
  · rintro next hn
    obtain rfl := Option.some.inj hn
    exact Token.Begins.follows (.inr ⟨_, rfl⟩) (.inr (.inl rfl))
  · have hsame := @last_append (word (gap s) head <| sign [] "<" <| word [] type <| sign [] ">" .nil)
      (round [] inner .nil) _ rfl
    have hlast : t ∈ (round [] inner .nil).tokens.getLast? := hsame ▸ ht
    rw [last_group hlast]
    exact .inr (.inl ⟨_, rfl⟩)

/-- What stands between the parameters of a function and its body. -/
def arrowMark : Option String → Forest
  | none => sign spaced "=>" .nil
  | some type => sign [] ":" <| word spaced type <| sign spaced "=>" .nil

/-- A function with an arrow, with blanks before its parameters. -/
def arrow (s : String) (parameters : Forest) (type : Option String) (body : Forest) : Forest :=
  round (gap s) parameters .nil ++ (arrowMark type ++ body)

theorem passes_arrowMark (type : Option String) : Passes .done (arrowMark type) {} := by
  cases type with
  | none => exact passes_arrow
  | some type => exact passes_returns type

theorem legible_arrowMark {type : Option String} (htype : ∀ name ∈ type, isWord name = true)
    {body : Forest} (hbody : Row body) : (arrowMark type ++ body).Legible := by
  have hplain : ∀ mark ∈ [":", "=>"], Token.Plain ⟨[], .sign, mark⟩ := by
    simp [Token.Plain, plainSigns]
  obtain ⟨t, hfirst, hbegins⟩ := hbody.first
  have harrow : (sign spaced "=>" body).Legible := by
    refine ⟨⟨by simp, hplain "=>" (by simp), apart_spaced _ _⟩, fun next hn => ?_, hbody.legible⟩
    rw [hfirst] at hn
    obtain rfl := Option.some.inj hn
    exact hbegins.follows (.inr (.inl rfl))
  cases type with
  | none => exact harrow
  | some type =>
    refine ⟨⟨by simp, hplain ":" (by simp), apart_tight _ _⟩, ?_,
      ⟨by simp, htype type rfl, apart_spaced _ _⟩, ?_, harrow⟩
    · rintro next hn
      obtain rfl := Option.some.inj hn
      exact Token.Begins.follows (.inl rfl) (.inr (.inl rfl))
    · rintro next hn
      obtain rfl := Option.some.inj hn
      exact Token.Complete.follows (.inl rfl) (.inl rfl) fun _ => by decide

theorem row_round {s : String} {inner : Forest} (hs : IsGap s) (hinner : Inside inner) :
    Row (round (gap s) inner .nil) where
  legible := hinner.legible_round hs
  first := ⟨_, rfl, .inr ⟨_, rfl⟩⟩
  last t ht := by
    rw [last_group ht]
    exact .inr (.inl ⟨_, rfl⟩)

theorem Row.arrow {s : String} {parameters body : Forest} {type : Option String} (hs : IsGap s)
    (hparameters : Inside parameters) (htype : ∀ name ∈ type, isWord name = true)
    (hbody : Row body) : Row (arrow s parameters type body) := by
  have hmark : ∃ next, (arrowMark type ++ body).first? = some next ∧ next.kind = .sign ∧
      next.text ≠ "<" := by
    cases type with
    | none => exact ⟨_, rfl, rfl, by decide⟩
    | some type => exact ⟨_, rfl, rfl, by decide⟩
  obtain ⟨next, hnext, hkind, hless⟩ := hmark
  obtain ⟨t, hfirst, -⟩ := hbody.first
  refine (row_round hs hparameters).append (legible_arrowMark htype hbody) hnext
    (fun t ht => ht.follows (.inl hkind) fun _ => hless) fun last hlast => ?_
  rw [last_append hfirst] at hlast
  exact hbody.last last hlast

theorem Value.arrow {s : String} {parameters body : Forest} {type : Option String} (hs : IsGap s)
    (hparameters : Inside parameters) (htype : ∀ name ∈ type, isWord name = true)
    (hbody : Value body) : Value (arrow s parameters type body) :=
  ⟨hbody.row.arrow hs hparameters htype,
    (passes_group _ _ _).append ((passes_arrowMark type).append hbody.passes)⟩

/-! ### Variables -/

/-- An exported variable with its value. -/
def exportedValue (pattern value : Forest) : Forest :=
  word [] "export" <| word spaced "const" <| pattern ++ sign spaced "=" (value ++ sign [] ";" .nil)

theorem legible_value {value : Forest} (h : Row value) :
    (sign spaced "=" (value ++ sign [] ";" .nil)).Legible := by
  have hplain : ∀ mark ∈ ["=", ";"], Token.Plain ⟨[], .sign, mark⟩ := by
    simp [Token.Plain, plainSigns]
  obtain ⟨t, hfirst, hbegins⟩ := h.first
  refine ⟨⟨by simp, hplain "=" (by simp), apart_spaced _ _⟩, fun next hn => ?_,
    h.legible.append ⟨⟨by simp, hplain ";" (by simp), apart_tight _ _⟩,
      (fun _ hn => by cases hn), trivial⟩ ?_⟩
  · rw [first?_append, hfirst] at hn
    obtain rfl := Option.some.inj hn
    exact hbegins.follows (.inr (.inl rfl))
  · rintro last hlast next hn
    obtain rfl := Option.some.inj hn
    exact (h.last last hlast).follows (.inl rfl) fun _ => by decide

theorem value_append (f value rest : Forest) :
    (f ++ sign spaced "=" (value ++ sign [] ";" .nil)) ++ rest =
      f ++ sign spaced "=" (value ++ sign [] ";" rest) := by
  simp only [append_assoc, leaf_append, nil_append]

theorem Reads.of_exported {pattern value : Forest} (hpattern : Row pattern)
    (hstarts : pattern.length = 1 ∧ startsPattern pattern = true)
    (hspaced : ∀ t ∈ pattern.first?, t.lead ≠ []) (hword : pattern.word? ≠ some "enum")
    (hvalue : Value value) :
    Reads (exportedValue pattern value) (.exported (.bindings (bound pattern))) where
  legible := by
    obtain ⟨t, hfirst, hbegins⟩ := hpattern.first
    have hrow : (pattern ++ sign spaced "=" (value ++ sign [] ";" .nil)).Legible := by
      refine hpattern.legible.append (legible_value hvalue.row) ?_
      rintro last hlast next hn
      obtain rfl := Option.some.inj hn
      exact (hpattern.last last hlast).follows (.inl rfl) fun _ => by decide
    have hnext : (pattern ++ sign spaced "=" (value ++ sign [] ";" .nil)).first? = some t := by
      rw [first?_append, hfirst]
      rfl
    have hkind : t.kind = .sign → t.text ≠ "<" := by
      rcases hbegins with hkind | ⟨bracket, hkind⟩ <;> rw [hkind] <;> nofun
    exact legible_keyword (by decide) (@legible_word " " "const" isGap_blank (by decide) _ hrow t
      hnext (hspaced t hfirst) hkind) rfl (by simp) nofun
  first := ⟨_, rfl, rfl, rfl⟩
  read lead rest := by
    have hread := @variablesAt?_value pattern .nil value .done hstarts (fun _ => by
      simp [dropTyping, dropText]) hvalue.passes rest
    -- a pattern named `enum` would be read as an enumeration
    have hkeep : (pattern ++ sign spaced "=" (value ++ sign [] ";" rest)).word? ≠ some "enum" := by
      cases pattern with
      | nil => cases hstarts.1
      | leaf u more => exact hword
      | group o inner c more => exact hword
    simp only [exportedValue, leadBy, leaf_append, value_append]
    exact at_exported hread hkeep _

/-- An exported variable that is a name. -/
theorem Reads.exported {name : String} {value : Forest} (hname : isWord name = true)
    (hne : name ≠ "enum") (hvalue : Value value) :
    Reads (exportedValue (word spaced name .nil) value) (.exported (.bindings [name])) := by
  refine .of_exported (row_word isGap_blank hname) ⟨rfl, rfl⟩ ?_ ?_ hvalue
  · rintro t ht
    obtain rfl := Option.some.inj ht
    simp
  · simpa [word?] using hne

/-- A declared variable with its type and its value. -/
theorem Reads.declared {keyword name : String} {typing value : Forest}
    (hkeyword : keyword = "const" ∨ keyword = "let") (hname : isWord name = true)
    (hne : name ≠ "enum")
    (hlegible : (word spaced name <| typing ++ sign spaced "=" (value ++ sign [] ";" .nil)).Legible)
    (htyping : ∀ rest, dropTyping (dropText "!" (typing ++ sign spaced "=" rest)) =
      sign spaced "=" rest) (hvalue : Passes {} value .done) :
    Reads (word [] keyword <| word spaced name <|
      typing ++ sign spaced "=" (value ++ sign [] ";" .nil)) (.declaration (.bindings [name])) where
  legible := by
    have hword : isWord keyword = true := by rcases hkeyword with rfl | rfl <;> decide
    exact legible_keyword hword hlegible rfl (by simp) nofun
  first := ⟨_, rfl, rfl, rfl⟩
  read lead rest := by
    have hread := @variablesAt?_value (word spaced name .nil) typing value .done ⟨rfl, rfl⟩ htyping
      hvalue rest
    simp only [leadBy, leaf_append, nil_append, value_append] at hread ⊢
    exact at_declaration hread (by simpa using hne)
      (by simpa using isWord_ne hname (by decide)) hkeyword _

end ScreenHooks.Script
