/-
Types that reach to their end.

The reader of a type goes on from tree to tree with a small state, as the reader of an
expression does. Names, arrays, generics, function types and groups bring it from an
expected operand to a complete one, whatever follows; among open angle brackets they
leave it where it is.

* **`IsType.joined`**, **`IsType.arrayed`**, **`AreTypes.applied`**, **`IsType.function`** —
  types made of types;
* **`IsType.dropTyping`**, **`IsType.typeText?`** — a type after its colon.
-/
import ScreenHooks.Proofs.Script.Phrases

namespace ScreenHooks.Script

open Text

namespace Forest

theorem length_leadBy (f : Forest) (lead : List Trivia) : (f.leadBy lead).length = f.length := by
  cases f <;> rfl

theorem leadBy_append {a : Forest} {t : Token} (h : a.first? = some t) (lead : List Trivia)
    (b : Forest) : (a ++ b).leadBy lead = a.leadBy lead ++ b := by
  cases a with
  | nil => cases h
  | leaf u rest => rfl
  | group o inner c rest => rfl

/-- The text of a forest is its source, without what stands before it. -/
theorem text_leadBy {f : Forest} (h : ∀ t ∈ f.first?, t.lead = []) (lead : List Trivia) :
    (f.leadBy lead).text = f.source := by
  have hsource : ∀ t : Token, t.lead = [] → t.source = t.text := by
    intro t ht
    simp [Token.source, Token.leadText, ht]
  cases f with
  | nil => rfl
  | leaf t rest => simp only [leadBy, text, source, hsource t (h t rfl)]
  | group o inner c rest => simp only [leadBy, text, source, hsource o (h o rfl)]

end Forest

open Forest

/-! ### Lines -/

/-- Whether a text stays on its line. -/
def OneLine (s : String) : Prop := ∀ c ∈ s.toList, Token.isLineEnd c = false

theorem startsLine_gap {s : String} (h : OneLine s) (kind : TokenKind) (text : String) :
    Token.startsLine ⟨gap s, kind, text⟩ = false := by
  unfold gap Token.startsLine
  split
  · rfl
  · simpa [Trivia.text, List.any_eq_false, OneLine] using h

/-- Blanks with the end of a line come before a token that starts one. -/
theorem startsLine_break {s : String} (h : ¬ OneLine s) (kind : TokenKind) (text : String) :
    Token.startsLine ⟨gap s, kind, text⟩ = true := by
  unfold gap Token.startsLine
  split
  next hnone => exact absurd (by simp [hnone, OneLine]) h
  next => simpa [OneLine, Trivia.text] using h

/-! ### Passing trees -/

/-- The state after an operand; an arrow may follow if it was a group in parentheses. -/
def TypeState.done (callable : Bool) : TypeState := { expecting := false, callable := callable }

/-- Whether trees bring the reader of a type from one state to another, whatever follows
them. -/
def Reaches (st : TypeState) (f : Forest) (st' : TypeState) : Prop :=
  ∀ rest, typeSizeFrom st (f ++ rest) = f.length + typeSizeFrom st' rest

section Reaches

variable {st st' st'' : TypeState}

theorem Reaches.append {a b : Forest} (ha : Reaches st a st') (hb : Reaches st' b st'') :
    Reaches st (a ++ b) st'' := by
  intro rest
  rw [append_assoc, ha, hb, length_append, Nat.add_assoc]

theorem reaches_leaf {t : Token} (h : ∀ rest, st.step (.leaf t rest) = some st') :
    Reaches st (.leaf t .nil) st' := by
  intro rest
  simp [typeSizeFrom, h, length, Nat.add_comm]

theorem reaches_group {o inner c : _} (h : ∀ rest, st.step (.group o inner c rest) = some st') :
    Reaches st (.group o inner c .nil) st' := by
  intro rest
  simp [typeSizeFrom, h, length, Nat.add_comm]

/-- Among open angle brackets any group is passed over. -/
theorem reaches_angled_group (h : 0 < st.angles) (o c : Token) (inner : Forest) :
    Reaches st (.group o inner c .nil) st :=
  reaches_group fun rest => by simp [TypeState.step, h]

/-- So is any token but an angle bracket. -/
theorem reaches_angled_leaf (h : 0 < st.angles) {t : Token}
    (ht : t.kind = .sign → t.text ≠ "<" ∧ t.text ≠ ">") : Reaches st (.leaf t .nil) st := by
  refine reaches_leaf fun rest => ?_
  by_cases hkind : t.kind = .sign
  · obtain ⟨hopening, hclosing⟩ := ht hkind
    simp [TypeState.step, TypeState.insideAngles, h, hkind, hopening, hclosing]
  · simp [TypeState.step, TypeState.insideAngles, h, hkind]

/-- A sign before an operand. -/
theorem reaches_operator {callable : Bool} {mark : String} (lead : List Trivia)
    (h : mark = "|" ∨ mark = "&" ∨ mark = "=>" ∧ callable = true) :
    Reaches (.done callable) (sign lead mark .nil) {} := by
  refine reaches_leaf fun rest => ?_
  rcases h with rfl | rfl | ⟨rfl, rfl⟩ <;>
    simp [TypeState.step, TypeState.done, TypeState.afterToken, TypeState.operator]

end Reaches

/-! ### Types -/

/-- Whether a phrase stays inside the angle brackets that it stands in. -/
structure AreTypes (f : Forest) : Prop extends Phrase f where
  angled : ∀ lead st, 0 < st.angles → Reaches st (f.leadBy lead) st

/-- Whether a phrase is one type. -/
structure IsType (f : Forest) : Prop extends AreTypes f where
  reaches : ∃ callable, ∀ lead, Reaches {} (f.leadBy lead) (.done callable)

theorem reaches_name {name : String} (hoperator : name ∉ typeOperators) (lead : List Trivia) :
    Reaches {} (word lead name .nil) (.done false) :=
  reaches_leaf fun rest => by
    simp [TypeState.step, TypeState.operandToken, TypeState.complete, TypeState.done, hoperator]

/-- A name that takes no operand is a type. -/
theorem isType_name {name : String} (h : isWord name = true) (hoperator : name ∉ typeOperators) :
    IsType (word [] name .nil) where
  toPhrase := phrase_word h
  angled _ _ hst := reaches_angled_leaf hst nofun
  reaches := ⟨false, fun _ => reaches_name hoperator _⟩

/-- A group is a type; in parentheses, it may be the parameters of one. -/
theorem reaches_operand_group (o c : Token) (inner : Forest) :
    Reaches {} (.group o inner c .nil) (.done (o.kind = .opening .round)) :=
  reaches_group fun rest => by simp [TypeState.step, TypeState.complete, TypeState.done]

theorem isType_group {o inner c : _} (h : (Forest.group o inner c .nil).Legible) (ho : o.lead = []) :
    IsType (.group o inner c .nil) where
  toPhrase := phrase_group h ho
  angled _ _ hst := reaches_angled_group hst _ c inner
  reaches := ⟨o.kind = .opening .round, fun _ => reaches_operand_group _ c inner⟩

section Types

variable {f g : Forest}

theorem AreTypes.joined {before mark after : String} (hf : AreTypes f) (hg : AreTypes g)
    (hmark : mark ∈ [",", "|", "&", "=>"]) (hbefore : IsGap before) (hafter : IsGap after) :
    AreTypes (joined f before mark after g) where
  toPhrase := hf.toPhrase.joined hg.toPhrase hmark hbefore hafter
  angled lead st hst := by
    obtain ⟨t, hfirst, -⟩ := hf.first
    have hbrackets : ∀ mark ∈ [",", "|", "&", "=>"], mark ≠ "<" ∧ mark ≠ ">" := by decide
    have hsign : Reaches st (sign (gap before) mark .nil) st :=
      reaches_angled_leaf hst fun _ => hbrackets mark hmark
    rw [Script.joined, leadBy_append hfirst]
    exact (hf.angled lead st hst).append (hsign.append (hg.angled (gap after) st hst))

/-- An operand and a type that a sign joins. -/
theorem AreTypes.operator {before mark after : String} {callable : Bool} (hf : AreTypes f)
    (hreaches : ∀ lead, Reaches {} (f.leadBy lead) (.done callable)) (hg : IsType g)
    (hmark : mark = "|" ∨ mark = "&" ∨ mark = "=>" ∧ callable = true) (hbefore : IsGap before)
    (hafter : IsGap after) : IsType (Script.joined f before mark after g) where
  toAreTypes := hf.joined hg.toAreTypes (by rcases hmark with rfl | rfl | ⟨rfl, -⟩ <;> simp) hbefore
    hafter
  reaches := by
    obtain ⟨t, hfirst, -⟩ := hf.first
    obtain ⟨callable', hsecond⟩ := hg.reaches
    refine ⟨callable', fun lead => ?_⟩
    rw [Script.joined, leadBy_append hfirst]
    exact (hreaches lead).append ((reaches_operator _ hmark).append (hsecond (gap after)))

/-- Two types that a sign joins. -/
theorem IsType.joined {before mark after : String} (hf : IsType f) (hg : IsType g)
    (hmark : mark = "|" ∨ mark = "&") (hbefore : IsGap before) (hafter : IsGap after) :
    IsType (Script.joined f before mark after g) := by
  obtain ⟨callable, hreaches⟩ := hf.reaches
  exact hf.operator hreaches hg (hmark.imp_right .inl) hbefore hafter

/-- A function type: the parameters in parentheses, and what the function returns. -/
theorem IsType.function {o inner c : _} {before after : String}
    (hf : IsType (.group o inner c .nil)) (ho : o.kind = .opening .round) (hg : IsType g)
    (hbefore : IsGap before) (hafter : IsGap after) :
    IsType (Script.joined (.group o inner c .nil) before "=>" after g) := by
  have hreaches : ∀ lead, Reaches {} (Forest.leadBy lead (.group o inner c .nil)) (.done true) := by
    intro lead
    have hcallable : decide (o.kind = .opening .round) = true := decide_eq_true ho
    exact hcallable ▸ reaches_operand_group ⟨lead ++ o.lead, o.kind, o.text⟩ c inner
  exact hf.operator hreaches hg (.inr (.inr ⟨rfl, rfl⟩)) hbefore hafter

/-- An array on the line of its elements' type. -/
theorem IsType.arrayed {before inside : String} (hf : IsType f) (hbefore : IsGap before)
    (hline : OneLine before) (hinside : IsGap inside) :
    IsType (arrayed f before inside) where
  toPhrase := hf.toPhrase.arrayed hbefore hinside
  angled lead st hst := by
    obtain ⟨t, hfirst, -⟩ := hf.first
    rw [Script.arrayed, leadBy_append hfirst]
    exact (hf.angled lead st hst).append (reaches_angled_group hst _ _ _)
  reaches := by
    obtain ⟨t, hfirst, -⟩ := hf.first
    obtain ⟨callable, hreaches⟩ := hf.reaches
    refine ⟨false, fun lead => ?_⟩
    rw [Script.arrayed, leadBy_append hfirst]
    refine (hreaches lead).append (reaches_group fun rest => ?_)
    have hstarts : Token.startsLine ⟨gap before, .opening .square, "["⟩ = false :=
      startsLine_gap hline _ _
    simp [TypeState.step, TypeState.done, TypeState.complete, hstarts]

/-- Angle brackets open among open ones, or after a complete operand. -/
theorem reaches_opening {st : TypeState} (h : 0 < st.angles ∨ st = .done false) (lead : List Trivia) :
    Reaches st (sign lead "<" .nil) { st with angles := st.angles + 1 } := by
  refine reaches_leaf fun rest => ?_
  rcases h with h | rfl
  · simp [TypeState.step, TypeState.insideAngles, h]
  · simp [TypeState.step, TypeState.done, TypeState.afterToken]

/-- Angle brackets close. -/
theorem reaches_closing {st : TypeState} (h : 0 < st.angles ∨ st = .done false) (lead : List Trivia) :
    Reaches { st with angles := st.angles + 1 } (sign lead ">" .nil) st := by
  refine reaches_leaf fun rest => ?_
  rcases h with h | rfl
  · have hne : st.angles ≠ 0 := Nat.ne_of_gt h
    simp [TypeState.step, TypeState.insideAngles, hne]
  · simp [TypeState.step, TypeState.done, TypeState.insideAngles]

/-- Type arguments after a name. -/
theorem AreTypes.applied {head before inside after : String} (hf : AreTypes f)
    (hhead : isWord head = true) (hoperator : head ∉ operatorWords) (htype : head ∉ typeOperators)
    (hbefore : IsGap before) (hinside : IsGap inside) (hafter : IsGap after) :
    IsType (Script.applied head before inside f after) := by
  -- the brackets lead back to where they opened, among others as well as on their own
  have hbrackets : ∀ st : TypeState, 0 < st.angles ∨ st = .done false →
      Reaches st (sign (gap before) "<" .nil ++ (f.leadBy (gap inside) ++ sign (gap after) ">" .nil))
        st := by
    intro st hst
    have hinner := hf.angled (gap inside) { st with angles := st.angles + 1 } (Nat.succ_pos _)
    exact (reaches_opening hst _).append (hinner.append (reaches_closing hst _))
  refine ⟨⟨hf.toPhrase.applied hhead hoperator hbefore hinside hafter, fun lead st hst => ?_⟩,
    false, fun lead => ?_⟩
  · have hname : Reaches st (word (lead ++ []) head .nil) st := reaches_angled_leaf hst nofun
    exact hname.append (hbrackets st (.inl hst))
  · exact (reaches_name htype (lead ++ [])).append (hbrackets (.done false) (.inr rfl))

end Types

/-! ### Where types end -/

/-- Whether a list goes on or ends where a forest starts. -/
def Stops (f : Forest) : Prop :=
  f = .nil ∨ ∃ lead mark rest, (mark = "," ∨ mark = ";") ∧ f = sign lead mark rest

/-- Whether a member ends where a forest starts: a list goes on or ends, or a word starts
a line. -/
def StopsLine (f : Forest) : Prop :=
  Stops f ∨ ∃ t rest, isWord t.text = true ∧ t.kind = .word ∧ t.startsLine = true ∧ f = .leaf t rest

theorem typeSizeFrom_stops {f : Forest} (h : StopsLine f) (callable : Bool) :
    typeSizeFrom (.done callable) f = 0 := by
  rcases h with (rfl | ⟨lead, mark, rest, hmark, rfl⟩) | ⟨t, rest, -, hkind, hstarts, rfl⟩
  · rfl
  · rcases hmark with rfl | rfl <;>
      simp [typeSizeFrom, TypeState.step, TypeState.done, TypeState.afterToken]
  · simp [typeSizeFrom, TypeState.step, TypeState.done, TypeState.afterToken, hkind, hstarts]

section Typing

variable {f rest : Forest} (hf : IsType f) (hrest : StopsLine rest) (lead : List Trivia)

include hf hrest

theorem IsType.typeSize : typeSize (f.leadBy lead ++ rest) = (f.leadBy lead).length := by
  obtain ⟨callable, hreaches⟩ := hf.reaches
  rw [Script.typeSize, hreaches lead rest, typeSizeFrom_stops hrest, Nat.add_zero]

theorem IsType.dropTyping (colon : List Trivia) :
    dropTyping (sign colon ":" (f.leadBy lead ++ rest)) = rest := by
  simp only [Script.dropTyping, if_true, hf.typeSize hrest, drop_append]

/-- The text of a type after its colon. -/
theorem IsType.typeText? (colon : List Trivia) (before : String) :
    typeText? (sign colon ":" (f.leadBy (gap before) ++ rest)) = some f.source := by
  obtain ⟨t, hfirst, -⟩ := hf.first
  have hsize : (f.leadBy (gap before)).length ≠ 0 := by
    intro hnone
    rw [length_leadBy] at hnone
    rw [length_eq_zero hnone] at hfirst
    cases hfirst
  have hcomments : (f.leadBy (gap before) ++ rest).comments = [] := by
    have hgap : (gap before).filterMap Trivia.comment? = [] := by
      unfold gap
      split <;> rfl
    simp [comments, first?_append, first?_leadBy, hfirst, hf.tight t hfirst, Token.comments, hgap]
  have hnot : ¬ (":" ≠ ":" ∨ (f.leadBy (gap before)).length = 0) := by simp [hsize]
  simp only [Script.typeText?, hf.typeSize hrest, if_neg hnot, hcomments, List.head?_nil,
    Option.getD_none, take_append, text_leadBy hf.tight]

end Typing

end ScreenHooks.Script
