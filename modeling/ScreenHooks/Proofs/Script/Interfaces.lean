/-
Interfaces that are read back.

The text of an interface is made of names, types, parameters and members, with any blanks
between their tokens. Each part of it stands for something: a parameter for its name, its
type and whether it is optional, a member for a method with its parameters, or for none.
Object types have members of their own, and these stand for nothing outside.

* **`IsText.holds`** — each part is read as what it stands for;
* **`read_interface`** — the methods of an interface.
-/
import ScreenHooks.Proofs.Script.Members
import ScreenHooks.Proofs.Script.Surface

namespace ScreenHooks.Script

open Text Forest

/-! ### Texts -/

/-- The parts of an interface, with what they stand for. -/
inductive Part where
  | type
  | types
  | mark (optional : Bool)
  | typing (type : Option String)
  | parameter (p : Parameter)
  | parameters (ps : List Parameter)
  | parentheses (ps : List Parameter)
  | member (m : Option Method)
  | members (ms : List Method)
  | braces (ms : List Method)

/-- The texts of the parts of an interface. A name that takes an operand is no type of its
own, an array stays on the line of its elements' type, and a bare modifier does not end
with its line. -/
inductive IsText : Part → String → Prop where
  | name {text : String} (h : isWord text = true) (hoperator : text ∉ typeOperators) :
      IsText .type text
  | union {a b before after : String} (ha : IsText .type a) (hb : IsText .type b)
      (hbefore : IsGap before) (hafter : IsGap after) :
      IsText .type (a ++ before ++ "|" ++ after ++ b)
  | intersection {a b before after : String} (ha : IsText .type a) (hb : IsText .type b)
      (hbefore : IsGap before) (hafter : IsGap after) :
      IsText .type (a ++ before ++ "&" ++ after ++ b)
  | array {a before inside : String} (ha : IsText .type a) (hbefore : IsGap before)
      (hline : OneLine before) (hinside : IsGap inside) :
      IsText .type (a ++ before ++ "[" ++ inside ++ "]")
  | generic {head arguments before inside after : String} (hhead : isWord head = true)
      (hoperator : head ∉ operatorWords) (htype : head ∉ typeOperators)
      (harguments : IsText .types arguments) (hbefore : IsGap before) (hinside : IsGap inside)
      (hafter : IsGap after) :
      IsText .type (head ++ before ++ "<" ++ inside ++ arguments ++ after ++ ">")
  | parenthesized {a inside after : String} (ha : IsText .type a) (hinside : IsGap inside)
      (hafter : IsGap after) : IsText .type ("(" ++ inside ++ a ++ after ++ ")")
  | function {ps : List Parameter} {parameters result before after : String}
      (hparameters : IsText (.parentheses ps) parameters) (hresult : IsText .type result)
      (hbefore : IsGap before) (hafter : IsGap after) :
      IsText .type (parameters ++ before ++ "=>" ++ after ++ result)
  | object {ms : List Method} {body : String} (hbody : IsText (.braces ms) body) :
      IsText .type body
  | oneType {a : String} (ha : IsText .type a) : IsText .types a
  | moreTypes {a b before after : String} (ha : IsText .type a) (hb : IsText .types b)
      (hbefore : IsGap before) (hafter : IsGap after) :
      IsText .types (a ++ before ++ "," ++ after ++ b)
  | required : IsText (.mark false) ""
  | optional {before : String} (hbefore : IsGap before) : IsText (.mark true) (before ++ "?")
  | untyped : IsText (.typing none) ""
  | typed {a before after : String} (ha : IsText .type a) (hbefore : IsGap before)
      (hafter : IsGap after) : IsText (.typing (some a)) (before ++ ":" ++ after ++ a)
  | parameter {name mark typing : String} {optional : Bool} {type : Option String}
      (hname : isWord name = true) (hmark : IsText (.mark optional) mark)
      (htyping : IsText (.typing type) typing) :
      IsText (.parameter ⟨name, type.getD "any", optional⟩) (name ++ mark ++ typing)
  | oneParameter {p : Parameter} {a : String} (ha : IsText (.parameter p) a) :
      IsText (.parameters p.kept.toList) a
  | lastParameter {p : Parameter} {a before : String} (ha : IsText (.parameter p) a)
      (hbefore : IsGap before) : IsText (.parameters p.kept.toList) (a ++ before ++ ",")
  | moreParameters {p : Parameter} {ps : List Parameter} {a b before after : String}
      (ha : IsText (.parameter p) a) (hb : IsText (.parameters ps) b) (hbefore : IsGap before)
      (hafter : IsGap after) :
      IsText (.parameters (p.kept.toList ++ ps)) (a ++ before ++ "," ++ after ++ b)
  | noParameters {inside : String} (hinside : IsGap inside) :
      IsText (.parentheses []) ("(" ++ inside ++ ")")
  | someParameters {ps : List Parameter} {a inside after : String} (ha : IsText (.parameters ps) a)
      (hinside : IsGap inside) (hafter : IsGap after) :
      IsText (.parentheses ps) ("(" ++ inside ++ a ++ after ++ ")")
  | property {name mark typing : String} {optional : Bool} {type : Option String}
      (hname : isWord name = true) (hmark : IsText (.mark optional) mark)
      (htyping : IsText (.typing type) typing) :
      IsText (.member none) (name ++ mark ++ typing)
  | method {name mark parameters typing before : String} {ps : List Parameter}
      {optional : Bool} {type : Option String} (hname : isWord name = true) (hnew : name ≠ "new")
      (hmark : IsText (.mark optional) mark) (hparameters : IsText (.parentheses ps) parameters)
      (htyping : IsText (.typing type) typing) (hbefore : IsGap before) :
      IsText (.member (some ⟨name, ps⟩)) (name ++ mark ++ before ++ parameters ++ typing)
  | oneMember {m : Option Method} {a : String} (ha : IsText (.member m) a) :
      IsText (.members m.toList) a
  | lastMember {m : Option Method} {a before mark : String} (ha : IsText (.member m) a)
      (hmark : mark = "," ∨ mark = ";") (hbefore : IsGap before) :
      IsText (.members m.toList) (a ++ before ++ mark)
  | moreMembers {m : Option Method} {ms : List Method} {a b before mark after : String}
      (ha : IsText (.member m) a) (hb : IsText (.members ms) b) (hmark : mark = "," ∨ mark = ";")
      (hbefore : IsGap before) (hafter : IsGap after) :
      IsText (.members (m.toList ++ ms)) (a ++ before ++ mark ++ after ++ b)
  | lineMembers {m : Option Method} {ms : List Method} {a b between : String}
      (ha : IsText (.member m) a) (hb : IsText (.members ms) b) (hmodifier : a ∉ memberModifiers)
      (hbetween : IsGap between) (hline : ¬ OneLine between) :
      IsText (.members (m.toList ++ ms)) (a ++ between ++ b)
  | noMembers {inside : String} (hinside : IsGap inside) :
      IsText (.braces []) ("\x7b" ++ inside ++ "\x7d")
  | someMembers {ms : List Method} {a inside after : String} (ha : IsText (.members ms) a)
      (hinside : IsGap inside) (hafter : IsGap after) :
      IsText (.braces ms) ("\x7b" ++ inside ++ a ++ after ++ "\x7d")

/-! ### Forests -/

/-- Whether a forest is a part of a list that starts with a word. -/
def Named (f : Forest) : Prop := Span f ∧ ∃ name rest, f = word [] name rest

/-- Whether a forest is a group in brackets with contents of the given kind. -/
def Encloses (bracket : Bracket) (contents : Forest → Prop) (f : Forest) : Prop :=
  ∃ inside inner after, f = enclosed bracket inside inner after ∧ f.Legible ∧
    contents (inner.leadBy (gap inside))

/-- Whether a forest is read as a part of an interface. -/
def Part.Holds : Part → Forest → Prop
  | .type, f => IsType f
  | .types, f => AreTypes f
  | .mark optional, f => Marks f optional
  | .typing written, f => Annotates f written
  | .parameter p, f => Span f ∧ ∀ lead rest, Stops rest →
      parametersFrom 0 (f.leadBy lead ++ rest) = p.kept.toList ++ parametersFrom 0 rest
  | .parameters ps, f => Span f ∧ ∀ lead, parametersFrom 0 (f.leadBy lead) = ps
  | .parentheses ps, f => Encloses .round (parametersFrom 0 · = ps) f
  -- a bare modifier belongs to the name of the member after it
  | .member m, f => Named f ∧ ∀ lead rest, StopsLine rest →
      (startsMember rest = true → f.source ∉ memberModifiers) →
        methodsFrom 0 (f.leadBy lead ++ rest) = m.toList ++ methodsFrom 0 rest
  | .members ms, f => Named f ∧ ∀ lead, methodsFrom 0 (f.leadBy lead) = ms
  | .braces ms, f => Encloses .curly (methodsFrom 0 · = ms) f

section Group

variable {bracket : Bracket} {contents : Forest → Prop}
  (hbracket : bracket = .round ∨ bracket = .curly)

include hbracket

theorem Span.encloses {f : Forest} (h : Span f) (hcontents : ∀ lead, contents (f.leadBy lead))
    {inside after : String} (hinside : IsGap inside) (hafter : IsGap after) :
    Encloses bracket contents (enclosed bracket inside f after) :=
  ⟨inside, f, after, rfl, legible_enclosed h.legible h.tight (.inr h.first) hbracket hinside hafter,
    hcontents _⟩

theorem encloses_nil (hcontents : contents .nil) {inside : String} (hinside : IsGap inside) :
    Encloses bracket contents (enclosed bracket "" .nil inside) :=
  ⟨"", .nil, inside, rfl, @legible_enclosed .nil trivial nofun (.inl rfl) bracket hbracket "" inside
    isGap_empty hinside, hcontents⟩

end Group

theorem Encloses.isType {bracket : Bracket} {contents : Forest → Prop} {f : Forest}
    (h : Encloses bracket contents f) : IsType f := by
  obtain ⟨inside, inner, after, rfl, hlegible, -⟩ := h
  exact isType_group hlegible rfl

theorem AreTypes.head {f : Forest} (h : AreTypes f) : ∃ t, f.first? = some t :=
  h.first.imp fun _ hfirst => hfirst.1

section Lists

variable {f g : Forest} {before mark after : String}

/-- Parts of a list with a mark between them. -/
theorem Span.joined (hf : Span f) (hg : Span g) (hmark : mark ∈ [",", ":", ";"])
    (hbefore : IsGap before) (hafter : IsGap after) : Span (Script.joined f before mark after g) :=
  hf.append (hg.tail_sign hmark hbefore hafter)

theorem stops_sign (lead : List Trivia) (hmark : mark = "," ∨ mark = ";") (rest : Forest) :
    Stops (sign lead mark rest) := .inr ⟨lead, mark, rest, hmark, rfl⟩

theorem methodsFrom_sign (lead : List Trivia) (hmark : mark = "," ∨ mark = ";") (rest : Forest) :
    methodsFrom 0 (sign lead mark rest) = methodsFrom 0 rest := by
  rcases hmark with rfl | rfl <;> simp [methodsFrom]

end Lists

/-! ### Parts of a parameter list -/

section Parameters

variable {f g : Forest} {p : Parameter} {ps : List Parameter}

theorem holds_parameter {name : String} (hname : isWord name = true) {mark typing : Forest}
    {optional : Bool} {type : Option String} (hmark : Marks mark optional)
    (htyping : Annotates typing type) :
    (Part.parameter ⟨name, type.getD "any", optional⟩).Holds (word [] name (mark ++ typing)) := by
  refine ⟨(hmark.span hname).append htyping.tail, fun lead rest hrest => ?_⟩
  have h := parametersFrom_parameter hmark htyping hrest hname (lead ++ [])
  rwa [← append_assoc] at h

theorem holds_oneParameter (h : (Part.parameter p).Holds f) :
    (Part.parameters p.kept.toList).Holds f := by
  refine ⟨h.1, fun lead => ?_⟩
  have hread := h.2 lead .nil (.inl rfl)
  rwa [append_nil, parametersFrom, List.append_nil] at hread

theorem holds_lastParameter (h : (Part.parameter p).Holds f) {before : String}
    (hbefore : IsGap before) :
    (Part.parameters p.kept.toList).Holds (f ++ sign (gap before) "," .nil) := by
  obtain ⟨t, hfirst, -⟩ := h.1.first
  refine ⟨h.1.append (tail_mark (by simp) hbefore), fun lead => ?_⟩
  rw [leadBy_append hfirst, h.2 lead _ (stops_sign _ (.inl rfl) _)]
  simp [parametersFrom]

theorem holds_moreParameters (hf : (Part.parameter p).Holds f) (hg : (Part.parameters ps).Holds g)
    {before after : String} (hbefore : IsGap before) (hafter : IsGap after) :
    (Part.parameters (p.kept.toList ++ ps)).Holds (joined f before "," after g) := by
  obtain ⟨t, hfirst, -⟩ := hf.1.first
  refine ⟨hf.1.joined hg.1 (by simp) hbefore hafter, fun lead => ?_⟩
  rw [joined, leadBy_append hfirst, hf.2 lead _ (stops_sign _ (.inl rfl) _), parametersFrom,
    if_pos rfl, hg.2]

theorem holds_parentheses_iff :
    (Part.parentheses ps).Holds f ↔ Encloses .round (parametersFrom 0 · = ps) f := Iff.rfl

theorem holds_noParameters {inside : String} (hinside : IsGap inside) :
    (Part.parentheses []).Holds (enclosed .round "" .nil inside) :=
  holds_parentheses_iff.2 (encloses_nil (.inl rfl) parameters_nil hinside)

theorem holds_someParameters (h : (Part.parameters ps).Holds f) {inside after : String}
    (hinside : IsGap inside) (hafter : IsGap after) :
    (Part.parentheses ps).Holds (enclosed .round inside f after) :=
  holds_parentheses_iff.2 (h.1.encloses (.inl rfl) h.2 hinside hafter)

/-- Parameters in parentheses may stand in a type. -/
theorem holds_parentheses (h : (Part.parentheses ps).Holds f) : AreTypes f :=
  (holds_parentheses_iff.1 h).isType.toAreTypes

theorem holds_function (hf : (Part.parentheses ps).Holds f) (hg : IsType g)
    {before after : String} (hbefore : IsGap before) (hafter : IsGap after) :
    IsType (joined f before "=>" after g) := by
  have htype := (holds_parentheses_iff.1 hf).isType
  obtain ⟨inside, inner, final, rfl, -⟩ := hf
  exact htype.function rfl hg hbefore hafter

end Parameters

/-! ### Parts of a body -/

section Members

variable {f g : Forest} {m : Option Method} {ms : List Method}

section Member

variable {name : String} (hname : isWord name = true) {mark typing : Forest} {optional : Bool}
  {type : Option String} (hmark : Marks mark optional) (htyping : Annotates typing type)

include hname hmark htyping

theorem holds_property : (Part.member none).Holds (word [] name (mark ++ typing)) := by
  refine ⟨⟨(hmark.span hname).append htyping.tail, name, _, rfl⟩, fun lead rest hrest hbare => ?_⟩
  have h := methodsFrom_property hname hmark htyping hrest (lead ++ []) hbare
  rwa [← append_assoc] at h

theorem holds_method (hnew : name ≠ "new") {ps : List Parameter} {parameters : Forest}
    (hparameters : Encloses .round (parametersFrom 0 · = ps) parameters) {before : String}
    (hbefore : IsGap before) : (Part.member (some ⟨name, ps⟩)).Holds
      (word [] name (mark ++ (parameters.leadBy (gap before) ++ typing))) := by
  have hspan := hparameters.isType.toPhrase.span
  obtain ⟨inside, inner, after, rfl, -, rfl⟩ := hparameters
  have hgroup := hspan.tail hbefore (.inr ⟨_, _, _, _, rfl⟩)
  refine ⟨⟨?_, name, _, rfl⟩, fun lead rest hrest _ => ?_⟩
  · have h := ((hmark.span hname).append hgroup).append htyping.tail
    rwa [append_assoc] at h
  · show methodsFrom 0 (word (lead ++ []) name ((mark ++ (_ ++ typing)) ++ rest)) = _
    rw [append_assoc, append_assoc]
    exact methodsFrom_method hname hmark htyping hrest _ hnew rfl

end Member

theorem Named.first {f : Forest} (h : Named f) : ∃ t, f.first? = some t := by
  obtain ⟨-, name, rest, rfl⟩ := h
  exact ⟨_, rfl⟩

theorem Named.append {a b : Forest} (ha : Named a) (hb : Tail b) : Named (a ++ b) := by
  obtain ⟨hspan, name, rest, rfl⟩ := ha
  exact ⟨hspan.append hb, name, rest ++ b, rfl⟩

/-- A mark is not the name of a member. -/
theorem startsMember_sign {mark : String} (hmark : mark = "," ∨ mark = ";") (lead : List Trivia)
    (rest : Forest) : startsMember (sign lead mark rest) = false := by
  rcases hmark with rfl | rfl <;> simp [startsMember]

/-- A member before a mark. -/
theorem methodsFrom_marked (h : (Part.member m).Holds f) {mark : String}
    (hmark : mark = "," ∨ mark = ";") (lead final : List Trivia) (rest : Forest) :
    methodsFrom 0 (f.leadBy lead ++ sign final mark rest) = m.toList ++ methodsFrom 0 rest := by
  have hnone := startsMember_sign hmark final rest
  rw [h.2 lead _ (.inl (stops_sign _ hmark _)) (by simp [hnone]), methodsFrom_sign _ hmark]

theorem holds_oneMember (h : (Part.member m).Holds f) : (Part.members m.toList).Holds f := by
  refine ⟨h.1, fun lead => ?_⟩
  have hread := h.2 lead .nil (.inl (.inl rfl)) nofun
  rwa [append_nil, methodsFrom, List.append_nil] at hread

theorem holds_lastMember (h : (Part.member m).Holds f) {before mark : String}
    (hmark : mark = "," ∨ mark = ";") (hbefore : IsGap before) :
    (Part.members m.toList).Holds (f ++ sign (gap before) mark .nil) := by
  obtain ⟨t, hfirst⟩ := h.1.first
  refine ⟨h.1.append (tail_mark (by rcases hmark with rfl | rfl <;> simp) hbefore), fun lead => ?_⟩
  rw [leadBy_append hfirst, methodsFrom_marked h hmark]
  exact List.append_nil _

theorem holds_moreMembers (hf : (Part.member m).Holds f) (hg : (Part.members ms).Holds g)
    {before mark after : String} (hmark : mark = "," ∨ mark = ";") (hbefore : IsGap before)
    (hafter : IsGap after) :
    (Part.members (m.toList ++ ms)).Holds (joined f before mark after g) := by
  obtain ⟨t, hfirst⟩ := hf.1.first
  have hmem : mark ∈ [",", ":", ";"] := by rcases hmark with rfl | rfl <;> simp
  refine ⟨hf.1.append (hg.1.1.tail_sign hmem hbefore hafter), fun lead => ?_⟩
  rw [joined, leadBy_append hfirst, methodsFrom_marked hf hmark, hg.2]

/-- Members on lines of their own. -/
theorem holds_lineMembers (hf : (Part.member m).Holds f) (hg : (Part.members ms).Holds g)
    (hmodifier : f.source ∉ memberModifiers) {between : String} (hbetween : IsGap between)
    (hline : ¬ OneLine between) :
    (Part.members (m.toList ++ ms)).Holds (f ++ g.leadBy (gap between)) := by
  obtain ⟨t, hfirst⟩ := hf.1.first
  have hgap : gap between ≠ [] := by
    unfold gap
    split
    next hnone => exact absurd (by simp [hnone, OneLine]) hline
    next => simp
  refine ⟨hf.1.append (hg.1.1.tail hbetween (.inl hgap)), fun lead => ?_⟩
  have hstops : StopsLine (g.leadBy (gap between)) := by
    obtain ⟨hspan, name, rest, rfl⟩ := hg.1
    refine .inr ⟨⟨gap between ++ [], .word, name⟩, rest, hspan.legible.1.2.1, rfl, ?_, rfl⟩
    rw [List.append_nil]
    exact startsLine_break hline _ _
  rw [leadBy_append hfirst, hf.2 lead _ hstops fun _ => hmodifier, hg.2]

theorem holds_braces_iff :
    (Part.braces ms).Holds f ↔ Encloses .curly (methodsFrom 0 · = ms) f := Iff.rfl

theorem holds_noMembers {inside : String} (hinside : IsGap inside) :
    (Part.braces []).Holds (enclosed .curly "" .nil inside) := by
  have hnone : methodsFrom 0 .nil = [] := rfl
  exact holds_braces_iff.2 (encloses_nil (.inr rfl) hnone hinside)

theorem holds_someMembers (h : (Part.members ms).Holds f) {inside after : String}
    (hinside : IsGap inside) (hafter : IsGap after) :
    (Part.braces ms).Holds (enclosed .curly inside f after) :=
  holds_braces_iff.2 (h.1.1.encloses (.inr rfl) h.2 hinside hafter)

/-- An object type stands for no methods outside. -/
theorem holds_object (h : (Part.braces ms).Holds f) : IsType f :=
  (holds_braces_iff.1 h).isType

end Members

/-! ### All texts -/

/-- Each part is read as what it stands for. -/
theorem IsText.holds {part : Part} {text : String} (h : IsText part text) :
    ∃ f, part.Holds f ∧ f.source = text := by
  -- the texts of the smaller parts have forests, of which each case makes its own
  induction h with
  | name h hoperator => exact ⟨_, isType_name h hoperator, by simp⟩
  | union _ _ hbefore hafter iha ihb =>
    obtain ⟨f, hf, rfl⟩ := iha
    obtain ⟨g, hg, rfl⟩ := ihb
    obtain ⟨t, hfirst⟩ := (IsType.toAreTypes hg).head
    exact ⟨_, IsType.joined hf hg (.inl rfl) hbefore hafter, source_joined hfirst _ _ _ _⟩
  | intersection _ _ hbefore hafter iha ihb =>
    obtain ⟨f, hf, rfl⟩ := iha
    obtain ⟨g, hg, rfl⟩ := ihb
    obtain ⟨t, hfirst⟩ := (IsType.toAreTypes hg).head
    exact ⟨_, IsType.joined hf hg (.inr rfl) hbefore hafter, source_joined hfirst _ _ _ _⟩
  | array _ hbefore hline hinside ih =>
    obtain ⟨f, hf, rfl⟩ := ih
    exact ⟨_, IsType.arrayed hf hbefore hline hinside, source_arrayed _ _ _⟩
  | generic hhead hoperator htype _ hbefore hinside hafter ih =>
    obtain ⟨f, hf, rfl⟩ := ih
    obtain ⟨t, hfirst⟩ := AreTypes.head hf
    exact ⟨_, AreTypes.applied hf hhead hoperator htype hbefore hinside hafter,
      source_applied hfirst _ _ _ _⟩
  | parenthesized _ hinside hafter ih =>
    obtain ⟨f, hf, rfl⟩ := ih
    obtain ⟨t, hfirst⟩ := (IsType.toAreTypes hf).head
    exact ⟨_, isType_group ((IsType.toAreTypes hf).enclosed hinside hafter).legible rfl,
      source_enclosed hfirst .round _ _⟩
  | function _ _ hbefore hafter ihp ihr =>
    obtain ⟨f, hf, rfl⟩ := ihp
    obtain ⟨g, hg, rfl⟩ := ihr
    obtain ⟨t, hfirst⟩ := (IsType.toAreTypes hg).head
    exact ⟨_, holds_function hf hg hbefore hafter, source_joined hfirst _ _ _ _⟩
  | object _ ih =>
    obtain ⟨f, hf, rfl⟩ := ih
    exact ⟨f, holds_object hf, rfl⟩
  | oneType _ ih =>
    obtain ⟨f, hf, rfl⟩ := ih
    exact ⟨f, IsType.toAreTypes hf, rfl⟩
  | moreTypes _ _ hbefore hafter iha ihb =>
    obtain ⟨f, hf, rfl⟩ := iha
    obtain ⟨g, hg, rfl⟩ := ihb
    obtain ⟨t, hfirst⟩ := AreTypes.head hg
    exact ⟨_, AreTypes.joined (IsType.toAreTypes hf) hg (by simp) hbefore hafter,
      source_joined hfirst _ _ _ _⟩
  | required => exact ⟨.nil, .inl ⟨rfl, rfl⟩, rfl⟩
  | optional hbefore => exact ⟨_, .inr ⟨_, hbefore, rfl, rfl⟩, by simp⟩
  | untyped => exact ⟨.nil, .inl ⟨rfl, rfl⟩, rfl⟩
  | typed _ hbefore hafter ih =>
    obtain ⟨f, hf, rfl⟩ := ih
    obtain ⟨t, hfirst⟩ := (IsType.toAreTypes hf).head
    exact ⟨_, .inr ⟨_, _, f, hbefore, hafter, hf, rfl, rfl⟩, by
      simp [source_leadBy hfirst, String.append_assoc]⟩
  | parameter hname _ _ ihm iha =>
    obtain ⟨mark, hmark, rfl⟩ := ihm
    obtain ⟨typing, htyping, rfl⟩ := iha
    exact ⟨_, holds_parameter hname hmark htyping, by simp [String.append_assoc]⟩
  | oneParameter _ ih =>
    obtain ⟨f, hf, rfl⟩ := ih
    exact ⟨f, holds_oneParameter hf, rfl⟩
  | lastParameter _ hbefore ih =>
    obtain ⟨f, hf, rfl⟩ := ih
    exact ⟨_, holds_lastParameter hf hbefore, by simp [String.append_assoc]⟩
  | moreParameters _ _ hbefore hafter iha ihb =>
    obtain ⟨f, hf, rfl⟩ := iha
    obtain ⟨g, hg, rfl⟩ := ihb
    obtain ⟨t, hfirst, -⟩ := hg.1.first
    exact ⟨_, holds_moreParameters hf hg hbefore hafter, source_joined hfirst _ _ _ _⟩
  | noParameters hinside =>
    exact ⟨_, holds_noParameters hinside, source_enclosed_nil .round _⟩
  | someParameters _ hinside hafter ih =>
    obtain ⟨f, hf, rfl⟩ := ih
    obtain ⟨t, hfirst, -⟩ := hf.1.first
    exact ⟨_, holds_someParameters hf hinside hafter, source_enclosed hfirst .round _ _⟩
  | property hname _ _ ihm iha =>
    obtain ⟨mark, hmark, rfl⟩ := ihm
    obtain ⟨typing, htyping, rfl⟩ := iha
    exact ⟨_, holds_property hname hmark htyping, by simp [String.append_assoc]⟩
  | method hname hnew _ _ _ hbefore ihm ihp iha =>
    obtain ⟨mark, hmark, rfl⟩ := ihm
    obtain ⟨parameters, hparameters, rfl⟩ := ihp
    obtain ⟨typing, htyping, rfl⟩ := iha
    obtain ⟨t, hfirst⟩ := (holds_parentheses hparameters).head
    exact ⟨_, holds_method hname hmark htyping hnew hparameters hbefore, by
      simp [source_leadBy hfirst, String.append_assoc]⟩
  | oneMember _ ih =>
    obtain ⟨f, hf, rfl⟩ := ih
    exact ⟨f, holds_oneMember hf, rfl⟩
  | lastMember _ hmark hbefore ih =>
    obtain ⟨f, hf, rfl⟩ := ih
    exact ⟨_, holds_lastMember hf hmark hbefore, by simp [String.append_assoc]⟩
  | moreMembers _ _ hmark hbefore hafter iha ihb =>
    obtain ⟨f, hf, rfl⟩ := iha
    obtain ⟨g, hg, rfl⟩ := ihb
    obtain ⟨t, hfirst⟩ := hg.1.first
    exact ⟨_, holds_moreMembers hf hg hmark hbefore hafter, source_joined hfirst _ _ _ _⟩
  | lineMembers _ _ hmodifier hbetween hline iha ihb =>
    obtain ⟨f, hf, rfl⟩ := iha
    obtain ⟨g, hg, rfl⟩ := ihb
    obtain ⟨t, hfirst⟩ := hg.1.first
    exact ⟨_, holds_lineMembers hf hg hmodifier hbetween hline, by
      simp [source_leadBy hfirst, String.append_assoc]⟩
  | noMembers hinside =>
    exact ⟨_, holds_noMembers hinside, source_enclosed_nil .curly _⟩
  | someMembers _ hinside hafter ih =>
    obtain ⟨f, hf, rfl⟩ := ih
    obtain ⟨t, hfirst⟩ := hf.1.first
    exact ⟨_, holds_someMembers hf hinside hafter, source_enclosed hfirst .curly _ _⟩

/-! ### Interfaces -/

theorem at_ownInterface {name : String} (hname : isWord name = true) (lead : List Trivia)
    (inner : Forest) (mid final : List Trivia) (rest : Forest) :
    Statement.at (word lead "interface" <| word spaced name <| curly mid inner final rest) =
      (.declaration (.interfaceType name (interfaceMethods inner)), rest) := by
  have hcolon : name ≠ ":" := isWord_ne hname (by decide)
  simp [Statement.at, startsControl, startsGroup, controlWords, named?, drop, simpleAt,
    startsImport, declarationAt?, plainDeclarationAt?,
    interfaceAt?, body?, bodyFrom?, hcolon]

/-- The text of an interface with its body. -/
def interfaceText (exported : Bool) (name between body : String) : String :=
  (if exported then "export " else "") ++ "interface " ++ name ++ between ++ body

/-- How an interface is read. -/
def interfaceStatement (exported : Bool) (name : String) (methods : List Method) : Statement :=
  if exported then .exported (.interfaceType name methods)
  else .declaration (.interfaceType name methods)

theorem states_interface {ms : List Method} {name between body : String}
    (h : IsText (.braces ms) body) (hname : isWord name = true) (hbetween : IsGap between)
    (exported : Bool) : States [interfaceText exported name between body]
      [interfaceStatement exported name (firstOfName [] ms)] := by
  obtain ⟨f, hf, rfl⟩ := h.holds
  have hspan := (holds_object hf).toPhrase.span
  obtain ⟨inside, inner, after, rfl, -, rfl⟩ := holds_braces_iff.1 hf
  have htail := hspan.tail hbetween (.inr ⟨_, _, _, _, rfl⟩)
  have hnamed : (word spaced name <| (enclosed .curly inside inner after).leadBy
      (gap between)).Legible :=
    ⟨⟨by simp, hname, apart_spaced _ _⟩, fun next hn => htail.next next hn _ (.inl (.inl rfl)),
      htail.legible⟩
  have hbody := source_leadBy (show (enclosed .curly inside inner after).first? = some _ from rfl) between
  -- the keyword in front tells two statements apart, the body is read alike
  cases exported with
  | false =>
    have hread : Reads (word [] "interface" <| word spaced name <|
        (enclosed .curly inside inner after).leadBy (gap between))
        (.declaration (.interfaceType name (interfaceMethods (inner.leadBy (gap inside))))) :=
      ⟨legible_keyword (by decide) hnamed rfl (by simp) nofun, ⟨_, rfl, rfl, rfl⟩,
        fun lead rest => at_ownInterface hname _ _ _ _ rest⟩
    refine .chars hread ?_
    simp [interfaceText, hbody]
  | true =>
    have hread : Reads (word [] "export" <| word spaced "interface" <| word spaced name <|
        (enclosed .curly inside inner after).leadBy (gap between))
        (.exported (.interfaceType name (interfaceMethods (inner.leadBy (gap inside))))) :=
      ⟨legible_keyword (by decide) (legible_spaced (by decide) hnamed rfl (by simp) nofun) rfl
        (by simp) nofun, ⟨_, rfl, rfl, rfl⟩, fun lead rest => at_interface _ rest _ _ _⟩
    refine .chars hread ?_
    simp [interfaceText, hbody]

/-- An interface is read with its own methods: of several with one name the first. -/
theorem read_interface {ms : List Method} {name between body : String}
    (h : IsText (.braces ms) body) (hname : isWord name = true) (hbetween : IsGap between)
    (exported : Bool) (dialect : Dialect) : FirstOfEach (firstOfName [] ms) ms ∧
      (Module.read dialect (Hook.endLines [interfaceText exported name between body])).interfaces =
        [⟨name, exported, firstOfName [] ms⟩] := by
  have hsource := Hook.endLines_toList [interfaceText exported name between body]
  have hhead : ∀ c ∈ (Hook.endLines [interfaceText exported name between body]).toList.head?,
      c ≠ '#' := by
    rw [hsource]
    cases exported <;> simp [interfaceText, ended]
  have hread := (states_interface h hname hbetween exported).read_module dialect hsource hhead
  refine ⟨firstOfEach ms, ?_⟩
  rw [hread]
  cases exported <;> rfl

/-- A body with a receiver, an object type with a method, and an overload. -/
def overloadedBody : String :=
  "\x7b f(this: T, a?: \x7b g(): U \x7d): V; f(): W; x: (b) => T[] \x7d"

theorem isText_overloadedBody : IsText
    (.braces [⟨"f", [⟨"a", "\x7b g(): U \x7d", true⟩]⟩, ⟨"f", []⟩]) overloadedBody := by
  have htype : ∀ name, isWord name = true → name ∉ typeOperators →
      IsText (.typing (some name)) (": " ++ name) := by
    intro name hname hoperator
    simpa using IsText.typed (.name hname hoperator) isGap_empty isGap_blank
  have hnone : IsText (.parentheses []) "()" := .noParameters isGap_empty
  have hinner : IsText (.member (some ⟨"g", []⟩)) "g(): U" :=
    .method (by decide) (by decide) .required hnone (htype "U" (by decide) (by decide)) isGap_empty
  have hobject : IsText .type "\x7b g(): U \x7d" :=
    .object (.someMembers (.oneMember hinner) isGap_blank isGap_blank)
  have hreceiver : IsText (.parameter ⟨"this", "T", false⟩) "this: T" :=
    .parameter (by decide) .required (htype "T" (by decide) (by decide))
  have hoptional : IsText (.parameter ⟨"a", "\x7b g(): U \x7d", true⟩) "a?: \x7b g(): U \x7d" :=
    .parameter (by decide) (.optional isGap_empty) (.typed hobject isGap_empty isGap_blank)
  have hparameters : IsText (.parentheses [⟨"a", "\x7b g(): U \x7d", true⟩])
      "(this: T, a?: \x7b g(): U \x7d)" :=
    .someParameters (.moreParameters hreceiver (.oneParameter hoptional) isGap_empty isGap_blank)
      isGap_empty isGap_empty
  have hfirst : IsText (.member (some ⟨"f", [⟨"a", "\x7b g(): U \x7d", true⟩]⟩))
      "f(this: T, a?: \x7b g(): U \x7d): V" :=
    .method (by decide) (by decide) .required hparameters (htype "V" (by decide) (by decide)) isGap_empty
  have hsecond : IsText (.member (some ⟨"f", []⟩)) "f(): W" :=
    .method (by decide) (by decide) .required hnone (htype "W" (by decide) (by decide)) isGap_empty
  have huntyped : IsText (.parameter ⟨"b", "any", false⟩) "b" :=
    .parameter (by decide) .required .untyped
  have hresult : IsText .type "T[]" :=
    .array (@IsText.name "T" (by decide) (by decide)) isGap_empty nofun isGap_empty
  have hfunction : IsText .type "(b) => T[]" :=
    .function (.someParameters (.oneParameter huntyped) isGap_empty isGap_empty) hresult isGap_blank
      isGap_blank
  have hproperty : IsText (.member none) "x: (b) => T[]" :=
    .property (show isWord "x" = true by decide) .required
      (.typed hfunction isGap_empty isGap_blank)
  exact .someMembers (.moreMembers hfirst (.moreMembers hsecond (.oneMember hproperty) (.inr rfl)
    isGap_empty isGap_blank) (.inr rfl) isGap_empty isGap_blank) isGap_blank isGap_blank

theorem read_overloadedBody :
    (IsText (.braces [⟨"f", [⟨"a", "\x7b g(): U \x7d", true⟩]⟩, ⟨"f", []⟩]) overloadedBody ∧
      isWord "Api" = true ∧ IsGap " ") ∧
    (Module.read .plain (Hook.endLines [interfaceText true "Api" " " overloadedBody])).interfaces =
      [⟨"Api", true, [⟨"f", [⟨"a", "\x7b g(): U \x7d", true⟩]⟩]⟩] :=
  ⟨⟨isText_overloadedBody, by decide, isGap_blank⟩,
    (read_interface isText_overloadedBody (by decide) isGap_blank true .plain).2⟩

end ScreenHooks.Script
