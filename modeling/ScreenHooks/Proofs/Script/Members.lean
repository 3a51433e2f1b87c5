/-
Parameters and members that are read tree by tree.

A parameter is a name with an optional mark and a type, a member such a name with or
without parameters in parentheses. Each is read up to the comma, the semicolon or the
line after it, so that a list of them is read one by one.

* **`parametersFrom_parameter`** — one parameter, and the ones after it;
* **`methodsFrom_property`**, **`methodsFrom_method`** — one member, and the ones after it;
* **`firstOfEach`** — of methods with one name the first stays.
-/
import ScreenHooks.Proofs.Script.Spans

namespace ScreenHooks.Script

open Text Forest

/-! ### Parts of lists -/

/-- Whether a comma, a semicolon, a bracket or a new line may follow a token. -/
def Token.Closes (t : Token) : Prop := t.Complete ∨ t.kind = .sign ∧ t.text ∈ ["?", ",", ";"]

theorem Token.Closes.follows {t next : Token} (ht : t.Closes)
    (hnext : (∃ bracket, next.kind = .opening bracket) ∨
      next.kind = .sign ∧ next.text ∈ [",", ":", ";"]) : t.Follows next := by
  have hless : next.kind = .sign → next.text ≠ "<" := by
    have hmarks : ∀ mark ∈ [",", ":", ";"], mark ≠ "<" := by decide
    intro hsign
    rcases hnext with ⟨bracket, hnext⟩ | ⟨-, hnext⟩
    · rw [hnext] at hsign
      cases hsign
    · exact hmarks _ hnext
  rcases ht with ht | ⟨ht, -⟩
  · exact ht.follows (hnext.symm.imp (·.1) .inl) hless
  · refine ⟨.inr ?_, fun hsign htext => absurd htext (hless hsign)⟩
    rcases hnext with ⟨bracket, hnext⟩ | ⟨hnext, hmark⟩
    · simp [Token.adjoins, ht, hnext]
    · simp only [Token.adjoins, ht, hnext, Bool.or_eq_true]
      exact .inr (List.contains_iff_mem.2 hmark)

/-- Whether a forest is a part of a list: it starts as a phrase, and the list may go on
after it. -/
structure Span (f : Forest) : Prop where
  legible : f.Legible
  first : ∃ t, f.first? = some t ∧ t.Begins
  tight : ∀ t ∈ f.first?, t.lead = []
  last : ∀ t ∈ f.tokens.getLast?, t.Closes

theorem Phrase.span {f : Forest} (h : Phrase f) : Span f :=
  ⟨h.legible, h.first, h.tight, fun t ht => .inl (h.last t ht)⟩

/-- Whether a forest may follow any part of a list. -/
structure Tail (f : Forest) : Prop where
  legible : f.Legible
  next : ∀ next ∈ f.first?, ∀ t : Token, t.Closes → t.Follows next
  last : ∀ t ∈ f.tokens.getLast?, t.Closes

theorem Span.append {a b : Forest} (ha : Span a) (hb : Tail b) : Span (a ++ b) := by
  obtain ⟨t, hfirst, hbegins⟩ := ha.first
  have hsame : (a ++ b).first? = some t := by rw [first?_append, hfirst]; rfl
  refine ⟨ha.legible.append hb.legible fun last hlast next hnext => hb.next next hnext last
    (ha.last last hlast), ⟨t, hsame, hbegins⟩, fun u hu => ?_, fun u hu => ?_⟩
  · rw [hsame] at hu
    exact ha.tight u (hfirst ▸ hu)
  · rw [tokens_append, List.getLast?_append, Option.mem_def, Option.or_eq_some_iff] at hu
    rcases hu with hu | ⟨-, hu⟩
    · exact hb.last u hu
    · exact ha.last u hu

theorem tail_nil : Tail .nil := ⟨trivial, nofun, nofun⟩

theorem Token.Closes.congr {t u : Token} (h : u.Closes) (hkind : t.kind = u.kind)
    (htext : t.text = u.text) : t.Closes := by
  rwa [Token.Closes, Token.Complete, hkind, htext]

section Tail

variable {f : Forest} {before after : String}

/-- A part of a list after blanks, or one that starts with a bracket. -/
theorem Span.tail (h : Span f) (hbefore : IsGap before)
    (hnext : gap before ≠ [] ∨ ∃ o inner c rest, f = .group o inner c rest) :
    Tail (f.leadBy (gap before)) := by
  refine ⟨h.legible.leadBy h.tight hbefore, fun next hn t ht => ?_, fun t ht => ?_⟩
  · obtain ⟨u, hu, hbegins⟩ := first?_leadBy_begins h.first (gap before)
    rw [hu] at hn
    obtain rfl := Option.some.inj hn
    rcases hnext with hnext | ⟨o, inner, c, rest, rfl⟩
    · refine hbegins.follows (.inl ?_)
      obtain ⟨v, hv, -⟩ := h.first
      rw [first?_leadBy, hv] at hu
      obtain rfl := Option.some.inj hu
      simp [hnext]
    · obtain rfl := Option.some.inj hu
      obtain ⟨⟨bracket, hopening, -⟩, -⟩ := h.legible.1
      exact ht.follows (.inl ⟨bracket, hopening⟩)
  · obtain ⟨u, hu, hkind, htext⟩ := last_leadBy ht
    exact (h.last u hu).congr hkind htext

/-- A part of a list after a mark. -/
theorem Span.tail_sign {mark : String} (h : Span f) (hmark : mark ∈ [",", ":", ";"])
    (hbefore : IsGap before) (hafter : IsGap after) :
    Tail (sign (gap before) mark (f.leadBy (gap after))) := by
  have hplain : ∀ mark ∈ [",", ":", ";"], mark ∈ plainSigns := by decide
  obtain ⟨u, hu, hbegins⟩ := first?_leadBy_begins h.first (gap after)
  refine ⟨⟨⟨by simp, hplain mark hmark, apart_gap hbefore _ _⟩, fun next hn => ?_,
    h.legible.leadBy h.tight hafter⟩, fun next hn t ht => ?_, fun t ht => ?_⟩
  · rw [hu] at hn
    obtain rfl := Option.some.inj hn
    exact hbegins.follows (.inr (.inl rfl))
  · obtain rfl := Option.some.inj hn
    exact ht.follows (.inr ⟨rfl, hmark⟩)
  · have hsame := @last_append (sign (gap before) mark .nil) _ u hu
    obtain ⟨v, hv, hkind, htext⟩ := last_leadBy (hsame ▸ ht)
    exact (h.last v hv).congr hkind htext

/-- A mark at the end of a list. -/
theorem tail_mark {mark : String} (hmark : mark ∈ [",", ";"]) (hbefore : IsGap before) :
    Tail (sign (gap before) mark .nil) := by
  have hplain : ∀ mark ∈ [",", ";"],
      mark ∈ plainSigns ∧ mark ∈ [",", ":", ";"] ∧ mark ∈ ["?", ",", ";"] := by decide
  obtain ⟨hsign, hnext, hlast⟩ := hplain mark hmark
  refine ⟨⟨⟨by simp, hsign, apart_gap hbefore _ _⟩, nofun, trivial⟩, fun next hn t ht => ?_,
    fun t ht => ?_⟩
  · obtain rfl := Option.some.inj hn
    exact ht.follows (.inr ⟨rfl, hnext⟩)
  · obtain rfl := Option.some.inj ht
    exact .inr ⟨rfl, hlast⟩

end Tail

/-! ### Marks and annotations -/

/-- Whether a forest is the mark of what is optional, or nothing. -/
def Marks (f : Forest) (optional : Bool) : Prop :=
  f = .nil ∧ optional = false ∨ ∃ s, IsGap s ∧ f = sign (gap s) "?" .nil ∧ optional = true

/-- Whether a forest is a type after its colon, or nothing. -/
def Annotates (f : Forest) (type : Option String) : Prop :=
  f = .nil ∧ type = none ∨ ∃ before after g, IsGap before ∧ IsGap after ∧ IsType g ∧
    f = sign (gap before) ":" (g.leadBy (gap after)) ∧ type = some g.source

theorem Annotates.tail {f : Forest} {type : Option String} (h : Annotates f type) : Tail f := by
  rcases h with ⟨rfl, -⟩ | ⟨before, after, g, hbefore, hafter, hg, rfl, -⟩
  · exact tail_nil
  · exact hg.toPhrase.span.tail_sign (by simp) hbefore hafter

/-- A name with its mark. -/
theorem Marks.span {mark : Forest} {optional : Bool} (h : Marks mark optional) {name : String}
    (hname : isWord name = true) : Span (word [] name mark) := by
  have hspan := (phrase_word hname).span
  rcases h with ⟨rfl, -⟩ | ⟨s, hs, rfl, -⟩
  · exact hspan
  · have hless : "?" ≠ "<" := by decide
    refine ⟨⟨⟨by simp, hname, apart_tight _ _⟩, fun next hn => ?_, ⟨by simp,
      by simp [Token.Plain, plainSigns], apart_gap hs _ _⟩, nofun, trivial⟩, ⟨_, rfl, .inl rfl⟩,
      fun t ht => ?_, fun t ht => ?_⟩
    · obtain rfl := Option.some.inj hn
      exact Token.Complete.follows (.inl rfl) (.inl rfl) fun _ => hless
    · obtain rfl := Option.some.inj ht
      rfl
    · have hmark : "?" ∈ ["?", ",", ";"] := by decide
      obtain rfl := Option.some.inj ht
      exact .inr ⟨rfl, hmark⟩

/-- Whether a forest starts with nothing that belongs to the name before it. -/
def Quiet (f : Forest) : Prop :=
  f = .nil ∨ ∃ t rest, f = .leaf t rest ∧ (isWord t.text = true ∨ t.text ∈ [":", ",", ";"])

theorem StopsLine.quiet {f : Forest} (h : StopsLine f) : Quiet f := by
  rcases h with (rfl | ⟨lead, mark, rest, hmark, rfl⟩) | ⟨t, rest, hword, -, -, rfl⟩
  · exact .inl rfl
  · exact .inr ⟨_, rest, rfl, .inr (by rcases hmark with rfl | rfl <;> simp)⟩
  · exact .inr ⟨t, rest, rfl, .inl hword⟩

theorem Annotates.quiet {f rest : Forest} {type : Option String} (h : Annotates f type)
    (hrest : StopsLine rest) : Quiet (f ++ rest) := by
  rcases h with ⟨rfl, -⟩ | ⟨before, after, g, -, -, -, rfl, -⟩
  · exact hrest.quiet
  · exact .inr ⟨_, _, rfl, .inr (by simp)⟩

namespace Quiet

variable {f : Forest} (h : Quiet f)

include h

theorem text_ne {t : Token} {rest : Forest} (hf : f = .leaf t rest) {text : String}
    (htext : isWord text = false ∧ text ∉ [":", ",", ";"]) : t.text ≠ text := by
  rintro rfl
  rcases h with hnil | ⟨u, more, hleaf, hword⟩
  · rw [hf] at hnil
    cases hnil
  · rw [hf] at hleaf
    obtain ⟨rfl, rfl⟩ := Forest.leaf.inj hleaf
    rcases hword with hword | hword
    · rw [htext.1] at hword
      cases hword
    · exact htext.2 hword

theorem dropText {text : String} (htext : isWord text = false ∧ text ∉ [":", ",", ";"]) :
    dropText text f = f := by
  cases f with
  | nil => rfl
  | leaf t rest => rw [Script.dropText, if_neg (h.text_ne rfl htext)]
  | group o inner c rest => rfl

theorem dropAngles : dropAngles f = f := by
  cases f with
  | nil => rfl
  | leaf t rest => rw [Script.dropAngles, if_neg (h.text_ne rfl (by decide))]
  | group o inner c rest => rfl

theorem dropValue : dropValue f = f := by
  cases f with
  | nil => rfl
  | leaf t rest => rw [Script.dropValue, if_neg (h.text_ne rfl (by decide))]
  | group o inner c rest => rfl

theorem dropGroup (bracket : Bracket) : dropGroup bracket f = f := by
  rcases h with rfl | ⟨t, rest, rfl, -⟩ <;> rfl

theorem word?_ne {text : String} (htext : isWord text = false ∧ text ∉ [":", ",", ";"]) :
    f.word? ≠ some text := by
  cases f with
  | nil => nofun
  | leaf t rest => exact fun hsome => h.text_ne rfl htext (Option.some.inj hsome)
  | group o inner c rest => nofun

end Quiet

theorem StopsLine.dropTyping {f : Forest} (h : StopsLine f) : dropTyping f = f := by
  rcases h with (rfl | ⟨lead, mark, rest, hmark, rfl⟩) | ⟨t, rest, hword, -, -, rfl⟩
  · rfl
  · rcases hmark with rfl | rfl <;> simp [Script.dropTyping]
  · have hcolon : t.text ≠ ":" := isWord_ne hword (by decide)
    simp [Script.dropTyping, hcolon]

section Annotates

variable {f rest : Forest} {type : Option String} (h : Annotates f type) (hrest : StopsLine rest)

include h hrest

theorem Annotates.dropTyping : dropTyping (f ++ rest) = rest := by
  rcases h with ⟨rfl, -⟩ | ⟨before, after, g, -, -, hg, rfl, -⟩
  · exact hrest.dropTyping
  · exact hg.dropTyping hrest _ _

theorem Annotates.typeText? : typeText? (f ++ rest) = type := by
  rcases h with ⟨rfl, rfl⟩ | ⟨before, after, g, -, -, hg, rfl, rfl⟩
  · rcases hrest with (rfl | ⟨lead, mark, more, hmark, rfl⟩) | ⟨t, more, hword, -, -, rfl⟩
    · rfl
    · rcases hmark with rfl | rfl <;> simp [Script.typeText?]
    · have hcolon : t.text ≠ ":" := isWord_ne hword (by decide)
      simp [Script.typeText?, hcolon]
  · exact hg.typeText? hrest _ _

end Annotates

/-- What follows a name: its mark is passed over. -/
theorem Marks.dropText {mark f : Forest} {optional : Bool} (h : Marks mark optional)
    (hf : f.word? ≠ some "?") : dropText "?" (mark ++ f) = f := by
  rcases h with ⟨rfl, -⟩ | ⟨s, -, rfl, -⟩
  · cases f with
    | nil => rfl
    | leaf t rest =>
      have hne : t.text ≠ "?" := fun htext => hf (congrArg some htext)
      simp [Script.dropText, hne]
    | group o inner c rest => rfl
  · simp [Script.dropText]

theorem Marks.word?_ne {mark f : Forest} {optional : Bool} (h : Marks mark optional) {text : String}
    (htext : text ≠ "?") (hf : f.word? ≠ some text) : (mark ++ f).word? ≠ some text := by
  rcases h with ⟨rfl, -⟩ | ⟨s, -, rfl, -⟩
  · exact hf
  · exact fun hsome => htext (Option.some.inj hsome).symm

theorem Marks.word? {mark f : Forest} {optional : Bool} (h : Marks mark optional)
    (hf : f.word? ≠ some "?") : ((mark ++ f).word? == some "?") = optional := by
  rcases h with ⟨rfl, rfl⟩ | ⟨s, -, rfl, rfl⟩
  · simpa using hf
  · rfl

/-! ### Parameters -/

theorem parametersFrom_skip (a b : Forest) :
    parametersFrom a.length (a ++ b) = parametersFrom 0 b := by
  induction a with
  | nil => rfl
  | leaf t rest ih => exact ih
  | group o inner c rest _ ih => exact ih

/-- What a parameter adds to a list: the receiver is none. -/
def Parameter.kept (p : Parameter) : Option Parameter := if p.name = "this" then none else some p

section Parameter

variable {mark typing rest : Forest} {optional : Bool} {type : Option String}
  (hmark : Marks mark optional) (htyping : Annotates typing type) (hrest : Stops rest)

include hmark htyping hrest

/-- No pattern stands after the name of a parameter, so the name is no modifier. -/
theorem startsParameter_marked : startsParameter (mark ++ (typing ++ rest)) = false := by
  rcases hmark with ⟨rfl, -⟩ | ⟨s, -, rfl, -⟩
  · rcases htyping with ⟨rfl, -⟩ | ⟨before, after, g, -, -, -, rfl, -⟩
    · rcases hrest with rfl | ⟨lead, mark, more, rfl | rfl, rfl⟩ <;>
        simp [startsParameter, startsPattern, Forest.word?]
    · simp [startsParameter, startsPattern]
  · simp [startsParameter, startsPattern]

theorem parameterAt_named {name : String} (hname : isWord name = true) (lead : List Trivia) :
    parameterAt (word lead name <| mark ++ (typing ++ rest)) =
      (Parameter.kept ⟨name, type.getD "any", optional⟩, rest) := by
  have hquiet := htyping.quiet (.inl hrest)
  have hquestion : (typing ++ rest).word? ≠ some "?" := hquiet.word?_ne (by decide)
  have hbang : (mark ++ (typing ++ rest)).word? ≠ some "!" :=
    hmark.word?_ne (by decide) (hquiet.word?_ne (by decide))
  have hat : name ≠ "@" := isWord_ne hname (by decide)
  have hdots : name ≠ "..." := isWord_ne hname (by decide)
  have hdecorators : dropDecorators (word lead name <| mark ++ (typing ++ rest)) =
      word lead name (mark ++ (typing ++ rest)) := dropDecorators_leaf hat _
  have hmodifiers : dropModifiers parameterModifiers startsParameter
      (word lead name <| mark ++ (typing ++ rest)) =
        word lead name (mark ++ (typing ++ rest)) := by
    simp [dropModifiers, startsParameter_marked hmark htyping hrest]
  have hsize : patternSize (word lead name <| mark ++ (typing ++ rest)) = 1 := by
    simp [patternSize, hdots, drop, hbang]
  have hvalue : dropValue rest = rest := (StopsLine.quiet (.inl hrest)).dropValue
  have hequals : (rest.word? == some "=") = false :=
    beq_false_of_ne ((StopsLine.quiet (.inl hrest)).word?_ne (by decide))
  -- the reader goes over modifiers, pattern, mark, type and default value in turn
  have hparts : parameterAt (word lead name <| mark ++ (typing ++ rest)) =
      (Parameter.kept ⟨name, type.getD "any", optional⟩, dropValue rest) := by
    simp only [parameterAt, hdecorators, hmodifiers, hsize, take, drop, text, source,
      String.append_empty, hmark.dropText hquestion, hmark.word? hquestion,
      htyping.typeText? (.inl hrest), htyping.dropTyping (.inl hrest), hequals, Bool.or_false]
    rfl
  rw [hparts, hvalue]

/-- One parameter, and the ones after it. -/
theorem parametersFrom_parameter {name : String} (hname : isWord name = true)
    (lead : List Trivia) :
    parametersFrom 0 (word lead name <| mark ++ (typing ++ rest)) =
      (Parameter.kept ⟨name, type.getD "any", optional⟩).toList ++ parametersFrom 0 rest := by
  have hcomma : name ≠ "," := isWord_ne hname (by decide)
  rw [parametersFrom, if_neg hcomma]
  simp only [parameterAt_named hmark htyping hrest hname]
  rw [← append_assoc, sizeBefore_append, parametersFrom_skip]

end Parameter

/-! ### Members -/

theorem methodsFrom_skip (a b : Forest) : methodsFrom a.length (a ++ b) = methodsFrom 0 b := by
  induction a with
  | nil => rfl
  | leaf t rest ih => exact ih
  | group o inner c rest _ ih => exact ih

/-- A word before what is not the name of a member is one itself. -/
theorem memberAt_named {name : String} (hname : isWord name = true) {f : Forest}
    (hf : startsMember f = true → name ∉ memberModifiers) (lead : List Trivia) :
    memberAt (word lead name f) = memberRest (if name = "new" then none else some name) f := by
  have hless : name ≠ "<" := isWord_ne hname (by decide)
  have hmodifiers : dropModifiers memberModifiers startsMember (word lead name f) =
      word lead name f := by
    rw [dropModifiers, if_neg]
    rintro ⟨hmem, hstarts⟩
    exact hf hstarts (List.contains_iff_mem.1 hmem)
  rw [memberAt, hmodifiers]
  simp only [if_neg hless, unquote_word hname]

section Member

variable {name : String} (hname : isWord name = true) {mark typing rest : Forest}
  {optional : Bool} {type : Option String} (hmark : Marks mark optional)
  (htyping : Annotates typing type) (hrest : StopsLine rest) (lead : List Trivia)

include hname hmark htyping hrest

/-- A property, and the members after it. A bare modifier would go with the name of the
next member. -/
theorem methodsFrom_property
    (hbare : startsMember rest = true → (word [] name (mark ++ typing)).source ∉ memberModifiers) :
    methodsFrom 0 (word lead name <| mark ++ (typing ++ rest)) = methodsFrom 0 rest := by
  have hquiet := htyping.quiet hrest
  have hstarts : startsMember (mark ++ (typing ++ rest)) = true → name ∉ memberModifiers := by
    rcases hmark with ⟨rfl, -⟩ | ⟨s, -, rfl, -⟩
    · rcases htyping with ⟨rfl, -⟩ | ⟨before, after, g, -, -, -, rfl, -⟩
      · simpa using hbare
      · simp [startsMember]
    · simp [startsMember]
  have hmember : ∀ key, memberRest key (mark ++ (typing ++ rest)) = (none, rest) := by
    have hdrop := htyping.dropTyping hrest
    intro key
    rw [memberRest, hmark.dropText (hquiet.word?_ne (by decide)), hquiet.dropText (by decide),
      hquiet.dropAngles]
    generalize typing ++ rest = f at hquiet hdrop
    rcases hquiet with rfl | ⟨t, more, rfl, -⟩ <;> simp only [hdrop, hrest.quiet.dropValue]
  have hsemicolon : name ≠ ";" := isWord_ne hname (by decide)
  have hcomma : name ≠ "," := isWord_ne hname (by decide)
  rw [methodsFrom, if_neg (by simp [hsemicolon, hcomma])]
  simp only [memberAt_named hname hstarts, hmember]
  rw [← append_assoc, sizeBefore_append, methodsFrom_skip]
  rfl

/-- A method, and the members after it. -/
theorem methodsFrom_method (hnew : name ≠ "new") {o inner c : _} (ho : o.kind = .opening .round) :
    methodsFrom 0 (word lead name <| mark ++ (.group o inner c .nil ++ (typing ++ rest))) =
      ⟨name, parameters inner⟩ :: methodsFrom 0 rest := by
  have hstarts : startsMember (mark ++ (.group o inner c .nil ++ (typing ++ rest))) = true →
      name ∉ memberModifiers := by
    rcases hmark with ⟨rfl, -⟩ | ⟨s, -, rfl, -⟩ <;> simp [startsMember, ho]
  have hmember : memberRest (some name) (mark ++ (.group o inner c .nil ++ (typing ++ rest))) =
      (some ⟨name, inner⟩, rest) := by
    rw [memberRest, hmark.dropText (by simp)]
    simp only [group_append, nil_append, dropText, dropAngles, ho, if_true, Option.map_some,
      htyping.dropTyping hrest, hrest.quiet.dropGroup]
  have hsemicolon : name ≠ ";" := isWord_ne hname (by decide)
  have hcomma : name ≠ "," := isWord_ne hname (by decide)
  rw [methodsFrom, if_neg (by simp [hsemicolon, hcomma])]
  simp only [memberAt_named hname hstarts, if_neg hnew, hmember]
  have happend : mark ++ (.group o inner c .nil ++ (typing ++ rest)) =
      (mark ++ (.group o inner c .nil ++ typing)) ++ rest := by
    simp only [append_assoc]
  rw [happend, sizeBefore_append, methodsFrom_skip]
  rfl

end Member

/-! ### Overloads -/

/-- Whether a list keeps of the methods the first of each name, in their order. -/
structure FirstOfEach (kept methods : List Method) : Prop where
  sublist : kept.Sublist methods
  names : (kept.map (·.name)).Nodup
  mem_iff : ∀ m, m ∈ kept ↔ methods.find? (·.name = m.name) = some m

theorem firstOfName_sublist (seen : List String) (methods : List Method) :
    (firstOfName seen methods).Sublist methods := by
  induction methods generalizing seen with
  | nil => exact .slnil
  | cons m more ih =>
    rw [firstOfName]
    split
    · exact (ih seen).cons m
    · exact (ih (m.name :: seen)).cons_cons m

theorem mem_firstOfName {seen : List String} {methods : List Method} {m : Method} :
    m ∈ firstOfName seen methods ↔
      m.name ∉ seen ∧ methods.find? (·.name = m.name) = some m := by
  induction methods generalizing seen with
  | nil => simp [firstOfName]
  | cons first more ih =>
    by_cases hname : first.name = m.name
    · rw [firstOfName, List.find?_cons_of_pos (by simpa using hname), Option.some_inj, hname]
      by_cases hseen : m.name ∈ seen
      · rw [if_pos hseen, ih]
        simp [hseen]
      · rw [if_neg hseen, List.mem_cons, ih]
        simp [hseen, eq_comm]
    · have hne : m ≠ first := fun h => hname (h ▸ rfl)
      rw [firstOfName, List.find?_cons_of_neg (by simpa using hname)]
      split
      · exact ih
      · rw [List.mem_cons, ih]
        simp [hne, Ne.symm hname]

theorem nodup_firstOfName (seen : List String) (methods : List Method) :
    ((firstOfName seen methods).map (·.name)).Nodup := by
  induction methods generalizing seen with
  | nil => exact List.nodup_nil
  | cons m more ih =>
    rw [firstOfName]
    split
    · exact ih seen
    · refine List.nodup_cons.2 ⟨fun hmem => ?_, ih (m.name :: seen)⟩
      obtain ⟨other, hother, hname⟩ := List.mem_map.1 hmem
      exact (mem_firstOfName.1 hother).1 (hname ▸ List.mem_cons_self)

theorem firstOfEach (methods : List Method) : FirstOfEach (firstOfName [] methods) methods :=
  ⟨firstOfName_sublist [] methods, nodup_firstOfName [] methods, fun m => by
    rw [mem_firstOfName, and_iff_right List.not_mem_nil]⟩

end ScreenHooks.Script
