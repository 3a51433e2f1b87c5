/-
Tuple types.

A square bracket is no separator, so the first piece of a tuple starts with the bracket and
names nothing. The name at the front of the first element is lost, unless the tuple mentions
it again; everything else in the tuple is named as in its elements.

* **`Spells.namesIn_opening`** — a type behind an open bracket;
* **`tuple_names`** — the names of a tuple and those of its elements.
-/
import Mathlib.Data.List.Forall2
import ScreenHooks.Proofs.Names
import ScreenHooks.Proofs.TypeText.Expressions

namespace ScreenHooks

open Text

namespace TypeText

/-! ### Fronts -/

/-- The named type at the front of an expression, behind its operators. -/
def TypeExpr.leading? : TypeExpr → Option String
  | .name text => if isBuiltin text then none else some text
  | .array element => element.leading?
  | .generic head _ => if isBuiltin head then none else some head
  | .union left _ => left.leading?
  | .intersection left _ => left.leading?
  | .operator _ operand => operand.leading?
  | _ => none

/-- The named types behind the front. -/
def TypeExpr.later : TypeExpr → List String
  | .name _ => []
  | .literal _ => []
  | .array element => element.later
  | .generic _ arguments => typesNames arguments
  | .union left right => left.later ++ right.names
  | .intersection left right => left.later ++ right.names
  | .parenthesized inner => inner.names
  | .object fields => fieldsNames fields
  | .function parameters result => fieldsNames parameters ++ result.names
  | .operator _ operand => operand.later

theorem named_eq (text : String) :
    named text = (if isBuiltin text then none else some text : Option String).toList := by
  rw [named]
  split <;> rfl

theorem TypeExpr.names_eq : ∀ e : TypeExpr, e.names = e.leading?.toList ++ e.later
  | .name text => by
    show named text = _ ++ []
    rw [named_eq, List.append_nil]
    rfl
  | .literal _ => rfl
  | .array element => names_eq element
  | .generic head arguments => by
    show named head ++ typesNames arguments = _
    rw [named_eq]
    rfl
  | .union left right => by
    show left.names ++ right.names = left.leading?.toList ++ (left.later ++ right.names)
    rw [names_eq left, List.append_assoc]
  | .intersection left right => by
    show left.names ++ right.names = left.leading?.toList ++ (left.later ++ right.names)
    rw [names_eq left, List.append_assoc]
  | .parenthesized _ => rfl
  | .object _ => rfl
  | .function _ _ => rfl
  | .operator _ operand => names_eq operand

/-! ### Behind an open bracket -/

/-- Whether a text is an open bracket with words and blanks behind it. -/
def Opening (cs : List Char) : Prop :=
  ∃ r, cs = '[' :: r ∧ ∀ c ∈ r, isNamePart c = true ∨ isBlank c = true

section Opening

variable {front cs : List Char}

theorem Opening.append (h : Opening front)
    (hcs : ∀ c ∈ cs, isNamePart c = true ∨ isBlank c = true) : Opening (front ++ cs) := by
  obtain ⟨r, rfl, hr⟩ := h
  exact ⟨r ++ cs, rfl, List.forall_mem_append.2 ⟨hr, hcs⟩⟩

/-- An open bracket mutes the piece behind it. -/
theorem Opening.mute (h : Opening front) (hwhole : Whole cs) (hcolon : ':' ∉ cs)
    (hclose : cs.head? ≠ some ']') : namesIn (front ++ cs) = [] := by
  obtain ⟨r, rfl, hr⟩ := h
  have hne : ∀ c ∈ r, isSeparator c = false ∧ c ∉ [':', '[', ']', '=', '\'', '"', '\x60'] :=
    fun c hc => (hr c hc).elim isNamePart_ne isBlank_ne
  have hbracket : Whole ('[' :: r) :=
    List.forall_mem_cons.2 ⟨by decide, fun c hc => (hne c hc).1⟩
  refine namesIn_mute (by decide) (by decide) (hbracket.append hwhole) ?_ fun _ => ?_
  · have hr : ':' ∉ r := fun hmem => (hne ':' hmem).2 (by simp)
    simp [hr, hcolon]
  · cases r with
    | nil => exact hclose
    | cons c r =>
      intro hc
      exact (hne c List.mem_cons_self).2 (by simp [Option.some.inj hc])

theorem Opening.names (h : Opening front) : namesIn front = [] := by
  have hself := @Opening.mute front [] h (by simp [Whole]) (by simp) (by simp)
  rwa [List.append_nil] at hself

theorem Opening.separator (h : Opening front) {c : Char} (hc : isSeparator c = true)
    (cs : List Char) : namesIn (front ++ c :: cs) = namesIn cs := by
  rw [namesIn_separator hc, h.names, List.nil_append]

/-- What is between two separators is named also behind an open bracket. -/
theorem Opening.enclosed (h : Opening front) {first last : Char}
    (hfirst : isSeparator first = true) (hlast : isSeparator last = true) (cs : List Char) :
    namesIn (front ++ first :: (cs ++ [last])) = namesIn cs := by
  rw [h.separator hfirst, namesIn_separator hlast, namesIn_nil, List.append_nil]

end Opening

/-- A type behind an open bracket loses the name at its front. -/
theorem Spells.namesIn_opening {part : Part} {cs : List Char} (h : Spells part cs) {e : TypeExpr}
    (htype : part = .type e) {front : List Char} (hfront : Opening front) :
    TypeText.namesIn (front ++ cs) = e.later := by
  have hidentifier : ∀ {text : String}, isIdentifier text.toList = true →
      ∀ {front : List Char}, Opening front → TypeText.namesIn (front ++ text.toList) = [] := by
    intro text h front hfront
    have hword := hfront.append fun c hc => .inl ((isIdentifier_parts h).2.1 c hc)
    exact hword.names
  -- operators and blanks make the front longer, and a separator is where its piece ends
  induction h generalizing e front with
  | name h =>
    cases htype
    exact hidentifier h hfront
  | literal h =>
    cases htype
    obtain ⟨⟨c, r, hcs, -, -, hbracket⟩, hwhole, hcolon⟩ := h.mute
    exact hfront.mute hwhole hcolon fun hc => hbracket (by
      rw [hcs] at hc
      simp [Option.some.inj hc])
  | array _ hinside ih =>
    cases htype
    rw [← List.append_assoc, namesIn_array hinside]
    exact ih rfl hfront
  | @generic head arguments cs between hhead hbetween harguments _ =>
    cases htype
    have hlast := TypeText.namesIn_separator (c := '>') (by decide) cs []
    rw [← List.append_assoc, TypeText.namesIn_separator (by decide), ← List.append_assoc,
      namesIn_quiet hbetween.quiet, hidentifier hhead hfront, hlast, namesIn_nil, List.append_nil,
      harguments.namesIn]
    rfl
  | union _ hright ih _ =>
    cases htype
    rw [← List.append_assoc, TypeText.namesIn_separator (by decide), ih rfl hfront,
      hright.namesIn]
    rfl
  | intersection _ hright ih _ =>
    cases htype
    rw [← List.append_assoc, TypeText.namesIn_separator (by decide), ih rfl hfront,
      hright.namesIn]
    rfl
  | parenthesized hinner _ =>
    cases htype
    rw [hfront.enclosed (by decide) (by decide), hinner.namesIn]
    rfl
  | object hfields _ =>
    cases htype
    rw [hfront.enclosed (by decide) (by decide), hfields.namesIn]
    rfl
  | function hparameters hbetween hresult =>
    cases htype
    have hself := (Spells.function hparameters hbetween hresult).namesIn
    rw [hfront.separator (by decide)]
    have hopen := TypeText.namesIn_separator (c := '(') (by decide) []
    rw [namesIn_nil] at hopen
    exact (hopen _).symm.trans hself
  | operator hword _ _ ih =>
    cases htype
    obtain ⟨-, hparts, -⟩ := operator_parts (by rwa [String.ofList_toList])
    rw [← List.append_assoc]
    exact ih rfl (hfront.append fun c hc => .inl (hparts c hc))
  | before hc _ ih =>
    cases htype
    rw [List.append_cons]
    exact ih rfl (hfront.append (by simpa using .inr hc))
  | after hc _ ih =>
    cases htype
    rw [← List.append_assoc, namesIn_quiet (by simpa using isQuiet_of_isBlank hc)]
    exact ih rfl hfront
  | oneType | moreTypes | noField | oneField | moreFields => cases htype

/-! ### Tuples -/

/-- The text of the tuple of some types. -/
def tupleText (elements : List String) : String := "[" ++ ",".intercalate elements ++ "]"

/-- The names of all texts, in order. -/
def unionNames (texts : List String) : Names :=
  Names.ofList (texts.flatMap fun text => (typeNames text).toList)

/-- Texts that spell types, one each. -/
abbrev SpellTypes : List TypeExpr → List String → Prop :=
  List.Forall₂ fun e text => Spells (.type e) text.toList

theorem SpellTypes.unionNames {es : List TypeExpr} {texts : List String}
    (h : SpellTypes es texts) : unionNames texts = Names.ofList (typesNames es) := by
  -- with any names that are there before
  have hacc : ∀ names : Names, names.insertAll (texts.flatMap fun text => (typeNames text).toList) =
      names.insertAll (typesNames es) := by
    induction h with
    | nil => exact fun _ => rfl
    | @cons e text es texts he _ ih =>
      intro names
      have hcons : typesNames (e :: es) = e.names ++ typesNames es := rfl
      rw [List.flatMap_cons, Names.insertAll_append, typeNames_expression he,
        Names.insertAll_ofList, ih, hcons, Names.insertAll_append]
  exact hacc .empty

/-- The texts of several types with commas between them. -/
theorem SpellTypes.intercalate {e : TypeExpr} {es : List TypeExpr} {text : String}
    {texts : List String} (h : SpellTypes (e :: es) (text :: texts)) :
    Spells (.types (e :: es)) (",".intercalate (text :: texts)).toList := by
  induction es generalizing e text texts with
  | nil =>
    obtain ⟨he, hnil⟩ := List.forall₂_cons.1 h
    cases hnil
    simpa using Spells.oneType he
  | cons e' es ih =>
    obtain ⟨he, hrest⟩ := List.forall₂_cons.1 h
    cases hrest with
    | cons he' hes =>
      simpa using Spells.moreTypes he (ih (.cons he' hes))

/-- The names of a tuple. -/
theorem namesIn_tuple {e : TypeExpr} {es : List TypeExpr} {cs : List Char}
    (h : Spells (.types (e :: es)) cs) :
    namesIn ('[' :: (cs ++ [']'])) = e.later ++ typesNames es := by
  have hopening : Opening ['['] := ⟨[], rfl, by simp⟩
  have hquiet : ∀ c ∈ [']'], isQuiet c = true := List.all_eq_true.1 (by decide)
  rw [← List.cons_append, namesIn_quiet hquiet]
  cases h with
  | oneType he => exact (he.namesIn_opening rfl hopening).trans (List.append_nil _).symm
  | moreTypes he hrest =>
    rw [← List.cons_append, namesIn_separator (by decide), hrest.namesIn]
    exact congrArg (· ++ _) (he.namesIn_opening rfl hopening)

theorem typeNames_tuple {e : TypeExpr} {es : List TypeExpr} {text : String} {texts : List String}
    (h : SpellTypes (e :: es) (text :: texts)) :
    typeNames (tupleText (text :: texts)) = Names.ofList (e.later ++ typesNames es) := by
  have hchars : (tupleText (text :: texts)).toList =
      '[' :: ((",".intercalate (text :: texts)).toList ++ [']']) := by
    simp [tupleText]
  rw [typeNames_eq, mentions_eq, hchars, namesIn_tuple h.intercalate]

/-- A tuple names what its elements name, but for the name at the front of the first element. -/
theorem tuple_names {e : TypeExpr} {es : List TypeExpr} {text : String} {texts : List String}
    (h : SpellTypes (e :: es) (text :: texts)) :
    typeNames (tupleText (text :: texts)) = Names.ofList (e.later ++ typesNames es) ∧
    (∀ name, name ∈ unionNames (text :: texts) ↔
      e.leading? = some name ∨ name ∈ typeNames (tupleText (text :: texts))) ∧
    (typeNames (tupleText (text :: texts)) = unionNames (text :: texts) ↔
      ∀ name ∈ e.leading?, (e.later ++ typesNames es).head? = some name) := by
  have hunion : unionNames (text :: texts) =
      Names.ofList (e.leading?.toList ++ (e.later ++ typesNames es)) := by
    have hcons : typesNames (e :: es) = e.names ++ typesNames es := rfl
    rw [h.unionNames, hcons, e.names_eq, List.append_assoc]
  rw [typeNames_tuple h, hunion]
  refine ⟨rfl, fun name => ?_, ?_⟩
  · rw [Names.mem_ofList, Names.mem_ofList, List.mem_append, Option.mem_toList]
  · cases hleading : e.leading? with
    | none => simp
    | some name =>
      rw [eq_comm, Option.toList_some, List.singleton_append, Names.ofList_cons_eq_iff]
      simp

theorem tuple_names_array :
    SpellTypes [.array (.name "Foo"), .name "Bar"] ["Foo[]", "Bar"] ∧
      typeNames (tupleText ["Foo[]", "Bar"]) = Names.ofList ["Bar"] ∧
      "Foo" ∈ unionNames ["Foo[]", "Bar"] := by
  have hspells : SpellTypes [.array (.name "Foo"), .name "Bar"] ["Foo[]", "Bar"] :=
    .cons (@Spells.array _ "Foo".toList [] (.name (by decide)) (by simp [AreBlanks]))
      (.cons (.name (by decide)) .nil)
  exact ⟨hspells, (tuple_names hspells).1, ((tuple_names hspells).2.1 "Foo").2 (.inl rfl)⟩

/-- The first element of a tuple is not named. -/
theorem tuple_head_lost :
    SpellTypes [.name "Foo", .name "Bar"] ["Foo", "Bar"] ∧
      typeNames (tupleText ["Foo", "Bar"]) ≠ unionNames ["Foo", "Bar"] := by
  have hspells : SpellTypes [.name "Foo", .name "Bar"] ["Foo", "Bar"] :=
    .cons (.name (by decide)) (.cons (.name (by decide)) .nil)
  refine ⟨hspells, ?_⟩
  rw [typeNames_tuple hspells, hspells.unionNames]
  exact fun h => absurd (congrArg Names.toList h) (by decide)

end TypeText

end ScreenHooks
