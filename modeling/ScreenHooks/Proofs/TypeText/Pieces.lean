/-
What the pieces of a type text name.

A piece names the identifier that stands after its last colon, behind blanks and type
operators. So whatever ends at a colon, blanks and operators in front, and characters at the
end that go on with no identifier make no difference to a piece, and a whole text names what
its parts between separators name.

* **`pieceName?_eq`** — the name of a piece by its head;
* **`headName?_skip`**, **`headName?_settled`** — the head behind blanks and operators;
* **`pieceNames_separator`** — the names on the two sides of a separator;
* **`pieceNames_front`**, **`pieceNames_quiet`**, **`pieceNames_arrows`** — what makes no
  difference to a text.
-/
import Mathlib.Data.List.TakeWhile
import ScreenHooks.Proofs.Ascii

namespace ScreenHooks.TypeText

open Text

/-! ### Characters -/

/-- A character that neither goes on with an identifier nor divides a piece. -/
def isQuiet (c : Char) : Bool := !isNamePart c && !isSeparator c && c != ':'

section Characters

variable {c : Char}

/-- A class of characters without the ones that mean something in a type text. -/
theorem plain_of_class {p : Char → Bool} (hp : ['<', '>', '|', '&', ',', ';', '(', ')',
      '\x7b', '\x7d', ':', '[', ']', '=', '\'', '"', '\x60'].all (!p ·) = true) (h : p c = true) :
    isSeparator c = false ∧ c ∉ [':', '[', ']', '=', '\'', '"', '\x60'] := by
  have hne : ∀ d : Char, (!p d) = true → c ≠ d := by
    rintro d hd rfl
    rw [h] at hd
    cases hd
  constructor
  · simp only [isSeparator, Bool.or_eq_false_iff, beq_eq_false_iff_ne]
    repeat' constructor
    all_goals exact hne _ (List.all_eq_true.1 hp _ (by simp))
  · intro hmem
    exact hne c (List.all_eq_true.1 hp c (List.mem_append_right ['<', '>', '|', '&', ',', ';', '(',
      ')', '\x7b', '\x7d'] hmem)) rfl

theorem isNamePart_ne (h : isNamePart c = true) :
    isSeparator c = false ∧ c ∉ [':', '[', ']', '=', '\'', '"', '\x60'] :=
  plain_of_class (by decide) h

theorem isBlank_ne (h : isBlank c = true) :
    isSeparator c = false ∧ c ∉ [':', '[', ']', '=', '\'', '"', '\x60'] :=
  plain_of_class (by decide) h

theorem isQuiet_iff :
    isQuiet c = true ↔ isNamePart c = false ∧ isSeparator c = false ∧ c ≠ ':' := by
  simp [isQuiet, and_assoc]

theorem isQuiet_of_isBlank (h : isBlank c = true) : isQuiet c = true := by
  have hne := isBlank_ne h
  exact isQuiet_iff.2 ⟨isBlank_not_part h, hne.1, fun hc => hne.2 (by simp [hc])⟩

end Characters

/-! ### Identifiers -/

/-- Whether a text is an ASCII identifier. -/
def isIdentifier : List Char → Bool
  | [] => false
  | c :: r => isNameStart c && r.all isNamePart

theorem isIdentifier_parts {cs : List Char} (h : isIdentifier cs = true) :
    cs ≠ [] ∧ (∀ c ∈ cs, isNamePart c = true) ∧ ∀ c ∈ cs.head?, isNameStart c = true := by
  cases cs with
  | nil => cases h
  | cons c r =>
    simp only [isIdentifier, Bool.and_eq_true, List.all_eq_true] at h
    refine ⟨by simp, List.forall_mem_cons.2 ⟨isNameStart_part h.1, h.2⟩, fun d hd => ?_⟩
    obtain rfl := Option.some.inj hd
    exact h.1

theorem isIdentifier_operator {word : List Char} (h : String.ofList word ∈ operators) :
    isIdentifier word = true := by
  have hall : ∀ operator ∈ operators, isIdentifier operator.toList = true := by decide
  simpa using hall _ h

theorem operator_parts {word : List Char} (h : String.ofList word ∈ operators) :
    word ≠ [] ∧ (∀ c ∈ word, isNamePart c = true) ∧ ∀ c ∈ word.head?, isNameStart c = true :=
  isIdentifier_parts (isIdentifier_operator h)

theorem takeWhile_part {word rest : List Char} (hword : ∀ c ∈ word, isNamePart c = true)
    (hrest : ∀ c ∈ rest.head?, isNamePart c = false) :
    (word ++ rest).takeWhile isNamePart = word := by
  rw [List.takeWhile_append_of_pos hword]
  cases rest with
  | nil => simp
  | cons c r => rw [List.takeWhile_cons_of_neg (by simp [hrest c rfl]), List.append_nil]

/-! ### Heads -/

/-- The name of an identifier that needs an import. -/
def imported? (name : List Char) : Option String :=
  if isBuiltin (String.ofList name) then none else some (String.ofList name)

/-- The name that stands behind the blanks and operators at the front. -/
def headName? (cs : List Char) : Option String :=
  (leadingName? (dropOperators (trimStart cs))).bind imported?

/-- Blanks, and operators with blanks behind them. -/
inductive Skipped : List Char → Prop where
  | nil : Skipped []
  | blank {c : Char} {r : List Char} (hc : isBlank c = true) (hr : Skipped r) : Skipped (c :: r)
  | operator {word r : List Char} {c : Char} (hword : String.ofList word ∈ operators)
      (hc : isBlank c = true) (hr : Skipped r) : Skipped (word ++ c :: r)

/-- Whether neither a blank nor an operator with a blank behind it stands at the front. -/
def Settled (cs : List Char) : Prop :=
  (∀ c ∈ cs.head?, isBlank c = false) ∧
    ∀ word c r, cs = word ++ c :: r → isBlank c = true → String.ofList word ∉ operators

theorem imported?_operator {word : List Char} (h : String.ofList word ∈ operators) :
    imported? word = none := by
  simp [imported?, isBuiltin, h]

/-- A word is its own leading name, whatever follows it. -/
theorem leadingName?_word {word rest : List Char} (h : isIdentifier word = true)
    (hrest : ∀ c ∈ rest.head?, isNamePart c = false) :
    leadingName? (word ++ rest) = some word := by
  obtain ⟨hne, hword, hstart⟩ := isIdentifier_parts h
  cases word with
  | nil => exact absurd rfl hne
  | cons a r =>
    have hr := takeWhile_part (fun c hc => hword c (List.mem_cons_of_mem _ hc)) hrest
    simp [leadingName?, hstart a rfl, hr]

theorem leadingName?_append {cs : List Char} {c : Char} (h : isNamePart c = false) :
    leadingName? (cs ++ [c]) = leadingName? cs := by
  cases cs with
  | nil =>
    have hstart : isNameStart c = false := by
      apply Bool.eq_false_iff.2
      intro hc
      rw [isNameStart_part hc] at h
      cases h
    simp [leadingName?, hstart]
  | cons a r =>
    have hr : (r ++ [c]).takeWhile isNamePart = r.takeWhile isNamePart := by
      rw [List.takeWhile_append, List.takeWhile_cons_of_neg (by simp [h]), List.append_nil]
      split
      next hall => exact ((List.takeWhile_prefix _).eq_of_length hall).symm
      next => rfl
    simp only [List.cons_append, leadingName?, hr]

theorem dropOperators_operator {word : List Char} {c : Char}
    (hword : String.ofList word ∈ operators) (hc : isBlank c = true) (r : List Char) :
    dropOperators (word ++ c :: r) = dropOperators (trimStart r) := by
  obtain ⟨-, hparts, -⟩ := operator_parts hword
  have hsolid : ∀ d ∈ word, (!isBlank d) = true := by
    intro d hd
    simp [isNamePart_not_blank (hparts d hd)]
  have htake : (word ++ c :: r).takeWhile (!isBlank ·) = word := by
    rw [List.takeWhile_append_of_pos hsolid, List.takeWhile_cons_of_neg (by simp [hc]),
      List.append_nil]
  have hdrop : (word ++ c :: r).dropWhile (!isBlank ·) = c :: r := by
    rw [List.dropWhile_append_of_pos hsolid, List.dropWhile_cons_of_neg (by simp [hc])]
  rw [dropOperators]
  split
  next hnil => rw [hdrop] at hnil; cases hnil
  next b rest heq =>
    rw [hdrop] at heq
    obtain ⟨rfl, rfl⟩ := List.cons.inj heq
    rw [htake, if_pos (List.contains_iff_mem.2 hword)]

theorem dropOperators_settled {cs : List Char} (h : Settled cs) : dropOperators cs = cs := by
  rw [dropOperators]
  split
  · rfl
  next b rest heq =>
    have hcs : cs = cs.takeWhile (!isBlank ·) ++ b :: rest := by
      rw [← heq, List.takeWhile_append_dropWhile]
    have hb : isBlank b = true := by
      have hhead := List.head?_dropWhile_not (!isBlank ·) cs
      rw [heq] at hhead
      simpa using hhead
    rw [if_neg fun hmem => h.2 _ b rest hcs hb (List.contains_iff_mem.1 hmem)]

theorem headName?_skip {skip : List Char} (h : Skipped skip) (cs : List Char) :
    headName? (skip ++ cs) = headName? cs := by
  induction h with
  | nil => rfl
  | blank hc _ ih =>
    rw [List.cons_append, headName?, trimStart, List.dropWhile_cons_of_pos hc]
    exact ih
  | @operator word r c hword hc _ ih =>
    obtain ⟨hne, hparts, -⟩ := operator_parts hword
    obtain ⟨a, more, rfl⟩ := List.exists_cons_of_ne_nil hne
    have hstart : isBlank a = false := isNamePart_not_blank (hparts a List.mem_cons_self)
    have hfront : trimStart ((a :: more) ++ c :: (r ++ cs)) = (a :: more) ++ c :: (r ++ cs) :=
      List.dropWhile_cons_of_neg (by simp [hstart])
    rw [List.append_assoc, @List.cons_append _ c r cs, headName?, hfront,
      dropOperators_operator hword hc]
    exact ih

theorem headName?_settled {cs : List Char} (h : Settled cs) :
    headName? cs = (leadingName? cs).bind imported? := by
  have htrim : trimStart cs = cs := by
    cases cs with
    | nil => rfl
    | cons a r => exact List.dropWhile_cons_of_neg (by simp [h.1 a rfl])
  rw [headName?, htrim, dropOperators_settled h]

theorem settled_nil : Settled [] := ⟨nofun, by simp⟩

theorem headName?_nil : headName? [] = none := headName?_settled settled_nil

theorem exists_skipped (cs : List Char) :
    ∃ skip rest, cs = skip ++ rest ∧ Skipped skip ∧ Settled rest := by
  by_cases hsettled : Settled cs
  · exact ⟨[], cs, rfl, .nil, hsettled⟩
  rcases not_and_or.1 hsettled with hblank | hoperator
  · -- a blank stands in front
    cases cs with
    | nil => exact absurd nofun hblank
    | cons c r =>
      have hc : isBlank c = true := by simpa using hblank
      obtain ⟨skip, rest, rfl, hskip, hrest⟩ := exists_skipped r
      exact ⟨c :: skip, rest, rfl, .blank hc hskip, hrest⟩
  · -- an operator does
    simp only [not_forall, not_not] at hoperator
    obtain ⟨word, c, r, rfl, hc, hword⟩ := hoperator
    obtain ⟨skip, rest, rfl, hskip, hrest⟩ := exists_skipped r
    exact ⟨word ++ c :: skip, rest, by simp, .operator hword hc hskip, hrest⟩
termination_by cs.length
decreasing_by all_goals (subst_vars; simp only [List.length_append, List.length_cons]; omega)

/-- What goes on with no identifier makes no difference at the end. -/
theorem headName?_append {cs : List Char} {c : Char} (h : isNamePart c = false) :
    headName? (cs ++ [c]) = headName? cs := by
  obtain ⟨skip, rest, rfl, hskip, hrest⟩ := exists_skipped cs
  rw [List.append_assoc, headName?_skip hskip, headName?_skip hskip]
  by_cases hsettled : Settled (rest ++ [c])
  · rw [headName?_settled hsettled, headName?_settled hrest, leadingName?_append h]
  rcases not_and_or.1 hsettled with hblank | hoperator
  · -- only the new character can be a blank at the front
    cases rest with
    | nil =>
      have hc : isBlank c = true := by simpa using hblank
      simpa using headName?_skip (.blank hc .nil) []
    | cons a r => exact absurd (fun d hd => hrest.1 d hd) hblank
  · simp only [not_forall, not_not] at hoperator
    obtain ⟨word, b, r, heq, hb, hword⟩ := hoperator
    -- only the new character can be the blank behind an operator
    rcases List.eq_nil_or_concat r with rfl | ⟨r', last, rfl⟩
    · obtain ⟨rfl, hlast⟩ := List.append_inj' heq rfl
      obtain rfl := (List.cons.inj hlast).1
      have hleading : leadingName? (rest ++ []) = some rest :=
        leadingName?_word (isIdentifier_operator hword) (by simp)
      rw [List.append_nil] at hleading
      rw [headName?_settled hrest, hleading, Option.bind_some, imported?_operator hword,
        show rest ++ [c] = (rest ++ c :: []) ++ [] by simp,
        headName?_skip (.operator hword hb .nil), headName?_nil]
    · rw [List.concat_eq_append, ← List.cons_append, ← List.append_assoc] at heq
      obtain ⟨rfl, -⟩ := List.append_inj' heq rfl
      exact absurd hword (hrest.2 word b r' rfl hb)

theorem headName?_quiet {cs quiet : List Char} (h : ∀ c ∈ quiet, isNamePart c = false) :
    headName? (cs ++ quiet) = headName? cs := by
  induction quiet generalizing cs with
  | nil => rw [List.append_nil]
  | cons c r ih =>
    have hsplit : cs ++ c :: r = (cs ++ [c]) ++ r := by simp
    rw [hsplit, ih fun d hd => h d (List.mem_cons_of_mem _ hd),
      headName?_append (h c List.mem_cons_self)]

/-- Nothing stands at the head of a text that starts like no identifier. -/
theorem headName?_mute {c : Char} {r : List Char} (hstart : isNameStart c = false)
    (hblank : isBlank c = false) : headName? (c :: r) = none := by
  have hsettled : Settled (c :: r) := by
    refine ⟨fun d hd => Option.some.inj hd ▸ hblank, fun word b rest heq _ hword => ?_⟩
    obtain ⟨hne, -, hfirst⟩ := operator_parts hword
    obtain ⟨a, more, rfl⟩ := List.exists_cons_of_ne_nil hne
    obtain ⟨rfl, -⟩ := List.cons.inj heq
    rw [hfirst c rfl] at hstart
    cases hstart
  simp [headName?_settled hsettled, leadingName?, hstart]

section Word

variable {word rest : List Char}

/-- A word stands at the front itself if it is no operator or has no blank behind it. -/
theorem settled_word (h : isIdentifier word = true) (hrest : ∀ c ∈ rest.head?, isNamePart c = false)
    (hstay : String.ofList word ∉ operators ∨ ∀ c ∈ rest.head?, isBlank c = false) :
    Settled (word ++ rest) := by
  obtain ⟨hne, hword, -⟩ := isIdentifier_parts h
  refine ⟨fun c hc => ?_, fun operator b r heq hb hoperator => ?_⟩
  · obtain ⟨a, more, rfl⟩ := List.exists_cons_of_ne_nil hne
    exact Option.some.inj hc ▸ isNamePart_not_blank (hword a List.mem_cons_self)
  · -- both words end where the identifier does
    have hblank : ∀ c ∈ (b :: r).head?, isNamePart c = false :=
      fun c hc => Option.some.inj hc ▸ isBlank_not_part hb
    have htake := takeWhile_part hword hrest
    rw [heq, takeWhile_part (operator_parts hoperator).2.1 hblank] at htake
    subst htake
    rw [List.append_cancel_left heq] at hstay
    rcases hstay with hnot | hsolid
    · exact hnot hoperator
    · rw [hsolid b rfl] at hb
      cases hb

/-- A word with no blank and no part of an identifier behind it is the head, operators included. -/
theorem headName?_word (h : isIdentifier word = true)
    (hrest : ∀ c ∈ rest.head?, isNamePart c = false ∧ isBlank c = false) :
    headName? (word ++ rest) = imported? word := by
  have hends : ∀ c ∈ rest.head?, isNamePart c = false := fun c hc => (hrest c hc).1
  have hsettled := settled_word h hends (.inr fun c hc => (hrest c hc).2)
  rw [headName?_settled hsettled, leadingName?_word h hends, Option.bind_some]

end Word

/-- An operator makes no difference where it ends. -/
theorem headName?_operator {word cs : List Char} (hword : String.ofList word ∈ operators)
    (hcs : ∀ c ∈ cs.head?, isNamePart c = false) : headName? (word ++ cs) = headName? cs := by
  have hidentifier := isIdentifier_operator hword
  cases cs with
  | nil => rw [headName?_word hidentifier (by simp), imported?_operator hword, headName?_nil]
  | cons c r =>
    have hc := hcs c rfl
    by_cases hblank : isBlank c = true
    · have hword := headName?_skip (.operator hword hblank .nil) r
      rw [List.append_assoc] at hword
      exact hword.trans (headName?_skip (.blank hblank .nil) r).symm
    have hnot : isBlank c = false := by simpa using hblank
    have hfirst : isNameStart c = false := by
      apply Bool.eq_false_iff.2
      intro hfirst
      rw [isNameStart_part hfirst] at hc
      cases hc
    have hends : ∀ d ∈ (c :: r).head?, isNamePart d = false ∧ isBlank d = false :=
      fun d hd => Option.some.inj hd ▸ ⟨hc, hnot⟩
    rw [headName?_word hidentifier hends, imported?_operator hword, headName?_mute hfirst hnot]

/-! ### One piece -/

theorem afterColon_of_not_mem {cs : List Char} (h : ':' ∉ cs) : afterColon cs = cs := by
  have hall : cs.reverse.takeWhile (· != ':') = cs.reverse := by
    refine List.takeWhile_eq_self_iff.2 fun c hc => ?_
    have hne : c ≠ ':' := fun heq => h (heq ▸ List.mem_reverse.1 hc)
    simpa using hne
  rw [afterColon, hall, List.reverse_reverse]

theorem afterColon_append {c : Char} (h : c ≠ ':') (cs : List Char) :
    afterColon (cs ++ [c]) = afterColon cs ++ [c] := by
  rw [afterColon, List.reverse_append, List.reverse_singleton, List.singleton_append,
    List.takeWhile_cons_of_pos (by simpa using h), List.reverse_cons, afterColon]

theorem afterColon_colon (label cs : List Char) :
    afterColon (label ++ ':' :: cs) = afterColon cs := by
  have hreverse : (label ++ ':' :: cs).reverse = cs.reverse ++ ':' :: label.reverse := by simp
  rw [afterColon, hreverse, List.takeWhile_append]
  split
  next hall =>
    rw [List.takeWhile_cons_of_neg (by simp), List.append_nil, afterColon,
      (List.takeWhile_prefix _).eq_of_length hall]
  next => rw [afterColon]

theorem afterColon_of_mem {cs : List Char} (h : ':' ∈ cs) (front : List Char) :
    afterColon (front ++ cs) = afterColon cs := by
  obtain ⟨label, rest, rfl⟩ := List.append_of_mem h
  rw [← List.append_assoc, afterColon_colon, afterColon_colon]

theorem exists_trim (cs : List Char) :
    ∃ blanks, trimStart cs = trim cs ++ blanks ∧ ∀ c ∈ blanks, isBlank c = true := by
  refine ⟨((trimStart cs).reverse.takeWhile isBlank).reverse, ?_, fun c hc => ?_⟩
  · rw [trim, dropWhileEnd, ← List.reverse_append, List.takeWhile_append_dropWhile,
      List.reverse_reverse]
  · exact List.all_eq_true.1 List.all_takeWhile c (List.mem_reverse.1 hc)

theorem trimStart_idem (cs : List Char) : trimStart (trimStart cs) = trimStart cs := by
  induction cs with
  | nil => rfl
  | cons a r ih =>
    by_cases ha : isBlank a = true
    · rw [trimStart, trimStart, List.dropWhile_cons_of_pos ha]
      exact ih
    · rw [trimStart, trimStart, List.dropWhile_cons_of_neg ha, List.dropWhile_cons_of_neg ha]

theorem headName?_trimStart (cs : List Char) : headName? (trimStart cs) = headName? cs := by
  rw [headName?, trimStart_idem, headName?]

/-- Blanks at the end of a piece make no difference. -/
theorem headName?_trim (cs : List Char) :
    (leadingName? (dropOperators (trim cs))).bind imported? = headName? cs := by
  obtain ⟨blanks, heq, hblanks⟩ := exists_trim cs
  have hfront : trimStart (trim cs) = trim cs := by
    cases htrim : trim cs with
    | nil => rfl
    | cons a r =>
      rw [htrim] at heq
      have ha := trimStart_idem cs
      rw [heq, trimStart, List.cons_append] at ha
      refine List.dropWhile_cons_of_neg fun hblank => ?_
      rw [List.dropWhile_cons_of_pos hblank] at ha
      have hlength := congrArg List.length ha
      have hle := (List.dropWhile_suffix isBlank (l := r ++ blanks)).length_le
      simp only [List.length_cons] at hlength
      omega
  rw [← headName?_trimStart cs, heq,
    headName?_quiet fun c hc => isBlank_not_part (hblanks c hc), headName?, hfront]

/-- A piece names what stands at the head of the text after its last colon. -/
theorem pieceName?_eq (piece : List Char) : pieceName? piece = headName? (afterColon piece) := by
  rw [← headName?_trim, pieceName?]
  cases leadingName? (dropOperators (trim (afterColon piece))) <;> rfl

section Piece

variable {piece : List Char}

theorem pieceName?_colon (label piece : List Char) :
    pieceName? (label ++ ':' :: piece) = pieceName? piece := by
  rw [pieceName?_eq, pieceName?_eq, afterColon_colon]

/-- What makes no difference in front of a head makes none in front of a piece. -/
theorem pieceName?_front {front : List Char} (hcolon : ':' ∉ front)
    (h : headName? (front ++ piece) = headName? piece) :
    pieceName? (front ++ piece) = pieceName? piece := by
  rw [pieceName?_eq, pieceName?_eq]
  by_cases hmem : ':' ∈ piece
  · rw [afterColon_of_mem hmem]
  · rw [afterColon_of_not_mem hmem, afterColon_of_not_mem (by simp [hcolon, hmem]), h]

theorem pieceName?_append {c : Char} (hpart : isNamePart c = false) (hcolon : c ≠ ':') :
    pieceName? (piece ++ [c]) = pieceName? piece := by
  rw [pieceName?_eq, pieceName?_eq, afterColon_append hcolon, headName?_append hpart]

end Piece

/-! ### All pieces -/

/-- The names of the pieces between the separators. -/
def pieceNames (cs : List Char) : List String := (splitBy isSeparator cs).filterMap pieceName?

/-- Whether a text has no separators. -/
def Whole (cs : List Char) : Prop := ∀ c ∈ cs, isSeparator c = false

theorem pieceNames_separator {c : Char} (hc : isSeparator c = true) (s t : List Char) :
    pieceNames (s ++ c :: t) = pieceNames s ++ pieceNames t := by
  rw [pieceNames, splitBy_append _ _ _ _ hc, List.filterMap_append]
  rfl

theorem pieceNames_whole {cs : List Char} (h : Whole cs) :
    pieceNames cs = (pieceName? cs).toList := by
  rw [pieceNames, splitBy_of_none _ _ h]
  cases hname : pieceName? cs <;> simp [hname]

theorem Whole.append {s t : List Char} (hs : Whole s) (ht : Whole t) : Whole (s ++ t) :=
  List.forall_mem_append.2 ⟨hs, ht⟩

/-- A text is one piece, or has a first one. -/
theorem exists_first (cs : List Char) :
    Whole cs ∨ ∃ piece c t, cs = piece ++ c :: t ∧ Whole piece ∧ isSeparator c = true := by
  induction cs with
  | nil => exact .inl (by simp [Whole])
  | cons a r ih =>
    by_cases ha : isSeparator a = true
    · exact .inr ⟨[], a, r, rfl, by simp [Whole], ha⟩
    have ha' : Whole [a] := by simpa [Whole] using ha
    rcases ih with hr | ⟨piece, c, t, rfl, hpiece, hc⟩
    · exact .inl (ha'.append hr)
    · exact .inr ⟨a :: piece, c, t, rfl, ha'.append hpiece, hc⟩

/-- A text is one piece, or has a last one. -/
theorem exists_last (cs : List Char) :
    Whole cs ∨ ∃ s c piece, cs = s ++ c :: piece ∧ Whole piece ∧ isSeparator c = true := by
  induction cs with
  | nil => exact .inl (by simp [Whole])
  | cons a r ih =>
    rcases ih with hr | ⟨s, c, piece, rfl, hpiece, hc⟩
    · by_cases ha : isSeparator a = true
      · exact .inr ⟨[], a, r, rfl, hr, ha⟩
      · exact .inl (List.forall_mem_cons.2 ⟨by simpa using ha, hr⟩)
    · exact .inr ⟨a :: s, c, piece, rfl, hpiece, hc⟩

/-- What makes no difference in front of the first piece makes none in front of the text. -/
theorem pieceNames_front {front cs : List Char} (hfront : Whole front)
    (h : ∀ piece, (piece.head? = cs.head? ∨ piece = []) →
      pieceName? (front ++ piece) = pieceName? piece) :
    pieceNames (front ++ cs) = pieceNames cs := by
  rcases exists_first cs with hcs | ⟨piece, c, t, rfl, hpiece, hc⟩
  · rw [pieceNames_whole (hfront.append hcs), pieceNames_whole hcs, h cs (.inl rfl)]
  · have hhead : piece.head? = (piece ++ c :: t).head? ∨ piece = [] := by
      cases piece <;> simp
    rw [← List.append_assoc, pieceNames_separator hc, pieceNames_separator hc,
      pieceNames_whole (hfront.append hpiece), pieceNames_whole hpiece, h piece hhead]

theorem pieceNames_quiet {c : Char} (h : isQuiet c = true) (cs : List Char) :
    pieceNames (cs ++ [c]) = pieceNames cs := by
  obtain ⟨hpart, hseparator, hcolon⟩ := isQuiet_iff.1 h
  have hc : Whole [c] := by simpa [Whole] using hseparator
  rcases exists_last cs with hcs | ⟨s, d, piece, rfl, hpiece, hd⟩
  · rw [pieceNames_whole (hcs.append hc), pieceNames_whole hcs, pieceName?_append hpart hcolon]
  · have hsplit : s ++ d :: piece ++ [c] = s ++ d :: (piece ++ [c]) := by simp
    rw [hsplit, pieceNames_separator hd, pieceNames_separator hd,
      pieceNames_whole (hpiece.append hc), pieceNames_whole hpiece,
      pieceName?_append hpart hcolon]

/-- An arrow ends in a separator, and the character before makes no difference. -/
theorem pieceNames_arrows {front : List Char} (hfront : Whole front) (cs : List Char) :
    pieceNames (front ++ replaceFrom ['=', '>'] ['|'] 0 cs) = pieceNames (front ++ cs) := by
  have hnil : Whole [] := by simp [Whole]
  have hone : ∀ c, ¬ isSeparator c = true → Whole [c] := fun c hc => by simpa [Whole] using hc
  induction hlength : cs.length using Nat.strongRecOn generalizing front cs with
  | ind n ih =>
    subst hlength
    cases cs with
    | nil => rfl
    | cons c r =>
      -- an arrow takes two characters, the front starts anew behind it
      by_cases harrow : ['=', '>'].isPrefixOf (c :: r) = true
      · obtain ⟨rest, hrest⟩ := List.isPrefixOf_iff_prefix.1 harrow
        have hcs : c :: r = '=' :: '>' :: rest := hrest.symm
        have hreplace : replaceFrom ['=', '>'] ['|'] 0 ('=' :: '>' :: rest) =
            '|' :: replaceFrom ['=', '>'] ['|'] 0 rest := by
          simp [replaceFrom, List.isPrefixOf]
        have hsplit : front ++ '=' :: '>' :: rest = (front ++ ['=']) ++ '>' :: rest := by simp
        have hmore := ih rest.length (by rw [hcs, List.length_cons, List.length_cons]; omega)
          hnil rest rfl
        rw [List.nil_append, List.nil_append] at hmore
        rw [hcs, hreplace, hsplit, pieceNames_separator (by decide),
          pieceNames_separator (by decide), pieceNames_quiet (by decide), hmore]
      have hreplace : replaceFrom ['=', '>'] ['|'] 0 (c :: r) =
          c :: replaceFrom ['=', '>'] ['|'] 0 r := by
        rw [replaceFrom, if_neg harrow]
      rw [hreplace]
      by_cases hc : isSeparator c = true
      · have hmore := ih r.length (by simp) hnil r rfl
        rw [List.nil_append, List.nil_append] at hmore
        rw [pieceNames_separator hc, pieceNames_separator hc, hmore]
      · have hmore := ih r.length (by simp) (hfront.append (hone c hc)) r rfl
        simpa using hmore

end ScreenHooks.TypeText
