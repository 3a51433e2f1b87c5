/-
The words at the heads of the pieces, and string literals.

The names of a text are the words at the heads of its pieces, without the keywords and ambient
types. A piece is cut out of the text wherever a separator or a colon stands, inside a string
literal too. Where no word goes on behind the brackets of an array, a name stands outside the
literals if its head does, and so do all names where no literal is cut; and the reserved words
among the names are those at a head that are no keyword types or operators.

* **`mem_typeNames_iff`** — the names of a text are the words at its heads;
* **`outside_iff`**, **`Uncut.none_inside`** — where the names stand;
* **`typeNames_importable`** — the names of a text with string literals.
-/
import Mathlib.Data.List.Chain
import ScreenHooks.Naming
import ScreenHooks.Proofs.TypeText.Expressions

namespace ScreenHooks.TypeText

open Text

/-! ### Pieces of a text -/

/-- What stands between separators is one of the pieces. -/
theorem mem_pieceNames {name : String} {before piece after : List Char}
    (hbefore : ∀ c ∈ before.getLast?, isSeparator c = true)
    (hpiece : Whole piece) (hafter : ∀ c ∈ after.head?, isSeparator c = true)
    (hname : pieceName? piece = some name) :
    name ∈ pieceNames (before ++ (piece ++ after)) := by
  have hfirst : name ∈ pieceNames (piece ++ after) := by
    cases after with
    | nil => simp [pieceNames_whole hpiece, hname]
    | cons c r =>
      simp [pieceNames_separator (hafter c rfl), pieceNames_whole hpiece, hname]
  rcases List.eq_nil_or_concat before with rfl | ⟨s, c, rfl⟩
  · exact hfirst
  · have hc : isSeparator c = true := hbefore c (by simp)
    rw [List.concat_eq_append, List.append_assoc, List.singleton_append, pieceNames_separator hc]
    exact List.mem_append_right _ hfirst

theorem exists_piece {name : String} {cs : List Char} (h : name ∈ pieceNames cs) :
    ∃ before piece after, cs = before ++ (piece ++ after) ∧
      (∀ c ∈ before.getLast?, isSeparator c = true) ∧ Whole piece ∧
      (∀ c ∈ after.head?, isSeparator c = true) ∧ pieceName? piece = some name := by
  rcases exists_first cs with hcs | ⟨piece, c, t, rfl, hpiece, hc⟩
  · rw [pieceNames_whole hcs, Option.mem_toList] at h
    exact ⟨[], cs, [], by simp, by simp, hcs, by simp, h⟩
  rw [pieceNames_separator hc, pieceNames_whole hpiece, List.mem_append, Option.mem_toList] at h
  -- it is the first piece, or one behind the first separator
  rcases h with h | h
  · exact ⟨[], piece, c :: t, rfl, by simp, hpiece, by simpa using hc, h⟩
  · obtain ⟨before, piece', after, rfl, hbefore, hrest⟩ := exists_piece h
    refine ⟨piece ++ c :: before, piece', after, by simp, fun d hd => ?_, hrest⟩
    rw [List.getLast?_append, List.getLast?_cons] at hd
    cases hlast : before.getLast? with
    | none => simp_all
    | some e => exact hbefore d (by simp_all)
termination_by cs.length
decreasing_by subst_vars; simp only [List.length_append, List.length_cons]; omega

/-! ### Heads -/

/-- A word at the head of a piece: behind a separator, a colon or nothing, with blanks and
operators between, and with no colon in the rest of the piece. -/
structure HeadAt (cs before skip word rest after : List Char) : Prop where
  text : cs = before ++ (skip ++ (word ++ (rest ++ after)))
  begins : ∀ c ∈ before.getLast?, isSeparator c = true ∨ c = ':'
  skipped : Skipped skip
  identifier : isIdentifier word = true
  ends : ∀ c ∈ rest.head?, isNamePart c = false
  whole : Whole rest
  unlabelled : ':' ∉ rest
  closes : ∀ c ∈ after.head?, isSeparator c = true

/-- Whether a word is at the head of a piece of a text without its array brackets. -/
def Heads (name text : String) : Prop :=
  ∃ before skip rest after,
    HeadAt (withoutArrays text.toList) before skip name.toList rest after

/-- Blanks, operators and a word behind them consist of plain characters. -/
theorem Skipped.plain {skip word : List Char} (h : Skipped skip)
    (hword : isIdentifier word = true) :
    ∀ c ∈ skip ++ word, isSeparator c = false ∧ c ∉ [':', '[', ']', '=', '\'', '"', '\x60'] := by
  induction h with
  | nil => exact fun c hc => isNamePart_ne ((isIdentifier_parts hword).2.1 c hc)
  | blank hc _ ih => exact List.forall_mem_cons.2 ⟨isBlank_ne hc, ih⟩
  | operator hoperator hc _ ih =>
    obtain ⟨-, hparts, -⟩ := operator_parts hoperator
    rw [List.append_assoc, List.cons_append]
    exact List.forall_mem_append.2
      ⟨fun c hc => isNamePart_ne (hparts c hc), List.forall_mem_cons.2 ⟨isBlank_ne hc, ih⟩⟩

theorem leadingName?_eq_some {cs word : List Char} (h : leadingName? cs = some word) :
    isIdentifier word = true ∧ ∃ after, cs = word ++ after ∧
      ∀ c ∈ after.head?, isNamePart c = false := by
  cases cs with
  | nil => cases h
  | cons c r =>
    simp only [leadingName?] at h
    split at h
    next hstart =>
      cases h
      refine ⟨by simp [isIdentifier, hstart], r.dropWhile isNamePart, ?_, fun d hd => ?_⟩
      · rw [List.cons_append, List.takeWhile_append_dropWhile]
      · have hhead := List.head?_dropWhile_not isNamePart r
        rw [Option.mem_def.1 hd] at hhead
        simpa using hhead
    next => cases h

theorem imported?_eq_some {word : List Char} {name : String} (h : imported? word = some name) :
    name.toList = word ∧ isBuiltin name = false := by
  rw [imported?] at h
  split at h
  · cases h
  next hbuiltin =>
    cases h
    exact ⟨String.toList_ofList, by simpa using hbuiltin⟩

/-- A piece in the text after its last colon. -/
theorem exists_afterColon (piece : List Char) :
    ∃ label, piece = label ++ afterColon piece ∧ (∀ c ∈ label.getLast?, c = ':') ∧
      ':' ∉ afterColon piece := by
  refine ⟨(piece.reverse.dropWhile (· != ':')).reverse, ?_, fun c hc => ?_, fun hmem => ?_⟩
  · rw [afterColon, ← List.reverse_append, List.takeWhile_append_dropWhile, List.reverse_reverse]
  · have hhead := List.head?_dropWhile_not (· != ':') piece.reverse
    rw [List.getLast?_reverse] at hc
    rw [Option.mem_def.1 hc] at hhead
    simpa using hhead
  · have hall := List.all_eq_true.1 (List.all_takeWhile (p := (· != ':'))) _
      (List.mem_reverse.1 hmem)
    simp at hall

section HeadAt

variable {cs before skip rest after : List Char} {name : String}

/-- The word at the head of a piece, if it needs an import. -/
theorem headName?_head (hskip : Skipped skip) (hname : isIdentifier name.toList = true)
    (hrest : ∀ c ∈ rest.head?, isNamePart c = false) (hbuiltin : isBuiltin name = false) :
    headName? (skip ++ (name.toList ++ rest)) = some name := by
  have hoperator : String.ofList name.toList ∉ operators := by
    intro hmem
    simp_all [isBuiltin]
  rw [headName?_skip hskip, headName?_settled (settled_word hname hrest (.inl hoperator)),
    leadingName?_word hname hrest, Option.bind_some]
  simp [imported?, hbuiltin]

/-- A word at a head that needs an import is one of the names. -/
theorem HeadAt.mem (h : HeadAt cs before skip name.toList rest after)
    (hbuiltin : isBuiltin name = false) : name ∈ pieceNames cs := by
  obtain ⟨rfl, hbegins, hskip, hname, hrest, hwhole, hcolon, hafter⟩ := h
  have hplain := hskip.plain hname
  set body := skip ++ (name.toList ++ rest) with hbody
  have hsplit : body = (skip ++ name.toList) ++ rest := by simp [hbody]
  have hbodyWhole : Whole body := by
    rw [hsplit]
    exact Whole.append (fun c hc => (hplain c hc).1) hwhole
  have hbodyName : pieceName? body = some name := by
    have hnone : ':' ∉ body := by
      rw [hsplit, List.mem_append, not_or]
      exact ⟨fun hmem => (hplain ':' hmem).2 (by simp), hcolon⟩
    rw [pieceName?_eq, afterColon_of_not_mem hnone]
    exact headName?_head hskip hname hrest hbuiltin
  have htext : skip ++ (name.toList ++ (rest ++ after)) = body ++ after := by simp [hbody]
  rw [htext]
  -- the piece starts behind the last separator, and what is between is a label
  obtain ⟨s, label, rfl, hs, hlabel⟩ : ∃ s label, before = s ++ label ∧
      (∀ c ∈ s.getLast?, isSeparator c = true) ∧ Whole label := by
    rcases exists_last before with hwhole | ⟨s, c, label, rfl, hlabel, hc⟩
    · exact ⟨[], before, rfl, by simp, hwhole⟩
    · exact ⟨s ++ [c], label, by simp, by simpa using hc, hlabel⟩
  have hpiece : pieceName? (label ++ body) = some name := by
    rcases List.eq_nil_or_concat label with rfl | ⟨front, c, rfl⟩
    · exact hbodyName
    · rcases hbegins c (by simp) with hc | rfl
      · rw [hlabel c (by simp)] at hc
        cases hc
      · rw [List.concat_eq_append, List.append_assoc, List.singleton_append, pieceName?_colon,
          hbodyName]
  rw [List.append_assoc, ← List.append_assoc label]
  exact mem_pieceNames hs (hlabel.append hbodyWhole) hafter hpiece

theorem exists_headAt (h : name ∈ pieceNames cs) :
    isBuiltin name = false ∧
      ∃ before skip rest after, HeadAt cs before skip name.toList rest after := by
  obtain ⟨before, piece, after, rfl, hbefore, hpiece, hafter, hname⟩ := exists_piece h
  obtain ⟨label, htext, hlabel, hcolon⟩ := exists_afterColon piece
  rw [pieceName?_eq] at hname
  set body := afterColon piece
  obtain ⟨skip, settled, hbody, hskip, hsettled⟩ := exists_skipped body
  rw [hbody, headName?_skip hskip, headName?_settled hsettled] at hname
  obtain ⟨word, hword, hname⟩ := Option.bind_eq_some_iff.1 hname
  obtain ⟨rfl, hbuiltin⟩ := imported?_eq_some hname
  obtain ⟨hidentifier, rest, rfl, hrest⟩ := leadingName?_eq_some hword
  have hin : ∀ c ∈ rest, c ∈ body := by simp_all
  refine ⟨hbuiltin, before ++ label, skip, rest, after, ?_, fun c hc => ?_, hskip, hidentifier,
    hrest, fun c hc => hpiece c ?_, fun hmem => hcolon (hin _ hmem), hafter⟩
  · rw [htext, hbody]
    simp
  · rw [List.getLast?_append] at hc
    cases hlast : label.getLast? with
    | none => exact .inl (hbefore c (by simpa [hlast] using hc))
    | some d => exact .inr (hlabel c (by simpa [hlast] using hc))
  · rw [htext]
    exact List.mem_append_right _ (hin c hc)

end HeadAt

/-- The names of a text are the words at its heads that need an import. -/
theorem mem_typeNames_iff (name text : String) :
    name ∈ typeNames text ↔ Heads name text ∧ isBuiltin name = false := by
  rw [typeNames_eq, Names.mem_ofList, mentions_eq, namesIn]
  constructor
  · intro h
    obtain ⟨hname, hhead⟩ := exists_headAt h
    exact ⟨hhead, hname⟩
  · rintro ⟨⟨before, skip, rest, after, hhead⟩, hname⟩
    exact hhead.mem hname

/-! ### Texts with string literals -/

/-- A part of a text: a string literal with its quotes, or what stands outside of literals. -/
inductive Chunk where
  | code (cs : List Char)
  | literal (quote : Char) (hquote : quote ∈ quotes) (body : List Char)

/-- A character of a text, and whether it belongs to a string literal. -/
structure Letter where
  char : Char
  quoted : Bool
  deriving DecidableEq, Repr

/-- The characters of a part. -/
def Chunk.letters : Chunk → List Letter
  | code cs => cs.map (⟨·, false⟩)
  | literal quote _ body => (quote :: (body ++ [quote])).map (⟨·, true⟩)

/-- The characters of a text in parts. -/
def letters (chunks : List Chunk) : List Letter := chunks.flatMap Chunk.letters

/-- The text of some parts. -/
def written (chunks : List Chunk) : String := String.ofList ((letters chunks).map Letter.char)

theorem toList_written (chunks : List Chunk) :
    (written chunks).toList = (letters chunks).map Letter.char := String.toList_ofList

/-- Whether a word occurs in a text outside all literals. -/
def Outside (name : String) (chunks : List Chunk) : Prop :=
  name.toList.map (⟨·, false⟩) <:+: letters chunks

/-- Whether no literal has a separator or a colon in it. -/
def Uncut (chunks : List Chunk) : Prop :=
  ∀ m ∈ letters chunks, m.quoted = true → isSeparator m.char = false ∧ m.char ≠ ':'

/-- Whether no word goes on right behind the brackets of an array. -/
def Apart : List Letter → Prop
  | a :: b :: m :: r =>
    (a.char = '[' → b.char = ']' → m.quoted = false → isNamePart m.char = false) ∧
      Apart (b :: m :: r)
  | _ => True

instance (chunks : List Chunk) : Decidable (Uncut chunks) :=
  inferInstanceAs (Decidable (∀ m ∈ letters chunks, _))

instance decidableApart : DecidablePred Apart
  | _ :: b :: m :: r =>
    have := decidableApart (b :: m :: r)
    inferInstanceAs (Decidable (_ ∧ Apart (b :: m :: r)))
  | [] | [_] | [_, _] => isTrue trivial

/-- The characters of a text without its empty pairs of brackets. -/
def stripArrays : List Letter → List Letter
  | ⟨'[', _⟩ :: ⟨']', _⟩ :: r => stripArrays r
  | m :: r => m :: stripArrays r
  | [] => []

theorem stripArrays_cons {m : Letter} {r : List Letter}
    (h : m.char = '[' → (r.map Letter.char).head? ≠ some ']') :
    stripArrays (m :: r) = m :: stripArrays r := by
  rw [stripArrays]
  rintro i j rest rfl rfl
  exact h rfl rfl

/-- Letters are read like the characters they hold, pair by pair and one by one elsewhere. -/
theorem stripArrays_induction {motive : List Letter → Prop} (nil : motive [])
    (pair : ∀ i j r, motive r → motive (⟨'[', i⟩ :: ⟨']', j⟩ :: r))
    (letter : ∀ m r, (m.char = '[' → (r.map Letter.char).head? ≠ some ']') → motive r →
      motive (m :: r)) (ms : List Letter) : motive ms := by
  induction ms using stripArrays.induct with
  | case1 i j r ih => exact pair i j r ih
  | case2 m r hne ih =>
    refine letter m r ?_ ih
    intro hopen hclose
    cases r with
    | nil => cases hclose
    | cons b r => exact hne m.quoted b.quoted r (by rw [← hopen]) (by
        rw [← Option.some.inj hclose])
  | case3 => exact nil

theorem map_stripArrays (ms : List Letter) :
    (stripArrays ms).map Letter.char = withoutArrays (ms.map Letter.char) := by
  induction ms using stripArrays_induction with
  | nil => rfl
  | pair i j r ih => exact ih
  | letter m r hne ih =>
    rw [stripArrays_cons hne, List.map_cons, List.map_cons, ih, withoutArrays_cons hne]

theorem mem_stripArrays {ms : List Letter} {m : Letter} (h : m ∈ stripArrays ms) : m ∈ ms := by
  induction ms using stripArrays_induction with
  | nil => exact h
  | pair i j r ih => exact List.mem_cons_of_mem _ (List.mem_cons_of_mem _ (ih h))
  | letter a r hne ih =>
    rw [stripArrays_cons hne] at h
    exact (List.mem_cons.1 h).elim (fun heq => heq ▸ List.mem_cons_self)
      fun hr => List.mem_cons_of_mem _ (ih hr)

/-! ### Where literals start -/

/-- Behind a character outside of literals, a literal starts with a quote. -/
def Opens (a b : Letter) : Prop := a.quoted = false → b.quoted = true → b.char ∈ quotes

theorem Chunk.opens (chunk : Chunk) {ms : List Letter} (h : ∀ a, List.IsChain Opens (a :: ms))
    (a : Letter) : List.IsChain Opens (a :: (chunk.letters ++ ms)) := by
  have hquoted : ∀ (cs : List Char) (a : Letter), a.quoted = true →
      List.IsChain Opens (a :: (cs.map (⟨·, true⟩) ++ ms)) := by
    intro cs
    induction cs with
    | nil => exact fun a _ => h a
    | cons c r ih =>
      refine fun a ha => List.isChain_cons_cons.2 ⟨fun hnot => ?_, ih _ rfl⟩
      rw [ha] at hnot
      cases hnot
  cases chunk with
  | code cs =>
    induction cs generalizing a with
    | nil => exact h a
    | cons c r ih => exact List.isChain_cons_cons.2 ⟨nofun, ih ⟨c, false⟩⟩
  | literal quote hquote body =>
    exact List.isChain_cons_cons.2 ⟨fun _ _ => hquote, hquoted _ _ rfl⟩

theorem opens_letters (chunks : List Chunk) (a : Letter) :
    List.IsChain Opens (a :: letters chunks) := by
  induction chunks generalizing a with
  | nil => exact List.isChain_singleton a
  | cons chunk rest ih => exact chunk.opens ih a

theorem opens_stripArrays {ms : List Letter} (a : Letter) (h : List.IsChain Opens (a :: ms)) :
    List.IsChain Opens (a :: stripArrays ms) := by
  induction ms using stripArrays_induction generalizing a with
  | nil => exact h
  | pair i j r ih =>
    obtain ⟨hopen, hrest⟩ := List.isChain_cons_cons.1 h
    obtain ⟨hclose, hrest⟩ := List.isChain_cons_cons.1 hrest
    have hbrackets : '[' ∉ quotes ∧ ']' ∉ quotes := by decide
    refine (ih _ hrest).imp_head fun hm ha => hm (Bool.eq_false_iff.2 fun hj => ?_)
    have hi : i = false := Bool.eq_false_iff.2 fun hi => hbrackets.1 (hopen ha hi)
    exact hbrackets.2 (hclose hi hj)
  | letter m r hne ih =>
    rw [stripArrays_cons hne]
    obtain ⟨hm, hrest⟩ := List.isChain_cons_cons.1 h
    exact List.isChain_cons_cons.2 ⟨hm, ih m hrest⟩

/-- Without a quote nothing is in a literal. -/
theorem unquoted_of_opens {ms : List Letter} {a : Letter} (h : List.IsChain Opens (a :: ms))
    (ha : a.quoted = false) (hms : ∀ m ∈ ms, m.char ∉ quotes) : ∀ m ∈ ms, m.quoted = false := by
  induction ms generalizing a with
  | nil => simp
  | cons m r ih =>
    obtain ⟨hm, hrest⟩ := List.isChain_cons_cons.1 h
    have hfirst : m.quoted = false :=
      Bool.eq_false_iff.2 fun hquoted => hms m List.mem_cons_self (hm ha hquoted)
    exact List.forall_mem_cons.2
      ⟨hfirst, ih hrest hfirst fun m hm => hms m (List.mem_cons_of_mem _ hm)⟩

/-! ### Words -/

theorem Apart.tail {a : Letter} {r : List Letter} (h : Apart (a :: r)) : Apart r :=
  match r, h with
  | _ :: _ :: _, h => h.2
  | [], _ | [_], _ => trivial

/-- What is left behind the brackets of an array goes on with no word. -/
theorem Apart.behind {a b m : Letter} {r v : List Letter} (h : Apart (a :: b :: r))
    (ha : a.char = '[') (hb : b.char = ']') (hr : stripArrays r = m :: v) (hm : m.quoted = false) :
    isNamePart m.char = false := by
  induction r using stripArrays_induction generalizing a b with
  | nil => cases hr
  | pair i j r ih => exact ih h.tail.tail rfl rfl hr
  | letter c r hne ih =>
    rw [stripArrays_cons hne] at hr
    obtain ⟨rfl, -⟩ := List.cons.inj hr
    exact h.1 ha hb hm

/-- What is left starts with the first character, or with what a pair of brackets leaves. -/
theorem stripArrays_eq_cons {ms v : List Letter} {m : Letter} (h : stripArrays ms = m :: v) :
    (∃ r, ms = m :: r ∧ stripArrays r = v) ∨
      ∃ a b r, ms = a :: b :: r ∧ a.char = '[' ∧ b.char = ']' ∧ stripArrays r = m :: v := by
  induction ms using stripArrays_induction with
  | nil => cases h
  | pair i j r _ => exact .inr ⟨_, _, r, rfl, rfl, rfl, h⟩
  | letter c r hne _ =>
    rw [stripArrays_cons hne] at h
    obtain ⟨rfl, rfl⟩ := List.cons.inj h
    exact .inl ⟨r, rfl, rfl⟩

/-- A word goes on as it is written. -/
theorem Apart.starts {word ms v : List Letter} (h : Apart ms)
    (hword : ∀ m ∈ word, m.quoted = false ∧ isNamePart m.char = true)
    (hms : stripArrays ms = word ++ v) : word <+: ms := by
  induction word generalizing ms with
  | nil => exact List.nil_prefix
  | cons m more ih =>
    obtain ⟨hm, hmore⟩ := List.forall_mem_cons.1 hword
    rcases stripArrays_eq_cons hms with ⟨r, rfl, hr⟩ | ⟨a, b, r, rfl, ha, hb, hr⟩
    · exact List.cons_prefix_cons.2 ⟨rfl, ih h.tail hmore hr⟩
    · -- the word would go on right behind the brackets
      rw [h.behind ha hb hr hm.1] at hm
      cases hm.2

/-- A word outside of literals is written without gaps. -/
theorem Apart.word {u word v ms : List Letter} (h : Apart ms)
    (hword : ∀ m ∈ word, m.quoted = false ∧ isNamePart m.char = true)
    (hms : stripArrays ms = u ++ (word ++ v)) : word <:+: ms := by
  induction ms using stripArrays_induction generalizing u with
  | nil =>
    have hnil : word = [] := by
      have hboth := (List.append_eq_nil_iff.1 hms.symm).2
      exact (List.append_eq_nil_iff.1 hboth).1
    exact hnil ▸ List.infix_rfl
  | pair i j r ih =>
    have hrest : r <:+: ⟨'[', i⟩ :: ⟨']', j⟩ :: r :=
      ((List.suffix_cons _ r).trans (List.suffix_cons _ _)).isInfix
    exact (ih h.tail.tail hms).trans hrest
  | letter c r hne ih =>
    cases u with
    | nil => exact (h.starts hword hms).isInfix
    | cons d u =>
      have hrest : r <:+: c :: r := (List.suffix_cons c r).isInfix
      rw [stripArrays_cons hne] at hms
      exact (ih h.tail (List.cons.inj hms).2).trans hrest

/-! ### Names outside of literals -/

/-- The head of a piece in a text with literals, and the first letter of its word. -/
structure LetterHead (chunks : List Chunk) (front skip word last : List Letter) (m : Letter) :
    Prop where
  text : stripArrays (letters chunks) = front ++ (skip ++ (m :: word ++ last))
  head : ∃ rest after, HeadAt ((stripArrays (letters chunks)).map Letter.char)
    (front.map Letter.char) (skip.map Letter.char) ((m :: word).map Letter.char) rest after

/-- Whether a word is at the head of a piece that starts inside a literal. -/
def HeadsInside (name : String) (chunks : List Chunk) : Prop :=
  ∃ front skip word last m, LetterHead chunks front skip word last m ∧
    (m :: word).map Letter.char = name.toList ∧ m.quoted = true

/-- The letters of a head. -/
theorem exists_letterHead {name : String} {chunks : List Chunk} (h : Heads name (written chunks)) :
    ∃ front skip word last m, LetterHead chunks front skip word last m ∧
      (m :: word).map Letter.char = name.toList := by
  obtain ⟨before, skip, rest, after, hhead⟩ := h
  rw [toList_written, ← map_stripArrays] at hhead
  obtain ⟨front, back, htext, rfl, hback⟩ := List.map_eq_append_iff.1 hhead.text
  obtain ⟨skipped, behind, rfl, rfl, hbehind⟩ := List.map_eq_append_iff.1 hback
  obtain ⟨named, last, rfl, hnamed, -⟩ := List.map_eq_append_iff.1 hbehind
  obtain ⟨hne, -, -⟩ := isIdentifier_parts hhead.identifier
  cases named with
  | nil => exact absurd hnamed.symm hne
  | cons m word =>
    exact ⟨front, skipped, word, last, m, ⟨htext, rest, after, hnamed ▸ hhead⟩, hnamed⟩

theorem eq_map_of_unquoted {ms : List Letter} (h : ∀ m ∈ ms, m.quoted = false) :
    (ms.map Letter.char).map (⟨·, false⟩) = ms := by
  rw [List.map_map]
  refine (List.map_congr_left fun m hm => ?_).trans (List.map_id ms)
  show Letter.mk m.char false = m
  rw [← h m hm]

section LetterHead

variable {chunks : List Chunk} {front skip word last : List Letter} {m : Letter}

theorem LetterHead.word_parts (h : LetterHead chunks front skip word last m) :
    ∀ a ∈ m :: word, isNamePart a.char = true := by
  obtain ⟨rest, after, hhead⟩ := h.head
  exact fun a ha => (isIdentifier_parts hhead.identifier).2.1 _ (List.mem_map_of_mem ha)

theorem LetterHead.opens (h : LetterHead chunks front skip word last m) (a : Letter) :
    List.IsChain Opens (a :: (front ++ (skip ++ (m :: word ++ last)))) := by
  have hopens := opens_stripArrays a (opens_letters chunks a)
  rwa [h.text] at hopens

/-- A word that starts outside of literals stands outside of them. -/
theorem LetterHead.outside (h : LetterHead chunks front skip word last m)
    (hapart : Apart (letters chunks)) (hm : m.quoted = false) {name : String}
    (hname : (m :: word).map Letter.char = name.toList) : Outside name chunks := by
  have hplain : ∀ a ∈ word, a.char ∉ quotes := fun a ha hquote =>
    (isNamePart_ne (h.word_parts a (List.mem_cons_of_mem _ ha))).2
      (List.mem_append_right [':', '[', ']', '='] hquote)
  have hword : List.IsChain Opens ((m :: word) ++ last) :=
    (h.opens m).tail.right_of_append.right_of_append
  have hunquoted : ∀ a ∈ m :: word, a.quoted = false :=
    List.forall_mem_cons.2 ⟨hm, unquoted_of_opens hword.left_of_append hm hplain⟩
  have htext : stripArrays (letters chunks) = (front ++ skip) ++ ((m :: word) ++ last) := by
    rw [h.text, List.append_assoc]
  have hinfix := hapart.word (fun a ha => ⟨hunquoted a ha, h.word_parts a ha⟩) htext
  rwa [← eq_map_of_unquoted hunquoted, hname] at hinfix

/-- Where no literal is cut, the head of a piece is outside of literals. -/
theorem Uncut.unquoted (huncut : Uncut chunks) (h : LetterHead chunks front skip word last m) :
    m.quoted = false := by
  obtain ⟨rest, after, hhead⟩ := h.head
  have hopens := h.opens ⟨' ', false⟩
  -- the piece starts at a character that is outside of literals
  obtain ⟨a, ha, hbody⟩ : ∃ a : Letter, a.quoted = false ∧
      List.IsChain Opens (a :: (skip ++ (m :: word ++ last))) := by
    rcases List.eq_nil_or_concat front with rfl | ⟨more, b, rfl⟩
    · exact ⟨_, rfl, hopens⟩
    have hb : b ∈ letters chunks := mem_stripArrays (by simp [h.text])
    have hrest : List.IsChain Opens (more ++ b :: (skip ++ (m :: word ++ last))) := by
      simpa using hopens.tail
    refine ⟨b, Bool.eq_false_iff.2 fun hquoted => ?_, hrest.right_of_append⟩
    obtain ⟨hseparator, hcolon⟩ := huncut b hb hquoted
    rcases hhead.begins b.char (by simp) with hc | hc
    · rw [hseparator] at hc
      cases hc
    · exact hcolon hc
  -- up to the word there is no quote that could start a literal
  have hplain : ∀ b ∈ skip ++ [m], b.char ∉ quotes := fun b hb hquote => by
    have hmem : b ∈ skip ++ m :: word := by
      rw [List.append_cons]
      exact List.mem_append_left word hb
    have hchar : b.char ∈ skip.map Letter.char ++ (m :: word).map Letter.char := by
      rw [← List.map_append]
      exact List.mem_map_of_mem hmem
    obtain ⟨-, hne⟩ := hhead.skipped.plain hhead.identifier b.char hchar
    exact hne (List.mem_append_right [':', '[', ']', '='] hquote)
  have hfront : List.IsChain Opens ((a :: (skip ++ [m])) ++ (word ++ last)) := by
    simpa using hbody
  exact unquoted_of_opens hfront.left_of_append ha hplain m (by simp)

end LetterHead

/-- The names stand outside of literals exactly if those do that are read inside of literals. -/
theorem outside_iff {chunks : List Chunk} (hapart : Apart (letters chunks)) :
    (∀ name ∈ typeNames (written chunks), Outside name chunks) ↔
      ∀ name, HeadsInside name chunks → isBuiltin name = false → Outside name chunks := by
  constructor
  · rintro h name ⟨front, skip, word, last, m, hhead, hname, -⟩ hbuiltin
    obtain ⟨rest, after, hat⟩ := hhead.head
    rw [map_stripArrays, ← toList_written, hname] at hat
    exact h name ((mem_typeNames_iff _ _).2 ⟨⟨_, _, rest, after, hat⟩, hbuiltin⟩)
  · intro h name hmem
    obtain ⟨hheads, hbuiltin⟩ := (mem_typeNames_iff _ _).1 hmem
    obtain ⟨front, skip, word, last, m, hhead, hname⟩ := exists_letterHead hheads
    cases hm : m.quoted with
    | true => exact h name ⟨front, skip, word, last, m, hhead, hname, hm⟩ hbuiltin
    | false => exact hhead.outside hapart hm hname

theorem Uncut.none_inside {chunks : List Chunk} (h : Uncut chunks) (name : String) :
    ¬ HeadsInside name chunks := by
  rintro ⟨front, skip, word, last, m, hhead, -, hquoted⟩
  rw [h.unquoted hhead] at hquoted
  cases hquoted

/-- The reserved words that are keyword types or operators. -/
def reservedTypes : List String := ["null", "this", "typeof", "void"]

theorem isBuiltin_of_reserved {name : String} (h : isReserved name = true) :
    isBuiltin name = true ↔ name ∈ reservedTypes := by
  have hall : ∀ name ∈ reservedWords, isBuiltin name = true ↔ name ∈ reservedTypes := by decide
  exact hall name (List.contains_iff_mem.1 h)

/-- The names of a text are the words at its heads that need an import. Where no word goes on
behind the brackets of an array, all of them stand outside of literals exactly if those do that
are at a head inside of a literal, and there are none of these if no literal is cut. None of the
names is reserved exactly if no head is a reserved word other than a keyword type or operator. -/
theorem typeNames_importable (chunks : List Chunk) :
    (∀ name, name ∈ typeNames (written chunks) ↔
      Heads name (written chunks) ∧ isBuiltin name = false) ∧
    (Apart (letters chunks) →
      ((∀ name ∈ typeNames (written chunks), Outside name chunks) ↔
        ∀ name, HeadsInside name chunks → isBuiltin name = false → Outside name chunks)) ∧
    (Uncut chunks → ∀ name, ¬ HeadsInside name chunks) ∧
    ((∀ name ∈ typeNames (written chunks), isReserved name = false) ↔
      ∀ name, Heads name (written chunks) → isReserved name = true → name ∈ reservedTypes) := by
  refine ⟨fun name => mem_typeNames_iff name _, outside_iff, Uncut.none_inside,
    fun h name hhead hreserved => ?_, fun h name hname => Bool.eq_false_iff.2 fun hreserved => ?_⟩
  · by_contra hnot
    have hbuiltin : isBuiltin name = false :=
      Bool.eq_false_iff.2 fun hbuiltin => hnot ((isBuiltin_of_reserved hreserved).1 hbuiltin)
    rw [h name ((mem_typeNames_iff name _).2 ⟨hhead, hbuiltin⟩)] at hreserved
    cases hreserved
  · obtain ⟨hhead, hbuiltin⟩ := (mem_typeNames_iff name _).1 hname
    rw [(isBuiltin_of_reserved hreserved).2 (h name hhead hreserved)] at hbuiltin
    cases hbuiltin

/-- The text `Foo[] | 'x-1' | keyof Bar`. -/
def literalInUnion : List Chunk :=
  [.code "Foo[] | ".toList, .literal '\'' (by decide) "x-1".toList, .code " | keyof Bar".toList]

theorem literalInUnion_importable :
    Uncut literalInUnion ∧ Apart (letters literalInUnion) ∧
      ∀ name ∈ typeNames (written literalInUnion), Outside name literalInUnion := by
  have huncut : Uncut literalInUnion := by decide
  have hapart : Apart (letters literalInUnion) := by decide
  obtain ⟨-, houtside, hinside, -⟩ := typeNames_importable literalInUnion
  exact ⟨huncut, hapart, (houtside hapart).2 fun name h => absurd h (hinside huncut name)⟩

/-- What stands behind a colon in a literal is named, and so are `true` and `new`. -/
theorem names_not_importable :
    ("x" ∈ typeNames (written [.literal '\'' (by decide) "urn:x".toList]) ∧
      ¬ Outside "x" [.literal '\'' (by decide) "urn:x".toList]) ∧
    ("true" ∈ typeNames "true | Foo" ∧ isReserved "true" = true) ∧
    ("new" ∈ typeNames "new () => Foo" ∧ isReserved "new" = true) := by
  have hcolon : Heads "x" (written [.literal '\'' (by decide) "urn:x".toList]) :=
    ⟨"'urn:".toList, [], ['\''], [], by decide, by simp, .nil, by decide, by simp [isNamePart],
      by simp [Whole, isSeparator], by simp, by simp⟩
  have htrue : Heads "true" "true | Foo" :=
    ⟨[], [], [' '], "| Foo".toList, by decide, by simp, .nil, by decide, by simp [isNamePart],
      by simp [Whole, isSeparator], by simp, by simp [isSeparator]⟩
  have hnew : Heads "new" "new () => Foo" :=
    ⟨[], [], [' '], "() => Foo".toList, by decide, by simp, .nil, by decide, by simp [isNamePart],
      by simp [Whole, isSeparator], by simp, by simp [isSeparator]⟩
  refine ⟨⟨(mem_typeNames_iff _ _).2 ⟨hcolon, by decide⟩, fun h => ?_⟩,
    ⟨(mem_typeNames_iff _ _).2 ⟨htrue, by decide⟩, by decide⟩,
    (mem_typeNames_iff _ _).2 ⟨hnew, by decide⟩, by decide⟩
  have hmem : (⟨'x', false⟩ : Letter) ∈ letters [.literal '\'' (by decide) "urn:x".toList] :=
    h.subset (by simp)
  exact absurd hmem (by decide)

end ScreenHooks.TypeText
