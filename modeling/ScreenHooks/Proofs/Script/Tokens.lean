/-
Tokens that are read back.

A forest of plain tokens (words, strings in single quotes, signs and three kinds
of brackets) has a source. Where no token runs into the one after it, the source
is cut into these tokens again, and they are grouped as they were.

* **`pieceOf_plain`** — one token, whatever follows it;
* **`scanFrom_written`** — a list of tokens;
* **`build_tokens`** — their groups;
* **`Legible.scanned`** — a forest of tokens that may follow each other.
-/
import Mathlib.Data.List.Chain
import ScreenHooks.Script.Forest
import ScreenHooks.Script.Scan

namespace ScreenHooks.Script

open Text

/-! ### Plain tokens -/

/-- Whether a text is one word. -/
def isWord (s : String) : Bool :=
  match s.toList with
  | [] => false
  | c :: r => isWordStart c && r.all isWordPart

/-- The signs that generated modules use. -/
def plainSigns : List String :=
  [".", ",", ":", ";", "=", "=>", "===", "|", "&", "<", ">", "?", "*"]

/-- Whether nothing or blanks stand before a token. -/
def Token.Apart (t : Token) : Prop :=
  t.lead = [] ∨ ∃ blank, t.lead = [.blank blank] ∧ blank ≠ "" ∧ ∀ c ∈ blank.toList, isSpace c = true

/-- Whether a text is a string in single quotes without escapes. -/
def IsQuoted (s : String) : Prop :=
  ∃ body, s.toList = '\'' :: (body ++ ['\'']) ∧ ∀ c ∈ body, c ≠ '\'' ∧ c ≠ '\\' ∧ c ≠ '\n'

/-- Whether the text of a token is one that its kind has in generated modules. -/
def Token.Plain (t : Token) : Prop :=
  match t.kind with
  | .word => isWord t.text = true
  | .string => IsQuoted t.text
  | .number => t.text = "1"
  | .sign => t.text ∈ plainSigns
  | .opening .round => t.text = "("
  | .closing .round => t.text = ")"
  | .opening .square => t.text = "["
  | .closing .square => t.text = "]"
  | .opening .curly => t.text = "\x7b"
  | .closing .curly => t.text = "\x7d"
  | _ => False

/-- The frames after a token of code. -/
def framesAfter (kind : TokenKind) (frames : List Frame) : List Frame :=
  match kind with
  | .opening .curly => .block :: frames
  | .closing .curly => frames.drop 1
  | _ => frames

/-- Whether a token ends where the given characters follow. -/
def Token.Ends (t : Token) (rest : List Char) : Prop :=
  match t.kind with
  | .word => ∀ c ∈ rest.head?, isWordPart c = false
  | .number => ∀ c ∈ rest.head?, isWordPart c = false ∧ c ≠ '.'
  | .sign => signText (t.text.toList ++ rest) = t.text.toList ∧
      (t.text = "." → ∀ c ∈ rest.head?, c.isDigit = false)
  | _ => True

/-! ### One token -/

theorem stringRest_plain {body : List Char} (h : ∀ c ∈ body, c ≠ '\'' ∧ c ≠ '\\' ∧ c ≠ '\n')
    (rest : List Char) : stringRest '\'' (body ++ '\'' :: rest) = body ++ ['\''] := by
  induction body with
  | nil => simp [stringRest]
  | cons c r ih =>
    obtain ⟨hquote, hslash, hline⟩ := h c List.mem_cons_self
    have hr := ih fun d hd => h d (List.mem_cons_of_mem _ hd)
    rw [List.cons_append, stringRest]
    · rw [if_neg hquote, if_neg hline, hr]
      rfl
    · intro d more hc
      exact absurd hc hslash

theorem takeWhile_all {p : Char → Bool} {word rest : List Char} (hword : ∀ c ∈ word, p c = true)
    (hrest : ∀ c ∈ rest.head?, p c = false) : (word ++ rest).takeWhile p = word := by
  rw [List.takeWhile_append_of_pos hword]
  cases rest with
  | nil => simp
  | cons c r => rw [List.takeWhile_cons_of_neg (by simp [hrest c rfl]), List.append_nil]

theorem isWordStart_part {c : Char} (h : isWordStart c = true) : isWordPart c = true :=
  (Bool.and_eq_true_iff.1 h).1

theorem isWordStart_not_space {c : Char} (h : isWordStart c = true) : isSpace c = false := by
  have hpart := isWordStart_part h
  simp only [isWordPart, Bool.and_eq_true, Bool.not_eq_true'] at hpart
  exact hpart.2

theorem isWord_iff {s : String} : isWord s = true ↔
    ∃ c r, s.toList = c :: r ∧ isWordStart c = true ∧ ∀ d ∈ r, isWordPart d = true := by
  unfold isWord
  cases s.toList with
  | nil => simp
  | cons c r => simp

/-- A word is no other text. -/
theorem isWord_ne {name other : String} (h : isWord name = true) (hother : isWord other = false) :
    name ≠ other := by
  rintro rfl
  rw [h] at hother
  cases hother

/-- A character of a word is no sign and no space. -/
theorem isWordPart_ne {c d : Char} (h : isWordPart c = true) (hd : isWordPart d = false) :
    c ≠ d := by
  rintro rfl
  rw [h] at hd
  cases hd

theorem pieceOf_code {dialect : Dialect} {state : ScanState}
    (hframes : ∀ frame ∈ state.frames, frame = .block) (c : Char) (r : List Char) :
    pieceOf dialect state c r = codePiece dialect state c r := by
  unfold pieceOf
  cases hstack : state.frames with
  | nil => rfl
  | cons frame outer =>
    rw [hstack] at hframes
    rw [hframes frame List.mem_cons_self]

theorem closeCurly_code {frames : List Frame} (hframes : ∀ frame ∈ frames, frame = .block)
    (r : List Char) : closeCurly frames r = .token (.closing .curly) ['\x7d'] (frames.drop 1) := by
  cases frames with
  | nil => rfl
  | cons frame outer =>
    rw [hframes frame List.mem_cons_self]
    rfl

/-- The first character of a word starts no other piece. -/
theorem codePiece_word {dialect : Dialect} {state : ScanState} {c : Char} {r rest : List Char}
    (hc : isWordStart c = true) (hr : ∀ d ∈ r, isWordPart d = true)
    (hrest : ∀ d ∈ rest.head?, isWordPart d = false) :
    codePiece dialect state c (r ++ rest) = .token .word (c :: r) state.frames := by
  have hpart := isWordStart_part hc
  have hspace := isWordStart_not_space hc
  have hdigit : c.isDigit = false := by simpa using (Bool.and_eq_true_iff.1 hc).2
  have hne : ∀ d : Char, isWordPart d = false → c ≠ d := fun d => isWordPart_ne hpart
  have htake : (c :: (r ++ rest)).takeWhile isWordPart = c :: r := by
    rw [← List.cons_append]
    exact takeWhile_all (List.forall_mem_cons.2 ⟨hpart, hr⟩) hrest
  simp [codePiece, hspace, hne '/' (by decide), hne '"' (by decide), hne '\'' (by decide),
    hne '\x60' (by decide), hdigit, hne '.' (by decide), hc, htake]

theorem numberRest_nil {rest : List Char}
    (h : ∀ c ∈ rest.head?, isWordPart c = false ∧ c ≠ '.') (hex : Bool) :
    numberRest hex false rest = [] := by
  cases rest with
  | nil => rfl
  | cons c r =>
    obtain ⟨hpart, hdot⟩ := h c rfl
    simp [numberRest, hpart, hdot]

/-- No plain sign starts another kind of piece, but for a point before a digit and
a less-than sign before a tag. -/
theorem plainSigns_head : ∀ text ∈ plainSigns, text.toList ≠ [] ∧ ∀ c ∈ text.toList.head?,
    isSpace c = false ∧ isWordStart c = false ∧ c.isDigit = false ∧
      c ∉ ['/', '"', '\'', '\x60', '#', '(', ')', '[', ']', '\x7b', '\x7d'] ∧
      (c = '.' → text = ".") ∧ (c = '<' → text = "<") := by
  intro text ht
  simp only [plainSigns, List.mem_cons, List.not_mem_nil, or_false] at ht
  rcases ht with rfl | rfl | rfl | rfl | rfl | rfl | rfl | rfl | rfl | rfl | rfl | rfl | rfl <;>
  · refine ⟨by decide, fun c hc => ?_⟩
    obtain rfl := Option.some.inj hc
    decide

/-- A sign is the piece that it starts with, if its first character starts no other
piece. -/
theorem pieceOf_mark {dialect : Dialect} {state : ScanState} {c : Char} {r rest : List Char}
    (hframes : ∀ frame ∈ state.frames, frame = .block) (hspace : isSpace c = false)
    (hword : isWordStart c = false) (hdigit : c.isDigit = false)
    (hother : c ∉ ['/', '"', '\'', '\x60', '#', '(', ')', '[', ']', '\x7b', '\x7d'])
    (hpoint : c = '.' → ∀ d ∈ (r ++ rest).head?, d.isDigit = false)
    (hless : c = '<' → state.operand = true) (hsign : signText (c :: (r ++ rest)) = c :: r) :
    pieceOf dialect state c (r ++ rest) = .token .sign (c :: r) state.frames := by
  have hnumber : ¬ (c = '.' ∧ ((r ++ rest).head?.map Char.isDigit).getD false = true) := by
    rintro ⟨hc, hnext⟩
    cases hmore : (r ++ rest).head? with
    | none => simp [hmore] at hnext
    | some d => simp [hmore, hpoint hc d hmore] at hnext
  have htag : ¬ (c = '<' ∧ dialect = .markup ∧ state.operand = false ∧
      startsTag (r ++ rest) = true) := by
    rintro ⟨hc, -, hfalse, -⟩
    rw [hless hc] at hfalse
    cases hfalse
  simp only [List.mem_cons, List.not_mem_nil, or_false, not_or] at hother
  obtain ⟨h1, h2, h3, h4, h5, h6, h7, h8, h9, h10, h11⟩ := hother
  rw [pieceOf_code hframes, codePiece]
  simp only [hspace, h1, h2, h3, h4, h5, h6, h7, h8, h9, h10, h11, hdigit, hword, hnumber, htag,
    Bool.false_eq_true, or_false, false_and, if_false]
  rw [hsign]

theorem pieceOf_sign {dialect : Dialect} {state : ScanState} {lead : List Trivia} {text : String}
    {rest : List Char} (hframes : ∀ frame ∈ state.frames, frame = .block)
    (ht : text ∈ plainSigns) (hends : Token.Ends ⟨lead, .sign, text⟩ rest)
    (hoperand : text = "<" → state.operand = true) :
    ∃ c r, text.toList = c :: r ∧ isSpace c = false ∧
      pieceOf dialect state c (r ++ rest) = .token .sign text.toList state.frames := by
  obtain ⟨hsign, hdigits⟩ := hends
  obtain ⟨hne, hhead⟩ := plainSigns_head text ht
  obtain ⟨c, r, htext⟩ := List.exists_cons_of_ne_nil hne
  rw [htext] at hhead
  obtain ⟨hspace, hword, hdigit, hother, hdot, hless⟩ := hhead c rfl
  have hpoint : c = '.' → ∀ d ∈ (r ++ rest).head?, d.isDigit = false := by
    intro hc
    have hone := htext
    rw [hdot hc] at hone
    rw [← (List.cons.inj hone).2]
    exact hdigits (hdot hc)
  rw [htext, List.cons_append] at hsign
  refine ⟨c, r, htext, hspace, ?_⟩
  rw [htext]
  exact pieceOf_mark hframes hspace hword hdigit hother hpoint (fun hc => hoperand (hless hc)) hsign

/-- A plain token is the piece that its text starts with, if it ends there. -/
theorem pieceOf_plain {dialect : Dialect} {state : ScanState} {t : Token} {rest : List Char}
    (hframes : ∀ frame ∈ state.frames, frame = .block) (ht : t.Plain) (hends : t.Ends rest)
    (hoperand : t.kind = .sign → t.text = "<" → state.operand = true) :
    ∃ c r, t.text.toList = c :: r ∧ isSpace c = false ∧
      pieceOf dialect state c (r ++ rest) =
        .token t.kind t.text.toList (framesAfter t.kind state.frames) := by
  obtain ⟨lead, kind, text⟩ := t
  have hcode := @pieceOf_code dialect state hframes
  cases kind with
  | word =>
    obtain ⟨c, r, htext, hc, hr⟩ := isWord_iff.1 ht
    refine ⟨c, r, htext, isWordStart_not_space hc, ?_⟩
    rw [hcode, codePiece_word hc hr hends, ← htext]
    rfl
  | string =>
    obtain ⟨body, htext, hbody⟩ := ht
    refine ⟨'\'', body ++ ['\''], htext, by decide, ?_⟩
    have hrest := stringRest_plain hbody rest
    have hspace : isSpace '\'' = false := by decide
    rw [hcode, htext, List.append_assoc, List.singleton_append]
    simp [codePiece, hspace, hrest, framesAfter]
  | number =>
    refine ⟨'1', [], congrArg String.toList ht, by decide, ?_⟩
    have hspace : isSpace '1' = false := by decide
    have htext : text.toList = ['1'] := congrArg String.toList ht
    rw [hcode, htext, List.nil_append]
    simp [codePiece, hspace, numberRest_nil hends, framesAfter, Char.isDigit]
  | sign => exact pieceOf_sign hframes ht hends (hoperand rfl)
  -- brackets are single characters, and closing a curly one depends on what is open
  | opening bracket =>
    cases bracket with
    | round => exact ⟨'(', [], congrArg String.toList ht, by decide, by
        rw [hcode, congrArg String.toList ht]; rfl⟩
    | square => exact ⟨'[', [], congrArg String.toList ht, by decide, by
        rw [hcode, congrArg String.toList ht]; rfl⟩
    | curly => exact ⟨'\x7b', [], congrArg String.toList ht, by decide, by
        rw [hcode, congrArg String.toList ht]; rfl⟩
    | template => cases ht
    | element => cases ht
  | closing bracket =>
    cases bracket with
    | round => exact ⟨')', [], congrArg String.toList ht, by decide, by
        rw [hcode, congrArg String.toList ht]; rfl⟩
    | square => exact ⟨']', [], congrArg String.toList ht, by decide, by
        rw [hcode, congrArg String.toList ht]; rfl⟩
    | curly => exact ⟨'\x7d', [], congrArg String.toList ht, by decide, by
        rw [hcode, congrArg String.toList ht]; exact closeCurly_code hframes rest⟩
    | template => cases ht
    | element => cases ht
  | regex => cases ht
  | template => cases ht
  | content => cases ht

/-! ### What may follow -/

/-- A character that goes on with no sign. -/
def isQuiet (c : Char) : Bool := !"=>.&|?*".toList.contains c && !c.isDigit

/-- Whether a token may stand right after another. -/
def Token.adjoins (t next : Token) : Bool :=
  match t.kind, next.kind with
  | .word, .word => false
  | .word, .number => false
  | .number, .closing _ => true
  | .number, .sign => [",", ";"].contains next.text
  | .number, _ => false
  | .sign, .number => false
  | .sign, .sign => t.text == ">" || [",", ":", ";"].contains next.text
  | _, _ => true

/-- Whether a token may be the next one: blanks stand between them or none are
needed, and a less-than sign has an operand before it. -/
def Token.Follows (t next : Token) : Prop :=
  (next.lead ≠ [] ∨ t.adjoins next = true) ∧ (next.kind = .sign → next.text = "<" → t.endsOperand = true)

theorem ends_greater (lead : List Trivia) (rest : List Char) :
    Token.Ends ⟨lead, .sign, ">"⟩ rest := by
  have hsign : ">" ≠ "." := by decide
  refine ⟨?_, fun h => absurd h hsign⟩
  simp [signText, longSigns]

theorem isQuiet_ne {c : Char} (h : isQuiet c = true) :
    ∀ d ∈ ['=', '>', '.', '&', '|', '?', '*'], d ≠ c := by
  rintro d hd rfl
  simp only [isQuiet, Bool.and_eq_true, Bool.not_eq_true'] at h
  have hmem : "=>.&|?*".toList.contains d = true := List.contains_iff_mem.2 hd
  rw [h.1] at hmem
  cases hmem

/-- A sign ends before a character that goes on with no sign. -/
theorem ends_of_quiet {text : String} (ht : text ∈ plainSigns) (lead : List Trivia)
    {rest : List Char} (h : ∀ c ∈ rest.head?, isQuiet c = true) :
    Token.Ends ⟨lead, .sign, text⟩ rest := by
  cases rest with
  | nil =>
    have halone : ∀ text ∈ plainSigns, signText text.toList = text.toList := by decide
    refine ⟨?_, fun _ c hc => by cases hc⟩
    rw [List.append_nil]
    exact halone text ht
  | cons c r =>
    have hc := h c rfl
    have hne := isQuiet_ne hc
    simp only [List.forall_mem_cons, List.not_mem_nil, false_imp_iff, implies_true, and_true] at hne
    obtain ⟨h1, h2, h3, h4, h5, h6, h7⟩ := hne
    constructor
    · simp only [plainSigns, List.mem_cons, List.not_mem_nil, or_false] at ht
      rcases ht with rfl | rfl | rfl | rfl | rfl | rfl | rfl | rfl | rfl | rfl | rfl | rfl | rfl <;>
        simp [signText, longSigns, h1, h2, h3, h4, h5, h6, h7, List.isPrefixOf]
    · rintro - d hd
      cases hd
      simp only [isQuiet, Bool.and_eq_true, Bool.not_eq_true'] at hc
      exact hc.2

/-- The characters that the text of a plain token may start with. -/
inductive Starts (c : Char) : TokenKind → Prop where
  | word (h : isWordStart c = true) : Starts c .word
  | number (h : c = '1') : Starts c .number
  | sign (h : isWordPart c = false) : Starts c .sign
  | string (hpart : isWordPart c = false) (hquiet : isQuiet c = true) : Starts c .string
  | opening {bracket : Bracket} (hpart : isWordPart c = false) (hquiet : isQuiet c = true) :
      Starts c (.opening bracket)
  | closing {bracket : Bracket} (hpart : isWordPart c = false) (hquiet : isQuiet c = true) :
      Starts c (.closing bracket)

theorem Token.Plain.head {t : Token} (ht : t.Plain) :
    ∃ c r, t.text.toList = c :: r ∧ Starts c t.kind := by
  obtain ⟨lead, kind, text⟩ := t
  cases kind with
  | word =>
    obtain ⟨c, r, htext, hc, -⟩ := isWord_iff.1 ht
    exact ⟨c, r, htext, .word hc⟩
  | string =>
    obtain ⟨body, htext, -⟩ := ht
    exact ⟨_, _, htext, .string (by decide) (by decide)⟩
  | number => exact ⟨_, _, congrArg String.toList ht, .number rfl⟩
  | sign =>
    obtain ⟨hne, hhead⟩ := plainSigns_head text ht
    obtain ⟨c, r, htext⟩ := List.exists_cons_of_ne_nil hne
    rw [htext] at hhead
    obtain ⟨-, hword, hdigit, -⟩ := hhead c rfl
    exact ⟨c, r, htext, .sign (by simpa [isWordStart, hdigit] using hword)⟩
  | opening bracket =>
    cases bracket with
    | round => exact ⟨'(', [], congrArg String.toList ht, .opening (by decide) (by decide)⟩
    | square => exact ⟨'[', [], congrArg String.toList ht, .opening (by decide) (by decide)⟩
    | curly => exact ⟨'\x7b', [], congrArg String.toList ht, .opening (by decide) (by decide)⟩
    | template => cases ht
    | element => cases ht
  | closing bracket =>
    cases bracket with
    | round => exact ⟨')', [], congrArg String.toList ht, .closing (by decide) (by decide)⟩
    | square => exact ⟨']', [], congrArg String.toList ht, .closing (by decide) (by decide)⟩
    | curly => exact ⟨'\x7d', [], congrArg String.toList ht, .closing (by decide) (by decide)⟩
    | template => cases ht
    | element => cases ht
  | regex => cases ht
  | template => cases ht
  | content => cases ht

theorem isQuiet_of_isWordStart {c : Char} (h : isWordStart c = true) : isQuiet c = true := by
  have hne : ∀ d : Char, isWordPart d = false → c ≠ d :=
    fun d => isWordPart_ne (isWordStart_part h)
  have hdigit : c.isDigit = false := by simpa using (Bool.and_eq_true_iff.1 h).2
  simp [isQuiet, hdigit, hne '=' (by decide), hne '>' (by decide), hne '.' (by decide),
    hne '&' (by decide), hne '|' (by decide), hne '?' (by decide), hne '*' (by decide)]

theorem isSpace_ends {c : Char} (h : isSpace c = true) : isWordPart c = false ∧ isQuiet c = true := by
  have hne : ∀ d : Char, isSpace d = false → c ≠ d := by
    rintro d hd rfl
    rw [h] at hd
    cases hd
  have hdigit : c.isDigit = false := by
    apply Bool.eq_false_iff.2
    intro hc
    simp only [Char.isDigit, ge_iff_le, Bool.and_eq_true, decide_eq_true_eq,
      UInt32.le_iff_toNat_le] at hc
    simp only [isSpace, isBlank, Bool.or_eq_true, Bool.and_eq_true, decide_eq_true_eq,
      beq_iff_eq, Char.toNat] at h
    have hlow : '0'.val.toNat = 48 := by decide
    have hhigh : '9'.val.toNat = 57 := by decide
    omega
  refine ⟨by simp [isWordPart, h], ?_⟩
  simp [isQuiet, hdigit, hne '=' (by decide), hne '>' (by decide), hne '.' (by decide),
    hne '&' (by decide), hne '|' (by decide), hne '?' (by decide), hne '*' (by decide)]

/-- The characters of tokens with what stands before them. -/
def charsOf (ts : List Token) : List Char := ts.flatMap fun t => t.source.toList

theorem charsOf_cons (t : Token) (ts : List Token) :
    charsOf (t :: ts) = t.source.toList ++ charsOf ts := rfl

/-- A token starts with a space or with its text. -/
theorem Token.Apart.source_head {t : Token} (h : t.Apart) (ht : t.Plain) :
    ∃ c r, t.source.toList = c :: r ∧
      (isSpace c = true ∧ t.lead ≠ [] ∨ t.text.toList.head? = some c ∧ t.lead = []) := by
  rcases h with hnone | ⟨blank, hblank, hne, hspace⟩
  · obtain ⟨c, r, htext, -⟩ := ht.head
    refine ⟨c, r, ?_, .inr ⟨by rw [htext]; rfl, hnone⟩⟩
    simp [source, leadText, hnone, htext]
  · cases hcs : blank.toList with
    | nil => exact absurd (String.toList_inj.1 hcs) hne
    | cons c r =>
      refine ⟨c, r ++ t.text.toList, ?_, .inl ⟨hspace c (by simp [hcs]), by simp [hblank]⟩⟩
      simp [source, leadText, hblank, Trivia.text, hcs]

/-- Where a token ends is up to the character behind it. -/
theorem Token.Plain.ends_cons {t : Token} (ht : t.Plain) {c : Char}
    (hword : t.kind = .word → isWordPart c = false)
    (hnumber : t.kind = .number → isWordPart c = false ∧ c ≠ '.')
    (hsign : t.kind = .sign → t.text ≠ ">" → isQuiet c = true) (rest : List Char) :
    t.Ends (c :: rest) := by
  obtain ⟨lead, kind, text⟩ := t
  have hhead : ∀ d ∈ (c :: rest).head?, c = d := fun d hd => Option.some.inj hd
  cases kind with
  | word => exact fun d hd => hhead d hd ▸ hword rfl
  | number => exact fun d hd => hhead d hd ▸ hnumber rfl
  | sign =>
    by_cases hgreater : text = ">"
    · subst hgreater
      exact ends_greater lead _
    · exact ends_of_quiet ht lead fun d hd => hhead d hd ▸ hsign rfl hgreater
  | string => trivial
  | opening bracket => trivial
  | closing bracket => trivial
  | regex => cases ht
  | template => cases ht
  | content => cases ht

/-- A token ends before another one that adjoins it. -/
theorem ends_of_adjoins {t next : Token} (h : t.adjoins next = true) (ht : t.Plain) {c : Char}
    {r : List Char} (htext : next.text.toList = c :: r) (hc : Starts c next.kind)
    (rest : List Char) : t.Ends (c :: rest) := by
  obtain ⟨lead, kind, text⟩ := t
  obtain ⟨nextLead, nextKind, nextText⟩ := next
  refine ht.ends_cons ?_ ?_ ?_ rest
  · rintro rfl
    cases hc with
    | word => cases h
    | number => cases h
    | sign hpart | string hpart | opening hpart | closing hpart => exact hpart
  · rintro rfl
    cases hc with
    | closing hpart hquiet =>
      refine ⟨hpart, ?_⟩
      rintro rfl
      exact absurd hquiet (by decide)
    | sign hpart =>
      -- only commas and semicolons adjoin a number, no dot
      have hdot : ∀ s ∈ [",", ";"], s.toList.head? ≠ some '.' := by decide
      have hmem : nextText ∈ [",", ";"] := by simpa [Token.adjoins] using h
      refine ⟨hpart, ?_⟩
      rintro rfl
      exact hdot nextText hmem (congrArg List.head? htext)
    | word | number | string | opening => cases h
  · rintro rfl hgreater
    cases hc with
    | word hstart => exact isQuiet_of_isWordStart hstart
    | number => cases h
    | sign =>
      have hquiet : ∀ s ∈ [",", ":", ";"], s.toList.head?.all isQuiet = true := by decide
      have hmem : nextText ∈ [",", ":", ";"] := by
        simpa [Token.adjoins, show text ≠ ">" from hgreater] using h
      have hall := hquiet nextText hmem
      rwa [htext] at hall
    | string _ hquiet | opening _ hquiet | closing _ hquiet => exact hquiet

/-- A token ends before a space. -/
theorem ends_of_space {t : Token} (ht : t.Plain) {c : Char} (hc : isSpace c = true)
    (rest : List Char) : t.Ends (c :: rest) := by
  obtain ⟨hpart, hquiet⟩ := isSpace_ends hc
  have hdot : c ≠ '.' := by
    rintro rfl
    exact absurd hc (by decide)
  exact ht.ends_cons (fun _ => hpart) (fun _ => ⟨hpart, hdot⟩) (fun _ _ => hquiet) rest

/-- A token ends where one that may be the next follows. -/
theorem ends_of_follows {t next : Token} (h : t.Follows next) (ht : t.Plain) (hnext : next.Plain)
    (hapart : next.Apart) (rest : List Char) : t.Ends (next.source.toList ++ rest) := by
  obtain ⟨c, r, hsource, hc⟩ := hapart.source_head hnext
  rw [hsource]
  rcases hc with ⟨hspace, -⟩ | ⟨hhead, hnone⟩
  · exact ends_of_space ht hspace _
  · obtain ⟨d, more, htext, hstarts⟩ := hnext.head
    rw [htext] at hhead
    obtain rfl : d = c := Option.some.inj hhead
    exact ends_of_adjoins (h.1.resolve_left (· hnone)) ht htext hstarts _

/-! ### Lists of tokens -/

variable {dialect : Dialect} {state : ScanState} {lead : List Trivia}

/-- Whether the scanner reads code, with curly brackets open only. -/
def ScanState.Code (state : ScanState) : Prop := ∀ frame ∈ state.frames, frame = .block

theorem scanFrom_skip (passed rest : List Char) :
    scanFrom dialect passed.length state lead (passed ++ rest) =
      scanFrom dialect 0 state lead rest := by
  induction passed with
  | nil => rfl
  | cons c r ih => exact ih

/-- Blanks go to the next token. -/
theorem scanFrom_blank (hcode : state.Code) {blank rest : List Char} (hne : blank ≠ [])
    (hblank : ∀ c ∈ blank, isSpace c = true) (hrest : ∀ c ∈ rest.head?, isSpace c = false) :
    scanFrom dialect 0 state lead (blank ++ rest) =
      scanFrom dialect 0 state (lead ++ [.blank (String.ofList blank)]) rest := by
  obtain ⟨c, r, rfl⟩ := List.exists_cons_of_ne_nil hne
  have htake : (c :: (r ++ rest)).takeWhile isSpace = c :: r := takeWhile_all hblank hrest
  have hpiece : pieceOf dialect state c (r ++ rest) = .trivia (.blank (String.ofList (c :: r))) := by
    rw [pieceOf_code hcode, codePiece, if_pos (hblank c List.mem_cons_self), htake]
  rw [List.cons_append, scanFrom, hpiece]
  simp only [Trivia.text, String.length_ofList, List.length_cons, Nat.add_sub_cancel]
  exact scanFrom_skip r rest

/-- The state after a token. -/
def ScanState.after (state : ScanState) (t : Token) : ScanState :=
  ⟨framesAfter t.kind state.frames, t.endsOperand⟩

theorem ScanState.Code.after (hcode : state.Code) (t : Token) : (state.after t).Code := by
  intro frame hframe
  simp only [ScanState.after, framesAfter] at hframe
  split at hframe
  · rcases List.mem_cons.1 hframe with rfl | hframe
    · rfl
    · exact hcode frame hframe
  · exact hcode frame (List.mem_of_mem_drop hframe)
  · exact hcode frame hframe

/-- A token is read, with what stands before it, if it is the piece that its text starts
with. -/
theorem scanFrom_piece (hcode : state.Code) {t : Token} (hapart : t.Apart) {rest : List Char}
    (hpiece : ∃ c r, t.text.toList = c :: r ∧ isSpace c = false ∧
      pieceOf dialect state c (r ++ rest) =
        .token t.kind t.text.toList (framesAfter t.kind state.frames)) :
    scanFrom dialect 0 state lead (t.source.toList ++ rest) =
      ⟨lead ++ t.lead, t.kind, t.text⟩ :: scanFrom dialect 0 (state.after t) [] rest := by
  obtain ⟨c, r, htext, hspace, hpiece⟩ := hpiece
  have htoken : ∀ lead, scanFrom dialect 0 state lead (t.text.toList ++ rest) =
      ⟨lead, t.kind, t.text⟩ :: scanFrom dialect 0 (state.after t) [] rest := by
    intro lead
    have hlength : t.text.toList.length - 1 = r.length := by
      rw [htext, List.length_cons, Nat.add_sub_cancel]
    rw [htext, List.cons_append, scanFrom, hpiece]
    simp only [hlength, String.ofList_toList]
    rw [scanFrom_skip]
    rfl
  -- what stands before the token, if anything, is one run of blanks
  rcases hapart with hnone | ⟨blank, hblank, hne, hblanks⟩
  · have hsource : t.source = t.text := by simp [Token.source, Token.leadText, hnone]
    rw [hsource, hnone, List.append_nil, htoken]
  · have hsource : t.source.toList = blank.toList ++ t.text.toList := by
      simp [Token.source, Token.leadText, hblank, Trivia.text]
    have hhead : ∀ d ∈ (t.text.toList ++ rest).head?, isSpace d = false := by
      rw [htext]
      rintro d hd
      obtain rfl := Option.some.inj hd
      exact hspace
    have hblankNe : blank.toList ≠ [] := fun h => hne (String.toList_inj.1 h)
    rw [hsource, List.append_assoc, scanFrom_blank hcode hblankNe hblanks hhead, htoken, hblank,
      String.ofList_toList]

/-- A plain token is read where it ends. -/
theorem scanFrom_token (hcode : state.Code) {t : Token} (ht : t.Plain) (hapart : t.Apart)
    {rest : List Char} (hends : t.Ends rest) (hoperand : t.kind = .sign → t.text = "<" → state.operand = true) :
    scanFrom dialect 0 state lead (t.source.toList ++ rest) =
      ⟨lead ++ t.lead, t.kind, t.text⟩ :: scanFrom dialect 0 (state.after t) [] rest :=
  scanFrom_piece hcode hapart (pieceOf_plain hcode ht hends hoperand)

/-- Tokens that follow each other are read as they are. What stood before them goes
to the first. -/
theorem scanFrom_written (hcode : state.Code) {t : Token} {ts : List Token}
    (hplain : ∀ u ∈ t :: ts, u.Plain ∧ u.Apart) (hchain : List.IsChain Token.Follows (t :: ts))
    (hoperand : t.kind = .sign → t.text = "<" → state.operand = true) {rest : List Char}
    (hends : ∀ u ∈ (t :: ts).getLast?, u.Ends rest) :
    ∃ last : ScanState, last.Code ∧
      scanFrom dialect 0 state lead (charsOf (t :: ts) ++ rest) =
        ⟨lead ++ t.lead, t.kind, t.text⟩ :: (ts ++ scanFrom dialect 0 last [] rest) := by
  -- what follows a token is known from the next one only, so the last is a case of its own
  induction ts generalizing state lead t with
  | nil =>
    obtain ⟨ht, hapart⟩ := hplain t List.mem_cons_self
    refine ⟨state.after t, hcode.after t, ?_⟩
    rw [charsOf_cons, charsOf, List.flatMap_nil, List.append_nil,
      scanFrom_token hcode ht hapart (hends t rfl) hoperand, List.nil_append]
  | cons next ts ih =>
    obtain ⟨ht, hapart⟩ := hplain t List.mem_cons_self
    obtain ⟨hnext, hnextApart⟩ := hplain next (by simp)
    obtain ⟨hfollows, hrest⟩ := List.isChain_cons_cons.1 hchain
    have hmore : ∀ u ∈ next :: ts, u.Plain ∧ u.Apart :=
      fun u hu => hplain u (List.mem_cons_of_mem _ hu)
    rw [List.getLast?_cons_cons] at hends
    obtain ⟨last, hlast, hscan⟩ := @ih (state.after t) [] (hcode.after t) next hmore hrest hfollows.2 hends
    refine ⟨last, hlast, ?_⟩
    have hcut : t.Ends (charsOf (next :: ts) ++ rest) := by
      rw [charsOf_cons, List.append_assoc]
      exact ends_of_follows hfollows ht hnext hnextApart _
    rw [charsOf_cons, List.append_assoc, scanFrom_token hcode ht hapart hcut hoperand, hscan,
      List.nil_append]
    rfl

/-! ### Groups -/

namespace Forest

/-- The tokens of a forest. -/
def tokens : Forest → List Token
  | nil => []
  | leaf t rest => t :: rest.tokens
  | group o inner c rest => o :: (inner.tokens ++ c :: rest.tokens)

@[simp] theorem tokens_append (a b : Forest) : (a ++ b).tokens = a.tokens ++ b.tokens := by
  induction a with
  | nil => rfl
  | leaf t rest ih => simp [tokens, ih]
  | group o inner c rest _ ih => simp [tokens, ih]

@[simp] theorem source_nil : nil.source = "" := rfl

@[simp] theorem source_leaf (t : Token) (rest : Forest) :
    (leaf t rest).source = t.source ++ rest.source := rfl

@[simp] theorem source_group (o c : Token) (inner rest : Forest) :
    (group o inner c rest).source = o.source ++ inner.source ++ c.source ++ rest.source := rfl

theorem source_toList (f : Forest) : f.source.toList = charsOf f.tokens := by
  induction f with
  | nil => rfl
  | leaf t rest ih => simp [source, tokens, charsOf_cons, ih]
  | group o inner c rest ihInner ihRest =>
    have happend : ∀ a b : List Token, charsOf (a ++ b) = charsOf a ++ charsOf b :=
      fun a b => List.flatMap_append
    simp only [source, tokens, charsOf_cons, happend, String.toList_append, ihInner, ihRest,
      List.append_assoc]

/-- Whether brackets stand in pairs, and at the ends of groups only. -/
def Paired : Forest → Prop
  | nil => True
  | leaf t rest => t.kind ∈ [.word, .number, .string, .sign] ∧ rest.Paired
  | group o inner c rest =>
    (∃ bracket, o.kind = .opening bracket ∧ c.kind = .closing bracket) ∧ inner.Paired ∧ rest.Paired

/-- Paired brackets are grouped as they were. -/
theorem build_tokens {f : Forest} (h : f.Paired) (ts : List Token) (open_ : List Pending)
    (before : Forest → Forest) (stray : Nat) :
    build (f.tokens ++ ts) open_ before stray = build ts open_ (fun rest => before (f ++ rest)) stray := by
  -- an opening bracket is put off, with what was built before it, until the other one
  induction f generalizing ts open_ before with
  | nil => rfl
  | leaf t rest ih =>
    obtain ⟨hkind, hrest⟩ := h
    have hstep : build (t :: (rest.tokens ++ ts)) open_ before stray =
        build (rest.tokens ++ ts) open_ (fun more => before (.leaf t more)) stray := by
      simp only [List.mem_cons, List.not_mem_nil, or_false] at hkind
      rw [build]
      rcases hkind with hkind | hkind | hkind | hkind <;> simp only [hkind]
    rw [tokens, List.cons_append, hstep, ih hrest]
    rfl
  | group o inner c rest ihInner ihRest =>
    obtain ⟨⟨bracket, hopening, hclosing⟩, hinner, hrest⟩ := h
    have hopen : build (o :: (inner.tokens ++ (c :: (rest.tokens ++ ts)))) open_ before stray =
        build (inner.tokens ++ (c :: (rest.tokens ++ ts))) (⟨o, before⟩ :: open_) id stray := by
      rw [build, hopening]
    have hclose : build (c :: (rest.tokens ++ ts)) (⟨o, before⟩ :: open_) (fun more => inner ++ more)
        stray = build (rest.tokens ++ ts) open_ (fun more => before (.group o inner c more)) stray := by
      rw [build, hclosing]
      simp only [hopening, if_true, append_nil]
    rw [tokens, List.cons_append, List.append_assoc, List.cons_append, hopen, ihInner hinner]
    simp only [id]
    rw [hclose, ihRest hrest]
    rfl

/-- No bracket is left without a partner. -/
theorem ofTokens_tokens {f : Forest} (h : f.Paired) : ofTokens f.tokens = ⟨f, 0⟩ := by
  have hbuild := build_tokens h [] [] id 0
  rw [List.append_nil] at hbuild
  rw [ofTokens, hbuild]
  show Built.mk (f ++ nil) 0 = _
  rw [append_nil]

/-! ### Legible forests -/

/-- Whether a forest can be read back: plain tokens in paired brackets, each of which
may follow the one before it. -/
def Legible : Forest → Prop
  | nil => True
  | leaf t rest =>
    (t.kind ∈ [.word, .number, .string, .sign] ∧ t.Plain ∧ t.Apart) ∧
      (∀ next ∈ rest.first?, t.Follows next) ∧ rest.Legible
  | group o inner c rest =>
    ((∃ bracket, o.kind = .opening bracket ∧ c.kind = .closing bracket) ∧ o.Plain ∧ o.Apart ∧
        c.Plain ∧ c.Apart) ∧
      ((∀ next ∈ inner.first?, o.Follows next) ∧ inner.Legible) ∧
        (∀ next ∈ rest.first?, c.Follows next) ∧ rest.Legible

theorem Legible.paired {f : Forest} (h : f.Legible) : f.Paired := by
  induction f with
  | nil => trivial
  | leaf t rest ih => exact ⟨h.1.1, ih h.2.2⟩
  | group o inner c rest ihInner ihRest =>
    exact ⟨h.1.1, ihInner h.2.1.2, ihRest h.2.2.2⟩

theorem Legible.plain {f : Forest} (h : f.Legible) : ∀ t ∈ f.tokens, t.Plain ∧ t.Apart := by
  induction f with
  | nil => simp [tokens]
  | leaf t rest ih => exact List.forall_mem_cons.2 ⟨h.1.2, ih h.2.2⟩
  | group o inner c rest ihInner ihRest =>
    obtain ⟨⟨-, ho, hoApart, hc, hcApart⟩, ⟨-, hinner⟩, -, hrest⟩ := h
    simp only [tokens, List.forall_mem_cons, List.forall_mem_append]
    exact ⟨⟨ho, hoApart⟩, ihInner hinner, ⟨hc, hcApart⟩, ihRest hrest⟩

theorem tokens_head? (f : Forest) : f.tokens.head? = f.first? := by
  cases f <;> rfl

/-- Any token may stand before a closing bracket. -/
theorem follows_closing (t : Token) {c : Token} {bracket : Bracket}
    (hc : c.kind = .closing bracket) : t.Follows c := by
  refine ⟨.inr ?_, fun hsign => ?_⟩
  · cases hkind : t.kind <;> simp [Token.adjoins, hkind, hc]
  · rw [hc] at hsign
    cases hsign

theorem Legible.chain {f : Forest} (h : f.Legible) : List.IsChain Token.Follows f.tokens := by
  induction f with
  | nil => exact List.isChain_nil
  | leaf t rest ih =>
    obtain ⟨-, hnext, hrest⟩ := h
    rw [tokens, List.isChain_cons, tokens_head?]
    exact ⟨hnext, ih hrest⟩
  | group o inner c rest ihInner ihRest =>
    obtain ⟨⟨⟨bracket, -, hclosing⟩, -⟩, ⟨hinnerNext, hinner⟩, hnext, hrest⟩ := h
    rw [← tokens_head?] at hinnerNext hnext
    have hclose : List.IsChain Token.Follows (c :: rest.tokens) :=
      List.isChain_cons.2 ⟨hnext, ihRest hrest⟩
    have hinside : List.IsChain Token.Follows (inner.tokens ++ c :: rest.tokens) := by
      refine List.isChain_append.2 ⟨ihInner hinner, hclose, fun last hlast next hnext => ?_⟩
      obtain rfl := Option.some.inj hnext
      exact follows_closing last hclosing
    refine List.isChain_cons.2 ⟨?_, hinside⟩
    -- an empty group has its closing bracket next
    cases htokens : inner.tokens with
    | nil =>
      rintro next hnext
      obtain rfl := Option.some.inj hnext
      exact follows_closing o hclosing
    | cons first more =>
      rw [htokens] at hinnerNext
      exact hinnerNext

theorem first?_append (a b : Forest) : (a ++ b).first? = a.first?.or b.first? := by
  cases a <;> rfl

/-- Legible forests make a legible forest where the second may follow the first. -/
theorem Legible.append {a b : Forest} (ha : a.Legible) (hb : b.Legible)
    (h : ∀ last ∈ a.tokens.getLast?, ∀ next ∈ b.first?, last.Follows next) : (a ++ b).Legible := by
  -- only the last token of the first forest sees the second one
  induction a with
  | nil => exact hb
  | leaf t rest ih =>
    obtain ⟨ht, hnext, hrest⟩ := ha
    refine ⟨ht, ?_, ih hrest ?_⟩
    · show ∀ next ∈ (rest ++ b).first?, t.Follows next
      rw [first?_append]
      cases rest with
      | nil => exact fun next hn => h t rfl next hn
      | leaf u more => exact hnext
      | group o inner c more => exact hnext
    · intro last hlast
      refine h last ?_
      rw [tokens, List.getLast?_cons, hlast]
      rfl
  | group o inner c rest _ ih =>
    obtain ⟨ho, hinner, hnext, hrest⟩ := ha
    have hlasts : ∀ last ∈ (c :: rest.tokens).getLast?, last ∈ (group o inner c rest).tokens.getLast? := by
      intro last hlast
      rw [tokens, ← List.cons_append, List.getLast?_append, hlast]
      rfl
    refine ⟨ho, hinner, ?_, ih hrest ?_⟩
    · show ∀ next ∈ (rest ++ b).first?, c.Follows next
      rw [first?_append]
      cases rest with
      | nil => exact fun next hn => h c (hlasts c rfl) next hn
      | leaf u more => exact hnext
      | group p inner' d more => exact hnext
    · intro last hlast
      refine h last (hlasts last ?_)
      rw [List.getLast?_cons, hlast]
      rfl

/-! ### Trivia in front -/

/-- The forest with trivia in front of its first token. -/
def leadBy (lead : List Trivia) : Forest → Forest
  | nil => nil
  | leaf t rest => leaf ⟨lead ++ t.lead, t.kind, t.text⟩ rest
  | group o inner c rest => group ⟨lead ++ o.lead, o.kind, o.text⟩ inner c rest

theorem Paired.leadBy {f : Forest} (h : f.Paired) (lead : List Trivia) : (f.leadBy lead).Paired := by
  cases f <;> exact h

theorem Paired.append {a b : Forest} (ha : a.Paired) (hb : b.Paired) : (a ++ b).Paired := by
  induction a with
  | nil => exact hb
  | leaf t rest ih => exact ⟨ha.1, ih ha.2⟩
  | group o inner c rest _ ih => exact ⟨ha.1, ha.2.1, ih ha.2.2⟩

/-- A legible forest is read from its source. What stood before it goes to its first
token. -/
theorem Legible.scanned {f : Forest} (h : f.Legible) {dialect : Dialect} {state : ScanState}
    (hcode : state.Code) (lead : List Trivia) {first : Token} (hfirst : f.first? = some first)
    (hoperand : first.kind = .sign → first.text = "<" → state.operand = true) {rest : List Char}
    (hends : ∀ last ∈ f.tokens.getLast?, last.Ends rest) :
    ∃ last : ScanState, last.Code ∧
      scanFrom dialect 0 state lead (f.source.toList ++ rest) =
        (f.leadBy lead).tokens ++ scanFrom dialect 0 last [] rest := by
  have hplain := h.plain
  have hchain := h.chain
  rw [source_toList]
  cases f with
  | nil => cases hfirst
  | leaf t more | group t inner c more =>
    obtain rfl := Option.some.inj hfirst
    exact scanFrom_written hcode hplain hchain hoperand hends

end Forest

end ScreenHooks.Script
