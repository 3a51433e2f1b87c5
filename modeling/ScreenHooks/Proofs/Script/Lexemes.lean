/-
Code that is cut into its tokens.

The tokens of arbitrary code are words, numbers, strings, signs and three kinds of brackets.
The scanner takes the longest sign and the longest word, so a token is read as it is if the
character after it does not go on with it. A forest whose tokens all end where the next ones
start is read back from its source.

* **`signText_of_stops`** — the longest sign;
* **`pieceOf_lexeme`** — one token, whatever was read before it;
* **`Forest.cut_append`** — code after code;
* **`Forest.Cut.scanned`** — a forest that is cut at its tokens.
-/
import Mathlib.Data.List.Find
import ScreenHooks.Proofs.Script.Phrases

namespace ScreenHooks.Script

open Text

/-! ### Lexemes -/

/-- The signs of code that are read alike after all tokens. -/
def codeSigns : List String :=
  [".", "?.", "...", ",", ":", ";", "=", "=>", "==", "!=", "===", "!==", "|", "&", "^", "||", "&&",
    "??", "+", "-", "*", "%", "**", ">", "?", "!", "~", "++", "--"]

/-- The brackets of code. -/
def codeBrackets : List Bracket := [.round, .square, .curly]

/-- What follows the opening quote of a string: characters and escapes up to the closing
quote. -/
inductive ClosesString (quote : Char) : List Char → Prop where
  | quote : ClosesString quote [quote]
  | char {c : Char} {r : List Char} (hquote : c ≠ quote) (hescape : c ≠ '\\') (hline : c ≠ '\n')
      (h : ClosesString quote r) : ClosesString quote (c :: r)
  | escape {c : Char} {r : List Char} (h : ClosesString quote r) :
      ClosesString quote ('\\' :: c :: r)

/-- The texts of the kinds of tokens. -/
inductive IsLexeme : TokenKind → String → Prop where
  | word {text : String} (h : isWord text = true) : IsLexeme .word text
  | number {text : String} (hne : text ≠ "") (h : ∀ c ∈ text.toList, c.isDigit = true) :
      IsLexeme .number text
  | string {text : String} {quote : Char} {r : List Char} (hquote : quote = '\'' ∨ quote = '"')
      (htext : text.toList = quote :: r) (h : ClosesString quote r) : IsLexeme .string text
  | sign {text : String} (h : text ∈ codeSigns) : IsLexeme .sign text
  | opening {bracket : Bracket} (h : bracket ∈ codeBrackets) :
      IsLexeme (.opening bracket) bracket.opens
  | closing {bracket : Bracket} (h : bracket ∈ codeBrackets) :
      IsLexeme (.closing bracket) bracket.closes

/-! ### What may follow -/

/-- Whether a text is empty or starts with a character of the given kind. -/
def headIs (p : Char → Bool) (cs : List Char) : Bool := cs.head?.all p

/-- Whether a character after a token does not go on with it. -/
def stopsAt (kind : TokenKind) (text : String) (c : Char) : Bool :=
  match kind with
  | .word => !isWordPart c
  | .number => !isWordPart c && c != '.'
  | .sign =>
    longSigns.all (fun long => !(text.toList ++ [c]).isPrefixOf long.toList) &&
      !((text == "." || text == "?.") && c.isDigit)
  | _ => true

/-- Whether a token ends where the given characters follow. -/
abbrev Stopped (kind : TokenKind) (text : String) (rest : List Char) : Prop :=
  headIs (stopsAt kind text) rest = true

section HeadIs

variable {p : Char → Bool} {a b : List Char}

@[simp] theorem headIs_nil : headIs p [] = true := rfl

@[simp] theorem headIs_cons (c : Char) (r : List Char) : headIs p (c :: r) = p c := by
  simp [headIs]

theorem headIs_iff : headIs p a = true ↔ ∀ c ∈ a.head?, p c = true := by
  cases a <;> simp

theorem headIs_append (ha : headIs p a = true) (hb : a = [] → headIs p b = true) :
    headIs p (a ++ b) = true := by
  cases a with
  | nil => exact hb rfl
  | cons c r => simpa using ha

theorem headIs_append_of_ne_nil (hne : a ≠ []) : headIs p (a ++ b) = headIs p a := by
  obtain ⟨c, r, rfl⟩ := List.exists_cons_of_ne_nil hne
  rw [List.cons_append, headIs_cons, headIs_cons]

theorem headIs_mono {q : Char → Bool} (h : ∀ c, p c = true → q c = true)
    (ha : headIs p a = true) : headIs q a = true :=
  headIs_iff.2 fun c hc => h c (headIs_iff.1 ha c hc)

/-- Blanks before a text. -/
theorem headIs_gap {s : String} (hs : IsGap s) (hspace : ∀ c, isSpace c = true → p c = true)
    (h : headIs p a = true) : headIs p (s.toList ++ a) = true :=
  headIs_append (headIs_iff.2 fun c hc => hspace c (hs c (List.mem_of_head? hc))) fun _ => h

end HeadIs

/-! ### One token -/

theorem stringRest_closes {quote : Char} (hquote : quote ≠ '\\') {r : List Char}
    (h : ClosesString quote r) (rest : List Char) : stringRest quote (r ++ rest) = r := by
  induction h with
  | quote =>
    rw [List.singleton_append, stringRest]
    · rw [if_pos rfl]
    · intro d more hc
      exact absurd hc hquote
  | @char c r hne hescape hline _ ih =>
    rw [List.cons_append, stringRest]
    · rw [if_neg hne, if_neg hline, ih]
    · intro d more hc
      exact absurd hc hescape
  | @escape c r _ ih => rw [List.cons_append, List.cons_append, stringRest, ih]

theorem isWordPart_of_isDigit {c : Char} (h : c.isDigit = true) : isWordPart c = true := by
  by_contra hpart
  have hother : isSignChar c = true ∨ isSpace c = true := by
    by_contra hnone
    simp only [not_or, Bool.not_eq_true] at hnone
    exact hpart (by rw [isWordPart, hnone.1, hnone.2]; rfl)
  rcases hother with hsign | hspace
  · simp only [isSignChar, Bool.or_eq_true, decide_eq_true_eq, List.contains_iff_mem] at hsign
    rcases hsign with hlow | hsign
    · simp only [Char.isDigit, ge_iff_le, Bool.and_eq_true, decide_eq_true_eq,
        UInt32.le_iff_toNat_le] at h
      simp only [Char.toNat] at hlow
      have hzero : '0'.val.toNat = 48 := by decide
      omega
    · have hsigns : ":;\x60\"'@#.,|^&<>=+-*/%?!~()[]\x7b\x7d".toList.all (!·.isDigit) = true := by
        decide
      have hnone := List.all_eq_true.1 hsigns c hsign
      simp [h] at hnone
  · have hquiet := (isSpace_ends hspace).2
    simp [isQuiet, h] at hquiet

theorem numberRest_digits {digits : List Char} (h : ∀ c ∈ digits, c.isDigit = true)
    {text : String} {rest : List Char} (hrest : Stopped .number text rest) (hex : Bool) :
    numberRest hex false (digits ++ rest) = digits := by
  induction digits with
  | nil =>
    refine numberRest_nil (fun c hc => ?_) hex
    simpa [stopsAt] using headIs_iff.1 hrest c hc
  | cons c r ih =>
    obtain ⟨hc, hr⟩ := List.forall_mem_cons.1 h
    have hlower : c ≠ 'e' := by
      rintro rfl
      cases hc
    have hupper : c ≠ 'E' := by
      rintro rfl
      cases hc
    simp [numberRest, isWordPart_of_isDigit hc, hlower, hupper, ih hr]

/-- A text starts with a sign if the sign does or if it is longer and the text goes on
with it. -/
theorem isPrefixOf_append_of_stops {long text : List Char} {rest : List Char}
    (hrest : ∀ c ∈ rest.head?, ¬ text ++ [c] <+: long) :
    long.isPrefixOf (text ++ rest) = long.isPrefixOf text := by
  rw [Bool.eq_iff_iff, List.isPrefixOf_iff_prefix, List.isPrefixOf_iff_prefix]
  refine ⟨fun h => ?_, fun h => h.trans (List.prefix_append _ _)⟩
  by_cases hlength : long.length ≤ text.length
  · exact List.prefix_of_prefix_length_le h (List.prefix_append _ _) hlength
  · cases rest with
    | nil => exact absurd (by simpa using h.length_le) hlength
    | cons c r =>
      have hmore : text ++ [c] <+: text ++ c :: r := ⟨r, by simp⟩
      have hone : (text ++ [c]).length ≤ long.length := by
        rw [List.length_append, List.length_singleton]
        omega
      exact absurd (List.prefix_of_prefix_length_le hmore h hone) (hrest c rfl)

/-- The longest sign at the start of a text is the given one if no longer sign starts with
it and the character after it. -/
theorem signText_of_stops {text : String} (ht : text ∈ codeSigns) {rest : List Char}
    (hrest : Stopped .sign text rest) : signText (text.toList ++ rest) = text.toList := by
  have halone : ∀ text ∈ codeSigns, signText text.toList = text.toList ∧
      (longSigns.find? (fun long => long.toList.isPrefixOf text.toList) = none →
        text.toList.length = 1) ∧
      (longSigns.find? (fun long => long.toList.isPrefixOf text.toList) = some "?." →
        text = "?.") := by
    decide
  obtain ⟨hsign, hsingle, hchain⟩ := halone text ht
  have hlong : ∀ c ∈ rest.head?, (∀ long ∈ longSigns, ¬ text.toList ++ [c] <+: long.toList) ∧
      (text = "?." → c.isDigit = false) := by
    intro c hc
    have hstops := headIs_iff.1 hrest c hc
    simp only [stopsAt, Bool.and_eq_true, List.all_eq_true, Bool.not_eq_true', ← Bool.not_eq_true,
      List.isPrefixOf_iff_prefix] at hstops
    refine ⟨hstops.1, fun htext => ?_⟩
    simpa [htext] using hstops.2
  have hfind : longSigns.find? (fun long => long.toList.isPrefixOf (text.toList ++ rest)) =
      longSigns.find? fun long => long.toList.isPrefixOf text.toList := by
    refine List.find?_congr fun long hmem => ?_
    exact isPrefixOf_append_of_stops fun c hc => (hlong c hc).1 long hmem
  unfold signText at hsign ⊢
  rw [hfind]
  split at hsign
  next hfound =>
    -- the scanner looks behind this sign for a digit
    obtain rfl := hchain hfound
    have hdrop : ("?.".toList ++ rest).drop 2 = rest := rfl
    have hdigit : (rest.head?.map Char.isDigit).getD false = false := by
      cases hrest : rest.head? with
      | none => rfl
      | some c => exact (hlong c hrest).2 rfl
    rw [hdrop, hdigit]
    rfl
  next => exact hsign
  next hnone =>
    obtain ⟨c, hc⟩ := List.length_eq_one_iff.1 (hsingle hnone)
    rw [hc]
    rfl

/-- No code sign starts another kind of piece, but for a point before a digit. -/
theorem codeSigns_head : ∀ text ∈ codeSigns, text.toList ≠ [] ∧ ∀ c ∈ text.toList.head?,
    isSpace c = false ∧ isWordStart c = false ∧ c.isDigit = false ∧
      c ∉ ['/', '"', '\'', '\x60', '#', '(', ')', '[', ']', '\x7b', '\x7d'] ∧ c ≠ '<' ∧
      (c = '.' → text = "." ∨ text = "...") := by
  -- a quantifier over characters would be decided for all of them, so the heads are tested
  have hall : ∀ text ∈ codeSigns, text.toList ≠ [] ∧ headIs (fun c => decide
      (isSpace c = false ∧ isWordStart c = false ∧ c.isDigit = false ∧
        c ∉ ['/', '"', '\'', '\x60', '#', '(', ')', '[', ']', '\x7b', '\x7d'] ∧ c ≠ '<' ∧
        (c = '.' → text = "." ∨ text = "..."))) text.toList = true := by
    decide
  intro text ht
  obtain ⟨hne, hhead⟩ := hall text ht
  exact ⟨hne, fun c hc => of_decide_eq_true (headIs_iff.1 hhead c hc)⟩

theorem pieceOf_codeSign {dialect : Dialect} {state : ScanState} (hcode : state.Code) {text : String}
    (ht : text ∈ codeSigns) {rest : List Char} (hrest : Stopped .sign text rest) :
    ∃ c r, text.toList = c :: r ∧ isSpace c = false ∧
      pieceOf dialect state c (r ++ rest) = .token .sign text.toList state.frames := by
  have hsign := signText_of_stops ht hrest
  obtain ⟨hne, hhead⟩ := codeSigns_head text ht
  obtain ⟨c, r, htext⟩ := List.exists_cons_of_ne_nil hne
  rw [htext] at hhead
  obtain ⟨hspace, hword, hdigit, hother, hless, hdot⟩ := hhead c rfl
  have hpoint : c = '.' → ∀ d ∈ (r ++ rest).head?, d.isDigit = false := by
    intro hc d hd
    rcases hdot hc with rfl | rfl
    · obtain rfl : r = [] := (List.cons.inj htext).2.symm
      simpa [stopsAt] using (Bool.and_eq_true_iff.1 (headIs_iff.1 hrest d hd)).2
    · obtain rfl : r = ['.', '.'] := (List.cons.inj htext).2.symm
      obtain rfl := Option.some.inj hd
      decide
  rw [htext, List.cons_append] at hsign
  refine ⟨c, r, htext, hspace, ?_⟩
  rw [htext]
  exact pieceOf_mark hcode hspace hword hdigit hother hpoint (fun hc => absurd hc hless) hsign

/-- A lexeme is the piece that its text starts with, if it ends there. -/
theorem pieceOf_lexeme {dialect : Dialect} {state : ScanState} (hcode : state.Code)
    {kind : TokenKind} {text : String} (h : IsLexeme kind text) {rest : List Char}
    (hrest : Stopped kind text rest) :
    ∃ c r, text.toList = c :: r ∧ isSpace c = false ∧
      pieceOf dialect state c (r ++ rest) =
        .token kind text.toList (framesAfter kind state.frames) := by
  -- words and brackets are plain tokens
  have hbracket : ∀ (kind : TokenKind) (text : String), Token.Plain ⟨[], kind, text⟩ →
      Token.Ends ⟨[], kind, text⟩ rest → kind ≠ .sign →
        ∃ c r, text.toList = c :: r ∧ isSpace c = false ∧ pieceOf dialect state c (r ++ rest) =
          .token kind text.toList (framesAfter kind state.frames) :=
    fun kind text hplain hends hkind =>
      pieceOf_plain hcode hplain hends fun hsign => absurd hsign hkind
  cases h with
  | @word text h =>
    refine hbracket .word text h (fun c hc => ?_) (by simp)
    simpa [stopsAt] using headIs_iff.1 hrest c hc
  | number hne h =>
    obtain ⟨c, r, htext⟩ := List.exists_cons_of_ne_nil fun hnil => hne (String.toList_inj.1 hnil)
    obtain ⟨hc, hr⟩ := List.forall_mem_cons.1 (htext ▸ h)
    have hpart := isWordPart_of_isDigit hc
    have hspace : isSpace c = false := by
      simpa using (Bool.and_eq_true_iff.1 hpart).2
    have hne : ∀ d : Char, isWordPart d = false → c ≠ d := fun d => isWordPart_ne hpart
    refine ⟨c, r, htext, hspace, ?_⟩
    rw [pieceOf_code hcode, htext]
    simp [codePiece, hspace, hne '/' (by decide), hne '"' (by decide), hne '\'' (by decide),
      hne '\x60' (by decide), hc, numberRest_digits hr hrest, framesAfter]
  | @string text quote r hquote htext h =>
    have hspace : isSpace quote = false := by
      rcases hquote with rfl | rfl <;> decide
    have hslash : quote ≠ '/' := by
      rcases hquote with rfl | rfl <;> decide
    have hescape : quote ≠ '\\' := by
      rcases hquote with rfl | rfl <;> decide
    refine ⟨quote, r, htext, hspace, ?_⟩
    rw [pieceOf_code hcode, htext]
    simp [codePiece, hspace, hslash, hquote.symm, stringRest_closes hescape h, framesAfter]
  | sign h => exact pieceOf_codeSign hcode h hrest
  | opening h =>
    simp only [codeBrackets, List.mem_cons, List.not_mem_nil, or_false] at h
    rcases h with rfl | rfl | rfl <;> exact hbracket _ _ rfl trivial (by simp)
  | closing h =>
    simp only [codeBrackets, List.mem_cons, List.not_mem_nil, or_false] at h
    rcases h with rfl | rfl | rfl <;> exact hbracket _ _ rfl trivial (by simp)

/-- Any token ends before a character that neither words nor long signs have. -/
theorem stopsAt_of_outside {c : Char} (hpart : isWordPart c = false)
    (hlong : ∀ long ∈ longSigns, c ∉ long.toList) (kind : TokenKind) (text : String) :
    stopsAt kind text c = true := by
  have hdot : c ≠ '.' := by
    rintro rfl
    exact hlong "..." (by decide) (by decide)
  have hdigit : c.isDigit = false := by
    by_contra hdigit
    rw [isWordPart_of_isDigit (Bool.not_eq_false _ ▸ hdigit)] at hpart
    cases hpart
  have hmore : ∀ long ∈ longSigns, (text.toList ++ [c]).isPrefixOf long.toList = false := by
    intro long hmem
    by_contra hstarts
    rw [Bool.not_eq_false, List.isPrefixOf_iff_prefix] at hstarts
    exact hlong long hmem (hstarts.subset (by simp))
  cases kind with
  | word => simp [stopsAt, hpart]
  | number => simp [stopsAt, hpart, hdot]
  | sign => simpa [stopsAt, hdigit] using hmore
  | string | regex | template | content | opening | closing => rfl

/-- Any token ends before a space. -/
theorem stopsAt_space {c : Char} (hc : isSpace c = true) (kind : TokenKind) (text : String) :
    stopsAt kind text c = true := by
  have hlong : ∀ long ∈ longSigns, long.toList.all (!isSpace ·) = true := by decide
  refine stopsAt_of_outside (isSpace_ends hc).1 (fun long hmem hd => ?_) kind text
  have hnone := List.all_eq_true.1 (hlong long hmem) c hd
  simp [hc] at hnone

/-- Some signs go on with no character. -/
theorem stopped_alone {mark : String} (h : mark ∈ [",", ":", ";", "..."]) (rest : List Char) :
    Stopped .sign mark rest := by
  refine headIs_iff.2 fun c _ => ?_
  simp only [List.mem_cons, List.not_mem_nil, or_false] at h
  rcases h with rfl | rfl | rfl | rfl <;> simp [stopsAt, longSigns, List.isPrefixOf]

/-- A text has one kind. -/
theorem IsLexeme.kind_unique {kind other : TokenKind} {text : String} (h : IsLexeme kind text)
    (hother : IsLexeme other text) : kind = other := by
  have hcode : ScanState.Code {} := by simp [ScanState.Code]
  obtain ⟨c, r, htext, -, hpiece⟩ := @pieceOf_lexeme .plain {} hcode kind text h [] rfl
  obtain ⟨d, s, htextOther, -, hpieceOther⟩ := @pieceOf_lexeme .plain {} hcode other text hother [] rfl
  obtain ⟨rfl, rfl⟩ := List.cons.inj (htext.symm.trans htextOther)
  rw [hpiece] at hpieceOther
  exact (Piece.token.inj hpieceOther).1

theorem IsLexeme.ne_empty {kind : TokenKind} {text : String} (h : IsLexeme kind text) :
    text.toList ≠ [] := by
  have hcode : ScanState.Code {} := by simp [ScanState.Code]
  obtain ⟨c, r, htext, -⟩ := @pieceOf_lexeme .plain {} hcode kind text h [] rfl
  rw [htext]
  exact List.cons_ne_nil c r

/-! ### Forests -/

/-- Whether a token is one of code that ends where the given characters follow. -/
structure Token.Cut (t : Token) (rest : List Char) : Prop where
  lexeme : IsLexeme t.kind t.text
  apart : t.Apart
  stopped : Stopped t.kind t.text rest

theorem scanFrom_cut {dialect : Dialect} {state : ScanState} (hcode : state.Code)
    (lead : List Trivia) {t : Token} {rest : List Char} (h : t.Cut rest) :
    scanFrom dialect 0 state lead (t.source.toList ++ rest) =
      ⟨lead ++ t.lead, t.kind, t.text⟩ :: scanFrom dialect 0 (state.after t) [] rest :=
  scanFrom_piece hcode h.apart (pieceOf_lexeme hcode h.lexeme h.stopped)

/-- The kinds of tokens that are no brackets. -/
def leafKinds : List TokenKind := [.word, .number, .string, .sign]

namespace Forest

/-- Whether each token of a forest ends where the next one starts, the given characters
following the last. -/
def Cut : Forest → List Char → Prop
  | nil, _ => True
  | leaf t rest, more => t.kind ∈ leafKinds ∧ t.Cut (rest.source.toList ++ more) ∧ rest.Cut more
  | group o inner c rest, more =>
    (∃ bracket, o.kind = .opening bracket ∧ c.kind = .closing bracket) ∧
      o.Cut (inner.source.toList ++ (c.source.toList ++ (rest.source.toList ++ more))) ∧
        inner.Cut (c.source.toList ++ (rest.source.toList ++ more)) ∧
          c.Cut (rest.source.toList ++ more) ∧ rest.Cut more

theorem cut_append {a b : Forest} {more : List Char} :
    (a ++ b).Cut more ↔ a.Cut (b.source.toList ++ more) ∧ b.Cut more := by
  induction a with
  | nil => simp [Cut]
  | leaf t rest ih =>
    simp only [leaf_append, Cut, ih, source_append, String.toList_append, List.append_assoc, and_assoc]
  | group o inner c rest _ ih =>
    simp only [group_append, Cut, ih, source_append, String.toList_append, List.append_assoc, and_assoc]

/-- Blanks may stand before the first token. -/
theorem Cut.leadBy {f : Forest} {more : List Char} (h : f.Cut more)
    (htight : ∀ t ∈ f.first?, t.lead = []) {s : String} (hs : IsGap s) :
    (f.leadBy (gap s)).Cut more := by
  have htoken : ∀ t : Token, t.lead = [] → ∀ rest, t.Cut rest →
      Token.Cut ⟨gap s ++ t.lead, t.kind, t.text⟩ rest := by
    intro t ht rest hcut
    rw [ht, List.append_nil]
    exact ⟨hcut.lexeme, apart_gap hs _ _, hcut.stopped⟩
  cases f with
  | nil => trivial
  | leaf t rest => exact ⟨h.1, htoken t (htight t rfl) _ h.2.1, h.2.2⟩
  | group o inner c rest => exact ⟨h.1, htoken o (htight o rfl) _ h.2.1, h.2.2⟩

theorem Cut.paired {f : Forest} {more : List Char} (h : f.Cut more) : f.Paired := by
  induction f generalizing more with
  | nil => trivial
  | leaf t rest ih => exact ⟨h.1, ih h.2.2⟩
  | group o inner c rest ihInner ihRest => exact ⟨h.1, ihInner h.2.2.1, ihRest h.2.2.2.2⟩

theorem leadBy_nil (f : Forest) : f.leadBy [] = f := by
  cases f <;> rfl

/-- A forest that is cut at its tokens is read from its source. What stood before it goes
to its first token. -/
theorem Cut.scanned {f : Forest} {more : List Char} (h : f.Cut more) {dialect : Dialect}
    {state : ScanState} (hcode : state.Code) (lead : List Trivia) (hlead : f = nil → lead = []) :
    ∃ last : ScanState, last.Code ∧
      scanFrom dialect 0 state lead (f.source.toList ++ more) =
        (f.leadBy lead).tokens ++ scanFrom dialect 0 last [] more := by
  -- only the first token has something before it
  induction f generalizing state lead more with
  | nil =>
    rw [hlead rfl]
    exact ⟨state, hcode, rfl⟩
  | leaf t rest ih =>
    obtain ⟨-, ht, hrest⟩ := h
    obtain ⟨last, hlast, hscan⟩ := ih hrest (hcode.after t) [] fun _ => rfl
    refine ⟨last, hlast, ?_⟩
    rw [source_leaf, String.toList_append, List.append_assoc, scanFrom_cut hcode lead ht, hscan,
      leadBy_nil]
    rfl
  | group o inner c rest ihInner ihRest =>
    obtain ⟨-, ho, hinner, hc, hrest⟩ := h
    obtain ⟨mid, hmid, hscanInner⟩ := ihInner hinner (hcode.after o) [] fun _ => rfl
    obtain ⟨last, hlast, hscan⟩ := ihRest hrest (hmid.after c) [] fun _ => rfl
    refine ⟨last, hlast, ?_⟩
    simp only [source_group, String.toList_append, List.append_assoc]
    rw [scanFrom_cut hcode lead ho, hscanInner, scanFrom_cut hmid [] hc, hscan, leadBy_nil, leadBy_nil]
    simp [Forest.leadBy, tokens]

/-- The module of a script that is cut at its tokens. -/
theorem Cut.read_module {f : Forest} (h : f.Cut []) (hhead : ∀ c ∈ f.source.toList.head?, c ≠ '#')
    (dialect : Dialect) : Module.read dialect f.source = Module.ofStatements (statements f) := by
  have hcode : ScanState.Code {} := by simp [ScanState.Code]
  obtain ⟨last, -, htokens⟩ := @Cut.scanned f [] h dialect {} hcode [] fun _ => rfl
  rw [List.append_nil, leadBy_nil, scanFrom, List.append_nil] at htokens
  unfold Module.read
  rw [scan_of_head hhead, htokens, ofTokens_tokens h.paired]
  simp

end Forest

end ScreenHooks.Script
