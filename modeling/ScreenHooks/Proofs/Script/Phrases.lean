/-
Phrases of code, and lists and types made of them.

A phrase starts with a word or an opening bracket and ends where a sign or a bracket
may stand right after it. Phrases with commas between them, and phrases joined by the
signs of types, are phrases again.

* **`listed_row`** — phrases with commas between them;
* **`specifiers_kept`**, **`bindings_names`** — the names of a list in brackets;
* **`Phrase.joined`**, **`Phrase.applied`**, **`legible_enclosed`** — phrases put together;
* **`IsTypeText.phrase`** — a type built from names is a phrase.
-/
import ScreenHooks.Proofs.Script.Reading

namespace ScreenHooks.Script

open Text

/-! ### Blanks -/

/-- Whether a text has blanks only. -/
def IsGap (s : String) : Prop := ∀ c ∈ s.toList, isSpace c = true

/-- The trivia of blanks before a token. -/
def gap (s : String) : List Trivia := if s = "" then [] else [.blank s]

@[simp] theorem gap_empty : gap "" = [] := rfl

theorem isGap_empty : IsGap "" := by simp [IsGap]

theorem isGap_blank : IsGap " " := by simp [IsGap, isSpace, isBlank]

theorem join_gap (s : String) : String.join ((gap s).map Trivia.text) = s := by
  unfold gap
  split
  next h => rw [h]; rfl
  next => simp [Trivia.text]

@[simp] theorem source_gap (s : String) (kind : TokenKind) (text : String) :
    Token.source ⟨gap s, kind, text⟩ = s ++ text := by
  rw [Token.source, Token.leadText, join_gap]

@[simp] theorem source_tight (kind : TokenKind) (text : String) :
    Token.source ⟨[], kind, text⟩ = text := String.empty_append

@[simp] theorem source_spaced (kind : TokenKind) (text : String) :
    Token.source ⟨Forest.spaced, kind, text⟩ = " " ++ text := source_gap " " kind text

theorem apart_gap {s : String} (h : IsGap s) (kind : TokenKind) (text : String) :
    Token.Apart ⟨gap s, kind, text⟩ := by
  unfold gap
  split
  next => exact .inl rfl
  next hne => exact .inr ⟨s, rfl, hne, h⟩

@[simp] theorem apart_tight (kind : TokenKind) (text : String) : Token.Apart ⟨[], kind, text⟩ :=
  .inl rfl

@[simp] theorem apart_spaced (kind : TokenKind) (text : String) :
    Token.Apart ⟨Forest.spaced, kind, text⟩ := apart_gap isGap_blank kind text

/-! ### Phrases -/

/-- Whether a phrase may start with a token. -/
def Token.Begins (t : Token) : Prop := t.kind = .word ∨ ∃ bracket, t.kind = .opening bracket

/-- Whether a sign or a bracket may stand right after a token. -/
def Token.Complete (t : Token) : Prop :=
  t.kind = .word ∨ (∃ bracket, t.kind = .closing bracket) ∨ t.kind = .sign ∧ t.text = ">"

/-- Whether a forest is a phrase of code with anything before it. -/
structure Row (f : Forest) : Prop where
  legible : f.Legible
  first : ∃ t, f.first? = some t ∧ t.Begins
  last : ∀ t ∈ f.tokens.getLast?, t.Complete

/-- Whether a forest is a phrase of code with nothing before it. -/
structure Phrase (f : Forest) : Prop extends Row f where
  tight : ∀ t ∈ f.first?, t.lead = []

/-- A sign or a bracket follows a complete token. -/
theorem Token.Complete.follows {t next : Token} (ht : t.Complete)
    (hkind : next.kind = .sign ∨ (∃ bracket, next.kind = .opening bracket) ∨
      ∃ bracket, next.kind = .closing bracket)
    (hless : next.kind = .sign → next.text ≠ "<") : t.Follows next := by
  refine ⟨.inr ?_, fun hsign htext => absurd htext (hless hsign)⟩
  rcases ht with ht | ⟨bracket, ht⟩ | ⟨ht, htext⟩ <;>
    rcases hkind with hkind | ⟨bracket', hkind⟩ | ⟨bracket', hkind⟩ <;>
      simp [Token.adjoins, *]

/-- A phrase follows a sign or an opening bracket, and anything after blanks. -/
theorem Token.Begins.follows {t next : Token} (hnext : next.Begins)
    (ht : next.lead ≠ [] ∨ t.kind = .sign ∨ ∃ bracket, t.kind = .opening bracket) :
    t.Follows next := by
  refine ⟨ht.imp_right fun ht => ?_, fun hsign => ?_⟩
  · rcases hnext with hnext | ⟨bracket, hnext⟩ <;> rcases ht with ht | ⟨bracket', ht⟩ <;>
      simp [Token.adjoins, *]
  · rcases hnext with hnext | ⟨bracket, hnext⟩ <;> rw [hnext] at hsign <;> cases hsign

namespace Forest

@[simp] theorem source_append (a b : Forest) : (a ++ b).source = a.source ++ b.source := by
  apply String.toList_inj.1
  rw [String.toList_append, source_toList, source_toList, source_toList, tokens_append]
  exact List.flatMap_append

theorem first?_leadBy (f : Forest) (lead : List Trivia) :
    (f.leadBy lead).first? = f.first?.map fun t => ⟨lead ++ t.lead, t.kind, t.text⟩ := by
  cases f <;> rfl

theorem last_leadBy {f : Forest} {lead : List Trivia} {t : Token}
    (h : t ∈ (f.leadBy lead).tokens.getLast?) :
    ∃ u ∈ f.tokens.getLast?, t.kind = u.kind ∧ t.text = u.text := by
  have hcons : ∀ (u : Token) (ts : List Token),
      t ∈ ((⟨lead ++ u.lead, u.kind, u.text⟩ : Token) :: ts).getLast? →
        ∃ v ∈ (u :: ts).getLast?, t.kind = v.kind ∧ t.text = v.text := by
    intro u ts ht
    cases ts with
    | nil =>
      obtain rfl := Option.some.inj ht
      exact ⟨u, rfl, rfl, rfl⟩
    | cons v ts =>
      rw [List.getLast?_cons_cons] at ht
      exact ⟨t, by rwa [List.getLast?_cons_cons], rfl, rfl⟩
  cases f with
  | nil => cases h
  | leaf u rest => exact hcons u _ h
  | group o inner c rest => exact hcons o _ h

theorem source_leadBy {f : Forest} {t : Token} (h : f.first? = some t) (s : String) :
    (f.leadBy (gap s)).source = s ++ f.source := by
  have htoken : ∀ t : Token, Token.source ⟨gap s ++ t.lead, t.kind, t.text⟩ = s ++ t.source := by
    intro t
    simp only [Token.source, Token.leadText, List.map_append, String.join_append, join_gap,
      String.append_assoc]
  cases f with
  | nil => cases h
  | leaf t rest => simp only [leadBy, source, htoken, String.append_assoc]
  | group o inner c rest => simp only [leadBy, source, htoken, String.append_assoc]

/-- The last token of a forest that is not empty. -/
theorem last_append {a b : Forest} {t : Token} (hb : b.first? = some t) :
    (a ++ b).tokens.getLast? = b.tokens.getLast? := by
  rw [← tokens_head?] at hb
  obtain ⟨ts, hts⟩ := List.head?_eq_some_iff.1 hb
  rw [tokens_append, List.getLast?_append, hts, List.getLast?_cons]
  rfl

end Forest

open Forest

/-- Blanks may stand before the first token. -/
theorem Forest.Legible.leadBy {f : Forest} (h : f.Legible) (htight : ∀ t ∈ f.first?, t.lead = [])
    {s : String} (hs : IsGap s) : (f.leadBy (gap s)).Legible := by
  have happart : ∀ t : Token, t.lead = [] → Token.Apart ⟨gap s ++ t.lead, t.kind, t.text⟩ := by
    intro t ht
    rw [ht, List.append_nil]
    exact apart_gap hs _ _
  cases f with
  | nil => trivial
  | leaf u rest =>
    exact ⟨⟨h.1.1, h.1.2.1, happart u (htight u rfl)⟩, h.2⟩
  | group o inner c rest =>
    obtain ⟨⟨hpair, ho, -, hc⟩, hmore⟩ := h
    exact ⟨⟨hpair, ho, happart o (htight o rfl), hc⟩, hmore⟩

theorem first?_leadBy_begins {f : Forest} (h : ∃ t, f.first? = some t ∧ t.Begins)
    (lead : List Trivia) : ∃ t, (f.leadBy lead).first? = some t ∧ t.Begins := by
  obtain ⟨t, hfirst, hbegins⟩ := h
  exact ⟨⟨lead ++ t.lead, t.kind, t.text⟩, by rw [first?_leadBy, hfirst]; rfl, hbegins⟩

/-- Blanks may stand before a phrase. -/
theorem Phrase.row_leadBy {f : Forest} (h : Phrase f) {s : String} (hs : IsGap s) :
    Row (f.leadBy (gap s)) := by
  refine ⟨h.legible.leadBy h.tight hs, first?_leadBy_begins h.first _, fun u hu => ?_⟩
  obtain ⟨v, hv, hkind, htext⟩ := last_leadBy hu
  have hcomplete := h.last v hv
  rwa [Token.Complete, ← hkind, ← htext] at hcomplete

/-- A row before what may follow its last token. -/
theorem Row.append {a b : Forest} (ha : Row a) (hb : b.Legible) {next : Token}
    (hnext : b.first? = some next) (hfollows : ∀ t : Token, t.Complete → t.Follows next)
    (hlast : ∀ t ∈ b.tokens.getLast?, t.Complete) : Row (a ++ b) where
  legible := by
    refine ha.legible.append hb fun last hl u hu => ?_
    rw [hnext] at hu
    obtain rfl := Option.some.inj hu
    exact hfollows last (ha.last last hl)
  first := by
    obtain ⟨t, hfirst, hbegins⟩ := ha.first
    exact ⟨t, by rw [first?_append, hfirst]; rfl, hbegins⟩
  last t ht := hlast t (last_append hnext ▸ ht)

theorem Phrase.append {a b : Forest} (ha : Phrase a) (h : Row (a ++ b)) : Phrase (a ++ b) := by
  refine ⟨h, fun t ht => ?_⟩
  obtain ⟨u, hfirst, -⟩ := ha.first
  rw [first?_append, hfirst] at ht
  exact ha.tight t (hfirst.trans ht)

/-- A row after a row and one of the signs that join them. -/
theorem Row.join {a b : Forest} (ha : Row a) (hb : Row b) {s mark : String} (hs : IsGap s)
    (hmark : mark ∈ [",", "|", "&", "=>"]) : Row (a ++ sign (gap s) mark b) := by
  have hall : ∀ mark ∈ [",", "|", "&", "=>"], mark ∈ plainSigns ∧ mark ≠ "<" := by decide
  obtain ⟨hplain, hless⟩ := hall mark hmark
  obtain ⟨u, hnext, hbegins⟩ := hb.first
  have hfollows : ∀ next ∈ b.first?, Token.Follows ⟨gap s, .sign, mark⟩ next := by
    rintro next hn
    rw [hnext] at hn
    obtain rfl := Option.some.inj hn
    exact hbegins.follows (.inr (.inl rfl))
  refine ha.append ⟨⟨by simp, hplain, apart_gap hs _ _⟩, hfollows, hb.legible⟩ rfl
    (fun t ht => ht.follows (.inl rfl) fun _ => hless) fun t ht => hb.last t ?_
  have hsame := @last_append (sign (gap s) mark .nil) b u hnext
  exact hsame ▸ ht

/-- A forest in brackets. -/
theorem Forest.Legible.group {f : Forest} (h : f.Legible) (hbegins : ∃ t, f.first? = some t ∧ t.Begins)
    {o c : Token} {bracket : Bracket} (ho : o.kind = .opening bracket) (hc : c.kind = .closing bracket)
    (hplain : (o.Plain ∧ o.Apart) ∧ c.Plain ∧ c.Apart) {rest : Forest} (hrest : rest.Legible)
    (hnext : ∀ next ∈ rest.first?, c.Follows next) : (Forest.group o f c rest).Legible := by
  refine ⟨⟨⟨bracket, ho, hc⟩, hplain.1.1, hplain.1.2, hplain.2⟩, ⟨fun next hn => ?_, h⟩, hnext, hrest⟩
  obtain ⟨t, hfirst, hbegins⟩ := hbegins
  rw [hfirst] at hn
  obtain rfl := Option.some.inj hn
  exact hbegins.follows (.inr (.inr ⟨bracket, ho⟩))

/-- A row in brackets. -/
theorem Row.legible_group {f : Forest} (h : Row f) {o c : Token} {bracket : Bracket}
    (ho : o.kind = .opening bracket) (hc : c.kind = .closing bracket)
    (hplain : (o.Plain ∧ o.Apart) ∧ c.Plain ∧ c.Apart) {rest : Forest} (hrest : rest.Legible)
    (hnext : ∀ next ∈ rest.first?, c.Follows next) : (Forest.group o f c rest).Legible :=
  h.legible.group h.first ho hc hplain hrest hnext

theorem phrase_word {name : String} (h : isWord name = true) : Phrase (word [] name .nil) where
  legible := ⟨⟨by simp, h, apart_tight _ _⟩, nofun, trivial⟩
  first := ⟨_, rfl, .inl rfl⟩
  last t ht := by
    obtain rfl := Option.some.inj ht
    exact .inl rfl
  tight t ht := by
    obtain rfl := Option.some.inj ht
    rfl

/-! ### Lists -/

/-- Phrases with commas between them: blanks stand before the first and after each
comma. -/
def listed (before sep : String) : List Forest → Forest
  | [] => .nil
  | [f] => f.leadBy (gap before)
  | f :: g :: more => f.leadBy (gap before) ++ sign [] "," (listed sep sep (g :: more))

theorem listed_row {before sep : String} (hbefore : IsGap before) (hsep : IsGap sep)
    {items : List Forest} (hne : items ≠ []) (h : ∀ f ∈ items, Phrase f) :
    Row (listed before sep items) := by
  induction items generalizing before with
  | nil => exact absurd rfl hne
  | cons f more ih =>
    have hf := (h f List.mem_cons_self).row_leadBy hbefore
    cases more with
    | nil => exact hf
    | cons g more =>
      have hmore := ih hsep (by simp) fun e he => h e (List.mem_cons_of_mem _ he)
      exact hf.join hmore isGap_empty (by simp)

theorem listed_source (before sep : String) {items : List Forest} (hne : items ≠ [])
    (h : ∀ f ∈ items, Phrase f) : (listed before sep items).source =
      before ++ String.intercalate ("," ++ sep) (items.map Forest.source) := by
  induction items generalizing before with
  | nil => exact absurd rfl hne
  | cons f more ih =>
    obtain ⟨t, hfirst, -⟩ := (h f List.mem_cons_self).first
    cases more with
    | nil => simp [listed, source_leadBy hfirst]
    | cons g more =>
      have hmore := ih sep (by simp) fun e he => h e (List.mem_cons_of_mem _ he)
      simp only [listed, source_append, source_leadBy hfirst, source, hmore, List.map_cons,
        String.intercalate_cons_cons, Token.source, Token.leadText, List.map_nil, String.join_nil,
        String.empty_append, String.append_assoc]

/-- Whether a text is the source of a phrase. -/
def IsPhrase (s : String) : Prop := ∃ f, Phrase f ∧ f.source = s

theorem exists_phrases {texts : List String} (h : ∀ s ∈ texts, IsPhrase s) :
    ∃ items : List Forest, (∀ f ∈ items, Phrase f) ∧ items.map Forest.source = texts := by
  induction texts with
  | nil => exact ⟨[], by simp, rfl⟩
  | cons s more ih =>
    obtain ⟨f, hf, hsource⟩ := h s List.mem_cons_self
    obtain ⟨items, hitems, hmap⟩ := ih fun t ht => h t (List.mem_cons_of_mem _ ht)
    exact ⟨f :: items, List.forall_mem_cons.2 ⟨hf, hitems⟩, by rw [List.map_cons, hsource, hmap]⟩

/-! ### Lists of names -/

/-- A list of names. -/
def namesListed (before sep : String) (names : List String) : Forest :=
  listed before sep (names.map fun name => word [] name .nil)

theorem phrase_names {names : List String} (h : ∀ name ∈ names, isWord name = true) :
    ∀ f ∈ names.map fun name => word [] name .nil, Phrase f := by
  simp only [List.forall_mem_map]
  exact fun name hname => phrase_word (h name hname)

theorem namesListed_row {before sep : String} (hbefore : IsGap before) (hsep : IsGap sep)
    {names : List String} (hne : names ≠ []) (h : ∀ name ∈ names, isWord name = true) :
    Row (namesListed before sep names) :=
  listed_row hbefore hsep (by simpa using hne) (phrase_names h)

theorem map_source_names (names : List String) :
    (names.map fun name => word [] name .nil).map Forest.source = names := by
  have hsource : (Forest.source ∘ fun name => word [] name .nil) = (id : String → String) := by
    funext name
    simp [source, Token.source, Token.leadText]
  rw [List.map_map, hsource, List.map_id]

theorem namesListed_source (before sep : String) {names : List String} (hne : names ≠ [])
    (h : ∀ name ∈ names, isWord name = true) : (namesListed before sep names).source =
      before ++ String.intercalate ("," ++ sep) names := by
  rw [namesListed, listed_source before sep (by simpa using hne) (phrase_names h), map_source_names]

/-- A word has no quotes and no blanks to drop. -/
theorem unquote_word {name : String} (h : isWord name = true) : unquote name = name := by
  obtain ⟨c, r, hchars, hc, hr⟩ := isWord_iff.1 h
  have hpart : ∀ d ∈ c :: r, isWordPart d = true :=
    List.forall_mem_cons.2 ⟨isWordStart_part hc, hr⟩
  have hblank : ∀ d ∈ c :: r, isBlank d = false := by
    intro d hd
    have hspace := hpart d hd
    simp only [isWordPart, isSpace, Bool.and_eq_true, Bool.not_eq_true', Bool.or_eq_false_iff] at hspace
    exact hspace.2.1.1.1
  have hdrop : ∀ cs : List Char, (∀ d ∈ cs, isBlank d = false) → cs.dropWhile isBlank = cs := by
    intro cs hcs
    cases cs with
    | nil => rfl
    | cons d more => exact List.dropWhile_cons_of_neg (by simp [hcs d])
  -- neither end is blank, and no quote stands in front
  have htrim : trim (c :: r) = c :: r := by
    rw [trim, trimStart, hdrop _ hblank, dropWhileEnd, hdrop _ (by simpa [or_comm] using hblank),
      List.reverse_reverse]
  have hquote : isQuote c = false := by
    have hne : ∀ d : Char, isWordPart d = false → c ≠ d :=
      fun d => isWordPart_ne (isWordStart_part hc)
    simp [isQuote, hne '\'' (by decide), hne '"' (by decide), hne '\x60' (by decide)]
  rw [unquote, hchars, unquoteChars, htrim]
  simp only [hquote, Bool.false_and, Bool.false_eq_true, if_false]
  rw [← hchars, String.ofList_toList]

/-- Words with one blank before each. -/
def blankWords (words : List String) : Forest := words.foldr (word spaced) .nil

/-- Words with one blank between them. -/
def spacedWords : List String → Forest
  | [] => .nil
  | name :: more => word [] name (blankWords more)

theorem legible_blankWords {words : List String} (h : ∀ w ∈ words, isWord w = true) :
    (blankWords words).Legible := by
  induction words with
  | nil => trivial
  | cons name more ih =>
    refine ⟨⟨by simp, h name List.mem_cons_self, apart_spaced _ _⟩, fun next hn => ?_,
      ih fun w hw => h w (List.mem_cons_of_mem _ hw)⟩
    cases more with
    | nil => cases hn
    | cons other rest =>
      obtain rfl := Option.some.inj hn
      exact Token.Begins.follows (.inl rfl) (.inl (by simp))

theorem blankWords_tokens (words : List String) :
    (blankWords words).tokens = words.map fun w => ⟨spaced, .word, w⟩ := by
  induction words with
  | nil => rfl
  | cons name more ih => exact congrArg (_ :: ·) ih

theorem spacedWords_source {words : List String} (hne : words ≠ []) :
    (spacedWords words).source = String.intercalate " " words := by
  obtain ⟨name, more, rfl⟩ := List.exists_cons_of_ne_nil hne
  induction more generalizing name with
  | nil => simp [spacedWords, blankWords]
  | cons next rest ih =>
    have hrest := ih next (by simp)
    simp only [spacedWords, source, source_tight] at hrest
    rw [String.intercalate_cons_cons, ← hrest]
    simp only [spacedWords, blankWords, List.foldr_cons, source, source_tight, source_spaced,
      String.append_assoc]

theorem phrase_spacedWords {words : List String} (hne : words ≠ [])
    (h : ∀ w ∈ words, isWord w = true) : Phrase (spacedWords words) := by
  obtain ⟨name, more, rfl⟩ := List.exists_cons_of_ne_nil hne
  have hlegible := legible_blankWords fun w hw => h w (List.mem_cons_of_mem _ hw)
  refine ⟨⟨⟨⟨by simp, h name List.mem_cons_self, apart_tight _ _⟩, fun next hn => ?_, hlegible⟩,
    ⟨_, rfl, .inl rfl⟩, fun t ht => ?_⟩, fun t ht => ?_⟩
  · cases more with
    | nil => cases hn
    | cons other rest =>
      obtain rfl := Option.some.inj hn
      exact Token.Begins.follows (.inl rfl) (.inl (by simp))
  · have hmem := List.mem_of_getLast? ht
    rw [spacedWords, tokens, blankWords_tokens] at hmem
    rcases List.mem_cons.1 hmem with rfl | hmem
    · exact .inl rfl
    · obtain ⟨w, -, rfl⟩ := List.mem_map.1 hmem
      exact .inl rfl
  · obtain rfl := Option.some.inj ht
    rfl

theorem commaParts_blankWords {words : List String} (h : ∀ w ∈ words, isWord w = true)
    (part : List Token) (rest : Forest) : commaParts part (blankWords words ++ rest) =
      commaParts (part ++ words.map fun w => ⟨spaced, .word, w⟩) rest := by
  induction words generalizing part with
  | nil => simp [blankWords]
  | cons name more ih =>
    have hcomma : name ≠ "," := isWord_ne (h name List.mem_cons_self) (by decide)
    have hmore := ih fun w hw => h w (List.mem_cons_of_mem _ hw)
    simp only [blankWords] at hmore ⊢
    simp [commaParts, hcomma, hmore]

/-- The words between the commas of a list. -/
theorem commaParts_listed (before sep : String) {items : List (List String)}
    (h : ∀ words ∈ items, words ≠ [] ∧ ∀ w ∈ words, isWord w = true) :
    (commaParts [] (listed before sep (items.map spacedWords))).map (·.map Token.text) = items := by
  induction items generalizing before with
  | nil => rfl
  | cons words more ih =>
    obtain ⟨hne, hwords⟩ := h words List.mem_cons_self
    obtain ⟨name, others, rfl⟩ := List.exists_cons_of_ne_nil hne
    have hcomma : name ≠ "," := isWord_ne (hwords name List.mem_cons_self) (by decide)
    have hfirst : ∀ rest, commaParts [] ((spacedWords (name :: others)).leadBy (gap before) ++ rest) =
        commaParts (⟨gap before, .word, name⟩ :: others.map fun w => ⟨spaced, .word, w⟩) rest := by
      intro rest
      rw [spacedWords, leadBy, leaf_append, commaParts, if_neg hcomma, List.append_nil,
        commaParts_blankWords fun w hw => hwords w (List.mem_cons_of_mem _ hw)]
      rfl
    have htexts : (⟨gap before, .word, name⟩ :: others.map fun w => ⟨spaced, .word, w⟩ :
        List Token).map Token.text = name :: others := by
      rw [List.map_cons, List.map_map]
      exact congrArg (name :: ·) (List.map_id others)
    -- the list ends, or a comma closes the part
    cases more with
    | nil =>
      have hlast := hfirst .nil
      rw [append_nil] at hlast
      rw [List.map_singleton, listed, hlast, commaParts, List.isEmpty_cons,
        if_neg Bool.false_ne_true, List.map_singleton, htexts]
    | cons next rest =>
      have hmore := ih sep fun words hw => h words (List.mem_cons_of_mem _ hw)
      simp only [List.map_cons, listed] at hmore ⊢
      rw [hfirst, commaParts, if_pos rfl, List.map_cons, htexts, hmore]

/-- The names that a list spells. -/
theorem specifiers_words (before sep : String) {items : List (List String)}
    (h : ∀ words ∈ items, words ≠ [] ∧ ∀ w ∈ words, isWord w = true) :
    specifiers (listed before sep (items.map spacedWords)) = items.filterMap Specifier.ofWords? := by
  conv_rhs => rw [← commaParts_listed before sep h, List.filterMap_map]
  rfl

/-- A name of a list that keeps its name. -/
abbrev Specifier.plain (name : String) : Specifier := ⟨name, name, false⟩

/-- A type of a list that keeps its name. -/
abbrev Specifier.type (name : String) : Specifier := ⟨name, name, true⟩

/-- Whether a name of a list is a word and stays the same. -/
def Specifier.Kept (s : Specifier) : Prop := isWord s.name = true ∧ s.newName = s.name

/-- The text of a name that stays the same. -/
def Specifier.text (s : Specifier) : String := if s.typeOnly then "type " ++ s.name else s.name

/-- The tokens of a name that stays the same. -/
def Specifier.forest (s : Specifier) : Forest :=
  if s.typeOnly then word [] "type" (word spaced s.name .nil) else word [] s.name .nil

/-- The words of a name that stays the same. -/
def Specifier.words (s : Specifier) : List String := if s.typeOnly then ["type", s.name] else [s.name]

theorem Specifier.forest_eq (s : Specifier) : s.forest = spacedWords s.words := by
  unfold Specifier.forest Specifier.words
  split <;> rfl

theorem Specifier.Kept.isWord_words {s : Specifier} (h : s.Kept) :
    s.words ≠ [] ∧ ∀ w ∈ s.words, isWord w = true := by
  have htype : isWord "type" = true := by decide
  unfold Specifier.words
  split <;> simp [h.1, htype]

theorem Specifier.Kept.ofWords? {s : Specifier} (h : s.Kept) : ofWords? s.words = some s := by
  obtain ⟨name, newName, typeOnly⟩ := s
  obtain ⟨hname, rfl⟩ : isWord name = true ∧ newName = name := h
  cases typeOnly <;> simp [words, Specifier.ofWords?, unquote_word hname]

/-- The names of a list in brackets. -/
theorem specifiers_kept (before sep : String) {items : List Specifier}
    (h : ∀ s ∈ items, s.Kept) :
    specifiers (listed before sep (items.map Specifier.forest)) = items := by
  have hforests : items.map Specifier.forest = (items.map Specifier.words).map spacedWords := by
    rw [List.map_map]
    exact List.map_congr_left fun s _ => s.forest_eq
  rw [hforests, specifiers_words before sep
    (List.forall_mem_map.2 fun s hs => (h s hs).isWord_words), List.filterMap_map]
  refine (List.filterMap_congr fun s hs => (h s hs).ofWords?).trans List.filterMap_some

theorem specifiers_names (before sep : String) {names : List String}
    (h : ∀ name ∈ names, isWord name = true) :
    specifiers (namesListed before sep names) = names.map Specifier.plain := by
  have hkept : ∀ s ∈ names.map Specifier.plain, s.Kept :=
    List.forall_mem_map.2 fun name hname => ⟨h name hname, rfl⟩
  have hforests : names.map (fun name => word [] name .nil) =
      (names.map Specifier.plain).map Specifier.forest := by
    rw [List.map_map]
    rfl
  rw [namesListed, hforests, specifiers_kept before sep hkept]

/-- The names that a pattern in curly brackets binds. -/
theorem bindings_names (before sep : String) {names : List String}
    (h : ∀ name ∈ names, isWord name = true) :
    bindingsFrom true .key 0 (namesListed before sep names) = names := by
  have hcomma : isWord "," = false := by decide
  have hdots : isWord "..." = false := by decide
  unfold namesListed
  induction names generalizing before with
  | nil => rfl
  | cons name more ih =>
    have hname := h name List.mem_cons_self
    cases more with
    | nil =>
      simp [listed, leadBy, bindingsFrom, PatternState.token, isWord_ne hname hcomma,
        isWord_ne hname hdots, word?]
    | cons next more =>
      have hmore := ih sep fun n hn => h n (List.mem_cons_of_mem _ hn)
      simp only [List.map_cons] at hmore
      simp [listed, leadBy, bindingsFrom, PatternState.token, PatternState.start,
        isWord_ne hname hcomma, isWord_ne hname hdots, hmore]

/-! ### Statements that name a module -/

/-- A word may stand before a token with blanks between them. -/
theorem legible_word {s name : String} (hs : IsGap s) (hname : isWord name = true) {rest : Forest}
    (hrest : rest.Legible) {next : Token} (hnext : rest.first? = some next)
    (hspaced : next.lead ≠ []) (hless : next.kind = .sign → next.text ≠ "<") :
    (word (gap s) name rest).Legible := by
  refine ⟨⟨by simp, hname, apart_gap hs _ _⟩, fun t ht => ?_, hrest⟩
  rw [hnext] at ht
  obtain rfl := Option.some.inj ht
  exact ⟨.inl hspaced, fun hkind htext => absurd htext (hless hkind)⟩

/-- A statement may start with a word. -/
theorem legible_keyword {name : String} (hname : isWord name = true) {rest : Forest}
    (hrest : rest.Legible) {next : Token} (hnext : rest.first? = some next)
    (hspaced : next.lead ≠ []) (hless : next.kind = .sign → next.text ≠ "<") :
    (word [] name rest).Legible :=
  @legible_word "" name isGap_empty hname rest hrest next hnext hspaced hless

theorem legible_fromModule {text : String} (h : IsQuoted text) : (fromModule text).Legible := by
  have hless : ";" ≠ "<" := by decide
  refine legible_word isGap_blank (by decide) ⟨⟨by simp, h, apart_spaced _ _⟩, ?_,
    ⟨by simp, by simp [Token.Plain, plainSigns], apart_tight _ _⟩, nofun, trivial⟩ rfl (by simp) nofun
  rintro next hn
  obtain rfl := Option.some.inj hn
  exact ⟨.inr rfl, fun _ htext => absurd htext hless⟩

/-- A list in curly brackets from a module. -/
def bracedFrom (inner : Forest) (text : String) : Forest :=
  curly spaced inner spaced (fromModule text)

theorem legible_bracedFrom {inner : Forest} (h : Row inner) {text : String} (htext : IsQuoted text) :
    (bracedFrom inner text).Legible := by
  have hopening : Token.Plain ⟨spaced, .opening .curly, "\x7b"⟩ := rfl
  have hclosing : Token.Plain ⟨spaced, .closing .curly, "\x7d"⟩ := rfl
  refine h.legible_group rfl rfl
    ⟨⟨hopening, apart_spaced _ _⟩, hclosing, apart_spaced _ _⟩ (legible_fromModule htext) ?_
  rintro next hn
  obtain rfl := Option.some.inj hn
  exact Token.Begins.follows (.inl rfl) (.inl (by simp))

/-- The mark of a list of types. -/
theorem legible_type {rest : Forest} (hrest : rest.Legible) {next : Token}
    (hnext : rest.first? = some next) (hspaced : next.lead ≠ [])
    (hless : next.kind = .sign → next.text ≠ "<") : (word spaced "type" rest).Legible :=
  @legible_word " " "type" isGap_blank (by decide) rest hrest next hnext hspaced hless

theorem Specifier.source_forest (s : Specifier) : s.forest.source = s.text := by
  unfold Specifier.forest Specifier.text
  apply String.toList_inj.1
  split <;> simp

theorem Specifier.Kept.phrase {s : Specifier} (h : s.Kept) : Phrase s.forest := by
  rw [s.forest_eq]
  exact phrase_spacedWords h.isWord_words.1 h.isWord_words.2

section FromModule

variable {inner : Forest} {name text : String}

theorem Reads.imports (h : Row inner) (htext : IsQuoted text) :
    Reads (word [] "import" <| bracedFrom inner text)
      (.imports (specifiers inner) (unquote text)) where
  legible := legible_keyword (by decide) (legible_bracedFrom h htext) rfl (by simp) nofun
  first := ⟨_, rfl, rfl, rfl⟩
  read lead rest := at_imports inner text _ rest

theorem Reads.importsTypes (h : Row inner) (htext : IsQuoted text) :
    Reads (word [] "import" <| word spaced "type" <| bracedFrom inner text)
      (.imports (specifiers inner) (unquote text)) where
  legible := legible_keyword (by decide)
    (legible_type (legible_bracedFrom h htext) rfl (by simp) nofun) rfl (by simp) nofun
  first := ⟨_, rfl, rfl, rfl⟩
  read lead rest := at_importsTypes inner text _ rest

theorem Reads.importsDefault (hname : isWord name = true) (htext : IsQuoted text) :
    Reads (word [] "import" <| word spaced name <| fromModule text)
      (.imports [⟨"default", name, false⟩] (unquote text)) where
  legible := legible_keyword (by decide) (@legible_word " " name isGap_blank hname _
    (legible_fromModule htext) _ rfl (by simp) nofun) rfl (by simp) nofun
  first := ⟨_, rfl, rfl, rfl⟩
  read lead rest := at_importsDefault hname htext _ rest

theorem Reads.list (h : Row inner) (htext : IsQuoted text) :
    Reads (word [] "export" <| bracedFrom inner text)
      (.exportList (specifiers inner) (some (unquote text)) false) where
  legible := legible_keyword (by decide) (legible_bracedFrom h htext) rfl (by simp) nofun
  first := ⟨_, rfl, rfl, rfl⟩
  read lead rest := at_list inner text _ rest

theorem Reads.typeList (h : Row inner) (htext : IsQuoted text) :
    Reads (word [] "export" <| word spaced "type" <| bracedFrom inner text)
      (.exportList (specifiers inner) (some (unquote text)) true) where
  legible := legible_keyword (by decide)
    (legible_type (legible_bracedFrom h htext) rfl (by simp) nofun) rfl (by simp) nofun
  first := ⟨_, rfl, rfl, rfl⟩
  read lead rest := at_typeList inner text _ rest

theorem Reads.typeStar (htext : IsQuoted text) :
    Reads (word [] "export" <| word spaced "type" <| sign spaced "*" <| fromModule text)
      (.exportTypeStar (unquote text)) where
  legible := by
    refine legible_keyword (by decide) (legible_type ⟨⟨by simp, by simp [Token.Plain, plainSigns],
      apart_spaced _ _⟩, fun t ht => ?_, legible_fromModule htext⟩ rfl (by simp) fun _ => by decide)
      rfl (by simp) nofun
    obtain rfl := Option.some.inj ht
    exact Token.Begins.follows (.inl rfl) (.inl (by simp))
  first := ⟨_, rfl, rfl, rfl⟩
  read lead rest := at_typeStar text _ rest

end FromModule

/-! ### Types -/

/-- Texts of one type, or of several types with commas between them. -/
inductive TypeCount where
  | one
  | several

/-- The texts of types that are built from names by unions, intersections, arrays,
generics and parentheses, with any blanks between their tokens. A name before type
arguments is no operator. -/
inductive IsTypeText : TypeCount → String → Prop where
  | name {text : String} (h : isWord text = true) : IsTypeText .one text
  | union {a b before after : String} (ha : IsTypeText .one a) (hb : IsTypeText .one b)
      (hbefore : IsGap before) (hafter : IsGap after) :
      IsTypeText .one (a ++ before ++ "|" ++ after ++ b)
  | intersection {a b before after : String} (ha : IsTypeText .one a) (hb : IsTypeText .one b)
      (hbefore : IsGap before) (hafter : IsGap after) :
      IsTypeText .one (a ++ before ++ "&" ++ after ++ b)
  | array {a before inside : String} (ha : IsTypeText .one a) (hbefore : IsGap before)
      (hinside : IsGap inside) : IsTypeText .one (a ++ before ++ "[" ++ inside ++ "]")
  | generic {head arguments before inside after : String} (hhead : isWord head = true)
      (hoperator : head ∉ operatorWords) (harguments : IsTypeText .several arguments)
      (hbefore : IsGap before) (hinside : IsGap inside) (hafter : IsGap after) :
      IsTypeText .one (head ++ before ++ "<" ++ inside ++ arguments ++ after ++ ">")
  | parenthesized {a inside after : String} (ha : IsTypeText .one a) (hinside : IsGap inside)
      (hafter : IsGap after) : IsTypeText .one ("(" ++ inside ++ a ++ after ++ ")")
  | single {a : String} (ha : IsTypeText .one a) : IsTypeText .several a
  | more {a b before after : String} (ha : IsTypeText .one a) (hb : IsTypeText .several b)
      (hbefore : IsGap before) (hafter : IsGap after) :
      IsTypeText .several (a ++ before ++ "," ++ after ++ b)

/-- Two forests that a sign joins. -/
def joined (a : Forest) (before mark after : String) (b : Forest) : Forest :=
  a ++ sign (gap before) mark (b.leadBy (gap after))

/-- A forest with square brackets after it. -/
def arrayed (f : Forest) (before inside : String) : Forest :=
  f ++ square (gap before) .nil (gap inside) .nil

/-- The text of an opening bracket of code. -/
def Bracket.opens : Bracket → String
  | round => "("
  | square => "["
  | curly => "\x7b"
  | _ => ""

/-- The text of a closing bracket of code. -/
def Bracket.closes : Bracket → String
  | round => ")"
  | square => "]"
  | curly => "\x7d"
  | _ => ""

/-- A forest in brackets. -/
def enclosed (bracket : Bracket) (inside : String) (f : Forest) (after : String) : Forest :=
  .group ⟨[], .opening bracket, bracket.opens⟩ (f.leadBy (gap inside))
    ⟨gap after, .closing bracket, bracket.closes⟩ .nil

/-- A name with a forest in angle brackets after it. -/
def applied (head before inside : String) (f : Forest) (after : String) : Forest :=
  word [] head <| sign (gap before) "<" <| f.leadBy (gap inside) ++ sign (gap after) ">" .nil

section Source

variable {f : Forest} {t : Token} (h : f.first? = some t)

include h

theorem source_joined (a : Forest) (before mark after : String) :
    (joined a before mark after f).source = a.source ++ before ++ mark ++ after ++ f.source := by
  simp only [joined, source_append, source, source_leadBy h, Token.source, Token.leadText, join_gap,
    String.append_assoc]

theorem source_enclosed (bracket : Bracket) (inside after : String) :
    (enclosed bracket inside f after).source =
      bracket.opens ++ inside ++ f.source ++ after ++ bracket.closes := by
  simp only [enclosed, source, source_leadBy h, Token.source, Token.leadText, join_gap,
    String.append_assoc, String.append_empty, List.map_nil, String.join_nil, String.empty_append]

theorem source_applied (head before inside after : String) :
    (applied head before inside f after).source =
      head ++ before ++ "<" ++ inside ++ f.source ++ after ++ ">" := by
  simp only [applied, source_append, source, source_leadBy h, Token.source, Token.leadText, join_gap,
    String.append_assoc, String.append_empty, List.map_nil, String.join_nil, String.empty_append]

end Source

theorem source_enclosed_nil (bracket : Bracket) (s : String) :
    (enclosed bracket "" .nil s).source = bracket.opens ++ s ++ bracket.closes := by
  simp only [enclosed, leadBy, source, Token.source, Token.leadText, join_gap, String.append_assoc,
    String.append_empty, List.map_nil, String.join_nil, String.empty_append]

theorem source_arrayed (f : Forest) (before inside : String) :
    (arrayed f before inside).source = f.source ++ before ++ "[" ++ inside ++ "]" := by
  simp only [arrayed, source_append, source, Token.source, Token.leadText, join_gap,
    String.append_assoc, String.append_empty]

/-- Phrases that a sign joins. -/
theorem Phrase.joined {a b : Forest} (ha : Phrase a) (hb : Phrase b) {mark before after : String}
    (hmark : mark ∈ [",", "|", "&", "=>"]) (hbefore : IsGap before) (hafter : IsGap after) :
    Phrase (joined a before mark after b) :=
  ha.append (ha.join (hb.row_leadBy hafter) hbefore hmark)

/-- Square brackets after a phrase. -/
theorem Phrase.arrayed {f : Forest} (h : Phrase f) {before inside : String} (hbefore : IsGap before)
    (hinside : IsGap inside) : Phrase (arrayed f before inside) := by
  have hlegible : (square (gap before) .nil (gap inside) .nil).Legible :=
    ⟨⟨⟨.square, rfl, rfl⟩, rfl, apart_gap hbefore _ _, rfl, apart_gap hinside _ _⟩,
      ⟨nofun, trivial⟩, nofun, trivial⟩
  refine h.append (h.toRow.append hlegible rfl (fun t ht => ?_) fun t ht => ?_)
  · exact ht.follows (.inr (.inl ⟨_, rfl⟩)) nofun
  · obtain rfl := Option.some.inj ht
    exact .inr (.inl ⟨_, rfl⟩)

/-- A group in brackets is a phrase. -/
theorem phrase_group {o inner c : _} (h : (Forest.group o inner c .nil).Legible) (ho : o.lead = []) :
    Phrase (.group o inner c .nil) := by
  obtain ⟨bracket, hopening, hclosing⟩ := h.1.1
  refine ⟨⟨h, ⟨o, rfl, .inr ⟨bracket, hopening⟩⟩, fun t ht => ?_⟩, fun t ht => ?_⟩
  · rw [tokens, ← List.cons_append, List.getLast?_append] at ht
    obtain rfl := Option.some.inj ht
    exact .inr (.inl ⟨bracket, hclosing⟩)
  · obtain rfl := Option.some.inj ht
    exact ho

/-- Round or curly brackets around what starts as a phrase, or around nothing. -/
theorem legible_enclosed {f : Forest} (h : f.Legible) (htight : ∀ t ∈ f.first?, t.lead = [])
    (hbegins : f = .nil ∨ ∃ t, f.first? = some t ∧ t.Begins) {bracket : Bracket}
    (hbracket : bracket = .round ∨ bracket = .curly) {inside after : String} (hinside : IsGap inside)
    (hafter : IsGap after) : (enclosed bracket inside f after).Legible := by
  have hplain : (Token.Plain ⟨[], .opening bracket, bracket.opens⟩ ∧
      Token.Plain ⟨gap after, .closing bracket, bracket.closes⟩) := by
    rcases hbracket with rfl | rfl <;> exact ⟨rfl, rfl⟩
  rcases hbegins with rfl | hbegins
  · exact ⟨⟨⟨bracket, rfl, rfl⟩, hplain.1, apart_tight _ _, hplain.2, apart_gap hafter _ _⟩,
      ⟨nofun, trivial⟩, nofun, trivial⟩
  · exact (h.leadBy htight hinside).group (first?_leadBy_begins hbegins _) rfl rfl
      ⟨⟨hplain.1, apart_tight _ _⟩, hplain.2, apart_gap hafter _ _⟩ trivial nofun

/-- Parentheses around a phrase. -/
theorem Phrase.enclosed {f : Forest} (h : Phrase f) {inside after : String}
    (hinside : IsGap inside) (hafter : IsGap after) : Phrase (enclosed .round inside f after) :=
  phrase_group (legible_enclosed h.legible h.tight (.inr h.first) (.inl rfl) hinside hafter) rfl

/-- Type arguments after a name. -/
theorem Phrase.applied {f : Forest} (h : Phrase f) {head before inside after : String}
    (hhead : isWord head = true) (hoperator : head ∉ operatorWords) (hbefore : IsGap before)
    (hinside : IsGap inside) (hafter : IsGap after) :
    Phrase (applied head before inside f after) := by
  have hrow := h.row_leadBy hinside
  have hclose : (sign (gap after) ">" .nil).Legible :=
    ⟨⟨by simp, by simp [Token.Plain, plainSigns], apart_gap hafter _ _⟩, nofun, trivial⟩
  have hend : ∀ t ∈ (sign (gap after) ">" .nil).tokens.getLast?, t.Complete := by
    intro t ht
    obtain rfl := Option.some.inj ht
    exact .inr (.inr ⟨rfl, rfl⟩)
  have hless : ">" ≠ "<" := by decide
  have harguments : Row (f.leadBy (gap inside) ++ sign (gap after) ">" .nil) :=
    hrow.append hclose rfl (fun t ht => ht.follows (.inl rfl) fun _ => hless) hend
  obtain ⟨u, hnext, hnextBegins⟩ := harguments.first
  -- the head, the bracket and the arguments follow one another
  refine ⟨⟨⟨⟨by simp, hhead, apart_tight _ _⟩, ?_, ⟨by simp, by simp [Token.Plain, plainSigns],
    apart_gap hbefore _ _⟩, ?_, harguments.legible⟩, ⟨_, rfl, .inl rfl⟩, fun t ht => ?_⟩, ?_⟩
  · rintro next hn
    obtain rfl := Option.some.inj hn
    exact ⟨.inr rfl, fun _ _ => by simp [Token.endsOperand, hoperator]⟩
  · intro next hn
    rw [hnext] at hn
    obtain rfl := Option.some.inj hn
    exact hnextBegins.follows (.inr (.inl rfl))
  · have hsame := @last_append (word [] head <| sign (gap before) "<" .nil) _ u hnext
    exact harguments.last t (hsame ▸ ht)
  · intro t ht
    obtain rfl := Option.some.inj ht
    rfl

/-- A type built from names is a phrase. -/
theorem IsTypeText.phrase {count : TypeCount} {text : String} (h : IsTypeText count text) :
    IsPhrase text := by
  -- signs between two types are all handled alike
  have hjoined : ∀ {a b : Forest} {mark before after : String}, Phrase a → Phrase b →
      mark ∈ [",", "|", "&", "=>"] → IsGap before → IsGap after →
        IsPhrase (a.source ++ before ++ mark ++ after ++ b.source) := by
    intro a b mark before after ha hb hmark hbefore hafter
    obtain ⟨t, hfirst, -⟩ := hb.first
    exact ⟨_, ha.joined hb hmark hbefore hafter, source_joined hfirst a before mark after⟩
  induction h with
  | @name text h => exact ⟨_, phrase_word h, by simp [source, Token.source, Token.leadText]⟩
  | union _ _ hbefore hafter iha ihb =>
    obtain ⟨f, hf, rfl⟩ := iha
    obtain ⟨g, hg, rfl⟩ := ihb
    exact hjoined hf hg (by simp) hbefore hafter
  | intersection _ _ hbefore hafter iha ihb =>
    obtain ⟨f, hf, rfl⟩ := iha
    obtain ⟨g, hg, rfl⟩ := ihb
    exact hjoined hf hg (by simp) hbefore hafter
  | array _ hbefore hinside ih =>
    obtain ⟨f, hf, rfl⟩ := ih
    exact ⟨_, hf.arrayed hbefore hinside, source_arrayed f _ _⟩
  | generic hhead hoperator _ hbefore hinside hafter ih =>
    obtain ⟨f, hf, rfl⟩ := ih
    obtain ⟨t, hfirst, -⟩ := hf.first
    exact ⟨_, hf.applied hhead hoperator hbefore hinside hafter, source_applied hfirst _ _ _ _⟩
  | parenthesized _ hinside hafter ih =>
    obtain ⟨f, hf, rfl⟩ := ih
    obtain ⟨t, hfirst, -⟩ := hf.first
    exact ⟨_, hf.enclosed hinside hafter, source_enclosed hfirst .round _ _⟩
  | single _ iha => exact iha
  | more _ _ hbefore hafter iha ihb =>
    obtain ⟨f, hf, rfl⟩ := iha
    obtain ⟨g, hg, rfl⟩ := ihb
    exact hjoined hf hg (by simp) hbefore hafter

end ScreenHooks.Script
