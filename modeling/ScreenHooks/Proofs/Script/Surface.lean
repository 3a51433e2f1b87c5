/-
Surfaces that are read back.

What a module shows to others are the statements by which it exports, imports and
declares. Each kind of statement is written in one way here, with any names and any
specifiers in it, and a script of such statements is read as just these statements.

* **`Surface.Spelled.states`** — one statement;
* **`read_surface`** — the exports, imports and local names of a script.
-/
import ScreenHooks.Proofs.Hook.Written
import ScreenHooks.Proofs.Table

namespace ScreenHooks.Script

open Text Forest

/-! ### Names -/

/-- The words that are keywords in some places only. -/
def contextualWords : List String :=
  ["implements", "interface", "let", "package", "private", "protected", "public", "static", "yield",
   "abstract", "accessor", "any", "as", "asserts", "assert", "async", "await", "bigint", "boolean",
   "constructor", "declare", "from", "get", "global", "infer", "intrinsic", "is", "keyof", "module",
   "namespace", "never", "number", "object", "of", "out", "override", "readonly", "require",
   "satisfies", "set", "string", "symbol", "type", "undefined", "unique", "unknown", "using"]

/-- A name that is no keyword in any place. -/
structure PlainName (s : String) : Prop extends Hook.Identifier s where
  contextual : s ∉ contextualWords

instance (s : String) : Decidable (PlainName s) :=
  decidable_of_iff (Hook.Identifier s ∧ s ∉ contextualWords)
    ⟨fun h => ⟨h.1, h.2⟩, fun h => ⟨h.toIdentifier, h.contextual⟩⟩

theorem PlainName.ne_contextual {s keyword : String} (h : PlainName s)
    (hkeyword : keyword ∈ contextualWords) : s ≠ keyword := by
  rintro rfl
  exact h.contextual hkeyword

/-- A name is in no list of keywords. -/
theorem PlainName.not_mem {s : String} (h : PlainName s) {keywords : List String}
    (hkeywords : ∀ w ∈ keywords, w ∈ reservedWords ∨ w ∈ contextualWords) : s ∉ keywords := by
  intro hmem
  rcases hkeywords s hmem with hreserved | hcontextual
  · exact h.ne hreserved rfl
  · exact h.contextual hcontextual

/-- Whether a text may be a specifier in single quotes: it needs no escapes. -/
def IsSource (s : String) : Prop := ∀ c ∈ s.toList, c ≠ '\'' ∧ c ≠ '\\' ∧ c ≠ '\n'

instance (s : String) : Decidable (IsSource s) := List.decidableBAll _ s.toList

/-- A specifier in its quotes. -/
def quoted (source : String) : String := "'" ++ source ++ "'"

theorem IsSource.isQuoted {s : String} (h : IsSource s) : IsQuoted (quoted s) :=
  ⟨s.toList, by simp [quoted], h⟩

theorem IsSource.unquote_quoted {s : String} (h : IsSource s) : unquote (quoted s) = s := by
  have hplain : ∀ c ∈ s.toList, c ≠ '\\' ∧ c ≠ '\'' := fun c hc => ⟨(h c hc).2.1, (h c hc).1⟩
  have hsame : quoted s = singleQuoted s := by
    apply String.toList_inj.1
    simp [quoted, singleQuoted, escapeSingle_of_plain _ hplain]
  rw [hsame, unquote_singleQuoted s hplain]

/-! ### Lists -/

/-- A name of a list: it may be marked as a type, and get another name. -/
structure Item where
  name : String
  newName? : Option String := none
  typeOnly : Bool := false

namespace Item

/-- The text of a name of a list. -/
def text (item : Item) : String :=
  (if item.typeOnly then "type " else "") ++ item.name ++
    match item.newName? with
    | some newName => " as " ++ newName
    | none => ""

variable {item : Item}

/-- Whether the names of an item are names. -/
structure Spelled (item : Item) : Prop where
  name : PlainName item.name
  newName : ∀ newName ∈ item.newName?, PlainName newName

instance : Decidable item.Spelled :=
  decidable_of_iff (PlainName item.name ∧ ∀ newName ∈ item.newName?, PlainName newName)
    ⟨fun h => ⟨h.1, h.2⟩, fun h => ⟨h.name, h.newName⟩⟩

/-- What an item stands for. -/
def specifier (item : Item) : Specifier :=
  ⟨item.name, item.newName?.getD item.name, item.typeOnly⟩

/-- The words of an item. -/
def words (item : Item) : List String :=
  (if item.typeOnly then ["type"] else []) ++ item.name ::
    match item.newName? with
    | some newName => ["as", newName]
    | none => []

theorem words_ne_nil (item : Item) : item.words ≠ [] := by simp [words]

theorem Spelled.isWord_words (h : item.Spelled) : ∀ w ∈ item.words, isWord w = true := by
  have hkeywords : isWord "type" = true ∧ isWord "as" = true := by decide
  obtain ⟨name, newName?, typeOnly⟩ := item
  have hname := h.name.word
  cases newName? with
  | none => cases typeOnly <;> simp [words, hname, hkeywords]
  | some newName =>
    have hnew := (h.newName newName rfl).word
    cases typeOnly <;> simp [words, hname, hnew, hkeywords]

theorem Spelled.ofWords? (h : item.Spelled) :
    Specifier.ofWords? item.words = some item.specifier := by
  obtain ⟨name, newName?, typeOnly⟩ := item
  have hname := unquote_word h.name.word
  cases newName? with
  | none => cases typeOnly <;> simp [words, Specifier.ofWords?, specifier, hname]
  | some newName =>
    have hnew := unquote_word (h.newName newName rfl).word
    cases typeOnly <;> simp [words, Specifier.ofWords?, specifier, hname, hnew]

theorem intercalate_words (item : Item) : String.intercalate " " item.words = item.text := by
  obtain ⟨name, newName?, typeOnly⟩ := item
  apply String.toList_inj.1
  cases newName? <;> cases typeOnly <;> simp [words, text, String.intercalate_cons_cons]

end Item

/-! ### Statements tree by tree -/

section At

variable {name text : String} (lead : List Trivia) (rest : Forest)

theorem at_class (hname : PlainName name) :
    Statement.at (word lead "export" <| word spaced "class" <| word spaced name <|
      curly spaced .nil [] rest) = (.exported (.classType name []), rest) := by
  have hextends : name ≠ "extends" := hname.ne (by decide)
  have himplements : name ≠ "implements" := hname.ne_contextual (by decide)
  rw [at_export (by simp)]
  simp [exportAt, exportedAt, named?, declarationAt?,
    plainDeclarationAt?, classAt?, body?, bodyFrom?, markedMethods_nil, hextends, himplements]

theorem at_interface (inner : Forest) (mid final : List Trivia) :
    Statement.at (word lead "export" <| word spaced "interface" <| word spaced name <|
      curly mid inner final rest) =
        (.exported (.interfaceType name (interfaceMethods inner)), rest) := by
  rw [at_export (by simp)]
  simp [exportAt, exportedAt, named?, declarationAt?,
    plainDeclarationAt?, interfaceAt?, body?, bodyFrom?]

theorem at_alias (hname : isWord name = true) :
    Statement.at (word lead "export" <| word spaced "type" <| word spaced name <|
      sign spaced "=" <| word spaced "string" <| sign [] ";" rest) =
        (.exported (.typeAlias name), rest) := by
  have hstar : name ≠ "*" := isWord_ne hname (by decide)
  have hsize : typeSize (word spaced "string" <| sign [] ";" rest) = 1 := by
    simp [typeSize, typeSizeFrom, TypeState.step, TypeState.operandToken, TypeState.afterToken,
      TypeState.complete, typeOperators]
  rw [at_export (by simp)]
  simp [exportAt, exportedAt, named?, drop, declarationAt?,
    plainDeclarationAt?, aliasAt?, dropAngles, dropText, hstar, hsize]

theorem passes_number : Passes {} (.leaf ⟨spaced, .number, "1"⟩ .nil) .done :=
  passes_literal 0 spaced (.inr rfl)

theorem at_constant (hname : PlainName name) :
    Statement.at (word lead "export" <| word spaced "const" <| word spaced name <|
      sign spaced "=" <| .leaf ⟨spaced, .number, "1"⟩ <| sign [] ";" rest) =
        (.exported (.bindings [name]), rest) := by
  have hread := @variablesAt?_value (word spaced name .nil) .nil (.leaf ⟨spaced, .number, "1"⟩ .nil)
    .done ⟨rfl, rfl⟩ (fun _ => by simp [dropTyping, dropText]) passes_number rest
  have henum : name ≠ "enum" := hname.ne (by decide)
  exact at_exported hread (by simpa using henum) lead

theorem at_default (hname : PlainName name) :
    Statement.at (word lead "export" <| word spaced "default" <| word spaced name <|
      sign [] ";" rest) = (.defaultName name, rest) := by
  have hat : name ≠ "@" := isWord_ne hname.word (by decide)
  have hless : name ≠ "<" := isWord_ne hname.word (by decide)
  have hkeyword : name ∉ defaultKeywords := hname.not_mem (by decide)
  have hvalue : name ∉ valueWords := hname.not_mem (by decide)
  have hsize : expressionFrom false {} 0 (word spaced name <| sign [] ";" rest) = (1, false) := by
    have hpasses := passes_operand spaced hname.isOperand (sign [] ";" rest)
    rw [leaf_append, nil_append] at hpasses
    rw [hpasses, expressionFrom_semicolon]
    rfl
  rw [at_export (by simp)]
  simp [exportAt, named?, drop, defaultAt, defaultExpression,
    startsArrow, dropAngles, dropTyping, dropText, hat, hless, hkeyword, hvalue, hsize,
    hname.ne (show "class" ∈ _ by decide), hname.ne (show "function" ∈ _ by decide),
    hname.ne_contextual (show "async" ∈ _ by decide)]

theorem source?_semicolon : source? (sign [] ";" rest) = none := by
  cases rest <;> simp [source?]

theorem at_localList (inner : Forest) :
    Statement.at (word lead "export" <| curly spaced inner spaced <| sign [] ";" rest) =
      (.exportList (specifiers inner) none false, rest) := by
  rw [at_export (by simp)]
  simp [exportAt, listAt, source?_semicolon, dropText]

theorem at_localTypeList (inner : Forest) :
    Statement.at (word lead "export" <| word spaced "type" <| curly spaced inner spaced <|
      sign [] ";" rest) = (.exportList (specifiers inner) none true, rest) := by
  rw [at_export (by simp)]
  simp [exportAt, listAt, source?_semicolon, dropText]

theorem at_star :
    Statement.at (word lead "export" <| sign spaced "*" <| fromModule text ++ rest) =
      (.exportStar (unquote text), rest) := by
  rw [at_export (by simp)]
  simp [exportAt, starAt, source?_fromModule]

theorem at_space (hname : isWord name = true) :
    Statement.at (word lead "export" <| sign spaced "*" <| word spaced "as" <| word spaced name <|
      fromModule text ++ rest) = (.exportSpace name (unquote text), rest) := by
  have hspace : spaceName ⟨spaced, .word, "as"⟩ ⟨spaced, .word, name⟩ = name := by
    simp [spaceName, Token.comments, Trivia.comment?, unquote_word hname]
  have hnone : source? (word spaced "as" <| word spaced name <| fromModule text ++ rest) = none := by
    simp [source?]
  rw [at_export (by simp)]
  simp [exportAt, starAt, hnone, source?_fromModule, hspace]

theorem at_importsBoth (hname : PlainName name) (inner : Forest) :
    Statement.at (word lead "import" <| word spaced name <| sign [] "," <|
      curly spaced inner spaced <| fromModule text ++ rest) =
        (.imports (⟨"default", name, false⟩ :: specifiers inner) (unquote text), rest) := by
  have htype : name ≠ "type" := hname.ne_contextual (by decide)
  have hcolon : name ≠ ":" := isWord_ne hname.word (by decide)
  have hdot : name ≠ "." := isWord_ne hname.word (by decide)
  rw [at_import (by simpa using hcolon) (by simpa using hdot) rfl]
  simp [importAt, named?, importClause, importedNames, dropText, source?_fromModule, htype]

theorem at_importSpace :
    Statement.at (word lead "import" <| sign spaced "*" <| word spaced "as" <| word spaced name <|
      fromModule text ++ rest) = (.imports [⟨"*", name, false⟩] (unquote text), rest) := by
  rw [at_import (by simp) (by simp) rfl]
  simp [importAt, named?, importClause, importedNames, source?_fromModule]

end At

/-! ### Forests that are read back -/

theorem legible_semicolon : (sign [] ";" .nil).Legible :=
  ⟨⟨by simp, by simp [Token.Plain, plainSigns], apart_tight _ _⟩, nofun, trivial⟩

theorem legible_emptyCurly : (curly spaced .nil [] .nil).Legible :=
  ⟨⟨⟨.curly, rfl, rfl⟩, rfl, apart_spaced _ _, rfl, apart_tight _ _⟩, ⟨nofun, trivial⟩, nofun,
    trivial⟩

section Legible

variable {name : String} {rest inner : Forest} {next : Token}

theorem legible_spaced (hname : isWord name = true) (hrest : rest.Legible)
    (hnext : rest.first? = some next) (hspaced : next.lead ≠ [])
    (hless : next.kind = .sign → next.text ≠ "<") : (word spaced name rest).Legible :=
  @legible_word " " name isGap_blank hname rest hrest next hnext hspaced hless

/-- A name at the end of a statement. -/
theorem legible_ended (hname : isWord name = true) :
    (word spaced name <| sign [] ";" .nil).Legible := by
  refine ⟨⟨by simp, hname, apart_spaced _ _⟩, fun t ht => ?_, legible_semicolon⟩
  obtain rfl := Option.some.inj ht
  have hless : ";" ≠ "<" := by decide
  exact Token.Complete.follows (.inl rfl) (.inl rfl) fun _ => hless

/-- A sign with blanks on both sides. -/
theorem legible_apart {mark : String} (hmark : mark ∈ plainSigns) (hrest : rest.Legible)
    (hnext : rest.first? = some next) (hspaced : next.lead ≠ []) (hkind : next.kind ≠ .sign) :
    (sign spaced mark rest).Legible := by
  refine ⟨⟨by simp, hmark, apart_spaced _ _⟩, fun t ht => ?_, hrest⟩
  rw [hnext] at ht
  obtain rfl := Option.some.inj ht
  exact ⟨.inl hspaced, fun hsign => absurd hsign hkind⟩

/-- A list in curly brackets that ends a statement. -/
theorem legible_localList (h : Row inner) :
    (curly spaced inner spaced <| sign [] ";" .nil).Legible := by
  have hopening : Token.Plain ⟨spaced, .opening .curly, "\x7b"⟩ := rfl
  have hclosing : Token.Plain ⟨spaced, .closing .curly, "\x7d"⟩ := rfl
  refine h.legible_group rfl rfl
    ⟨⟨hopening, apart_spaced _ _⟩, hclosing, apart_spaced _ _⟩ legible_semicolon ?_
  rintro t ht
  obtain rfl := Option.some.inj ht
  have hless : ";" ≠ "<" := by decide
  exact Token.Complete.follows (.inr (.inl ⟨_, rfl⟩)) (.inl rfl) fun _ => hless

theorem legible_one : (.leaf ⟨spaced, .number, "1"⟩ <| sign [] ";" .nil : Forest).Legible := by
  refine ⟨⟨by simp, rfl, apart_spaced _ _⟩, fun t ht => ?_, legible_semicolon⟩
  obtain rfl := Option.some.inj ht
  have hless : ";" ≠ "<" := by decide
  exact ⟨.inr rfl, fun _ htext => absurd htext hless⟩

end Legible

section Reads

variable {name text : String} {inner : Forest}

theorem Reads.classType (hname : PlainName name) :
    Reads (word [] "export" <| word spaced "class" <| word spaced name <| curly spaced .nil [] .nil)
      (.exported (.classType name [])) where
  legible := legible_keyword (by decide) (legible_spaced (by decide) (legible_spaced hname.word
    legible_emptyCurly rfl (by simp) nofun) rfl (by simp) nofun) rfl (by simp) nofun
  first := ⟨_, rfl, rfl, rfl⟩
  read lead rest := at_class _ rest hname

theorem Reads.interfaceType (hname : PlainName name) :
    Reads (word [] "export" <| word spaced "interface" <| word spaced name <|
      curly spaced .nil [] .nil) (.exported (.interfaceType name [])) where
  legible := legible_keyword (by decide) (legible_spaced (by decide) (legible_spaced hname.word
    legible_emptyCurly rfl (by simp) nofun) rfl (by simp) nofun) rfl (by simp) nofun
  first := ⟨_, rfl, rfl, rfl⟩
  read lead rest := at_interface _ rest .nil spaced []

theorem Reads.typeAlias (hname : PlainName name) :
    Reads (word [] "export" <| word spaced "type" <| word spaced name <| sign spaced "=" <|
      word spaced "string" <| sign [] ";" .nil) (.exported (.typeAlias name)) where
  legible := by
    have hvalue := legible_apart (show "=" ∈ plainSigns by decide)
      (legible_ended (show isWord "string" = true by decide)) rfl (by simp) (by simp)
    have hmark : "=" ≠ "<" := by decide
    exact legible_keyword (by decide) (legible_type (legible_spaced hname.word hvalue rfl (by simp)
      fun _ => hmark) rfl (by simp) nofun) rfl (by simp) nofun
  first := ⟨_, rfl, rfl, rfl⟩
  read lead rest := at_alias _ rest hname.word

theorem Reads.constant (hname : PlainName name) :
    Reads (word [] "export" <| word spaced "const" <| word spaced name <| sign spaced "=" <|
      .leaf ⟨spaced, .number, "1"⟩ <| sign [] ";" .nil) (.exported (.bindings [name])) where
  legible := by
    have hvalue := legible_apart (show "=" ∈ plainSigns by decide) legible_one rfl (by simp) (by simp)
    have hmark : "=" ≠ "<" := by decide
    exact legible_keyword (by decide) (legible_spaced (by decide) (legible_spaced hname.word hvalue
      rfl (by simp) fun _ => hmark) rfl (by simp) nofun) rfl (by simp) nofun
  first := ⟨_, rfl, rfl, rfl⟩
  read lead rest := at_constant _ rest hname

theorem Reads.byDefault (hname : PlainName name) :
    Reads (word [] "export" <| word spaced "default" <| word spaced name <| sign [] ";" .nil)
      (.defaultName name) where
  legible := legible_keyword (by decide) (legible_spaced (by decide) (legible_ended hname.word) rfl
    (by simp) nofun) rfl (by simp) nofun
  first := ⟨_, rfl, rfl, rfl⟩
  read lead rest := at_default _ rest hname

theorem Reads.localList (h : Row inner) :
    Reads (word [] "export" <| curly spaced inner spaced <| sign [] ";" .nil)
      (.exportList (specifiers inner) none false) where
  legible := legible_keyword (by decide) (legible_localList h) rfl (by simp) nofun
  first := ⟨_, rfl, rfl, rfl⟩
  read lead rest := at_localList _ rest inner

theorem Reads.localTypeList (h : Row inner) :
    Reads (word [] "export" <| word spaced "type" <| curly spaced inner spaced <| sign [] ";" .nil)
      (.exportList (specifiers inner) none true) where
  legible := legible_keyword (by decide) (legible_type (legible_localList h) rfl (by simp) nofun) rfl
    (by simp) nofun
  first := ⟨_, rfl, rfl, rfl⟩
  read lead rest := at_localTypeList _ rest inner

theorem Reads.star (htext : IsQuoted text) :
    Reads (word [] "export" <| sign spaced "*" <| fromModule text) (.exportStar (unquote text)) where
  legible := by
    have hstar := legible_apart (show "*" ∈ plainSigns by decide) (legible_fromModule htext) rfl
      (by simp) (by simp)
    have hmark : "*" ≠ "<" := by decide
    exact legible_keyword (by decide) hstar rfl (by simp) fun _ => hmark
  first := ⟨_, rfl, rfl, rfl⟩
  read lead rest := at_star _ rest

/-- A name for all of a module. -/
theorem legible_starAs (hname : PlainName name) (htext : IsQuoted text) :
    (sign spaced "*" <| word spaced "as" <| word spaced name <| fromModule text).Legible :=
  legible_apart (show "*" ∈ plainSigns by decide) (legible_spaced (by decide) (legible_spaced
    hname.word (legible_fromModule htext) rfl (by simp) nofun) rfl (by simp) nofun) rfl (by simp)
    (by simp)

theorem Reads.space (hname : PlainName name) (htext : IsQuoted text) :
    Reads (word [] "export" <| sign spaced "*" <| word spaced "as" <| word spaced name <|
      fromModule text) (.exportSpace name (unquote text)) where
  legible := by
    have hmark : "*" ≠ "<" := by decide
    exact legible_keyword (by decide) (legible_starAs hname htext) rfl (by simp) fun _ => hmark
  first := ⟨_, rfl, rfl, rfl⟩
  read lead rest := at_space _ rest hname.word

theorem Reads.importsBoth (hname : PlainName name) (h : Row inner) (htext : IsQuoted text) :
    Reads (word [] "import" <| word spaced name <| sign [] "," <| bracedFrom inner text)
      (.imports (⟨"default", name, false⟩ :: specifiers inner) (unquote text)) where
  legible := by
    have hcomma : (sign [] "," <| bracedFrom inner text).Legible := by
      refine ⟨⟨by simp, by simp [Token.Plain, plainSigns], apart_tight _ _⟩, fun t ht => ?_,
        legible_bracedFrom h htext⟩
      obtain rfl := Option.some.inj ht
      exact Token.Begins.follows (.inr ⟨_, rfl⟩) (.inl (by simp))
    refine legible_keyword (by decide) ⟨⟨by simp, hname.word, apart_spaced _ _⟩, fun t ht => ?_,
      hcomma⟩ rfl (by simp) (by simp)
    obtain rfl := Option.some.inj ht
    have hmark : "," ≠ "<" := by decide
    exact Token.Complete.follows (.inl rfl) (.inl rfl) fun _ => hmark
  first := ⟨_, rfl, rfl, rfl⟩
  read lead rest := at_importsBoth _ rest hname inner

theorem Reads.importSpace (hname : PlainName name) (htext : IsQuoted text) :
    Reads (word [] "import" <| sign spaced "*" <| word spaced "as" <| word spaced name <|
      fromModule text) (.imports [⟨"*", name, false⟩] (unquote text)) where
  legible := by
    have hmark : "*" ≠ "<" := by decide
    exact legible_keyword (by decide) (legible_starAs hname htext) rfl (by simp) fun _ => hmark
  first := ⟨_, rfl, rfl, rfl⟩
  read lead rest := at_importSpace _ rest

end Reads

/-! ### Statements -/

/-- The names of a list, with one blank before each. -/
def itemsListed (items : List Item) : Forest :=
  listed " " " " (items.map fun item => spacedWords item.words)

section Items

variable {items : List Item} (h : ∀ item ∈ items, item.Spelled)

include h

theorem specifiers_items : specifiers (itemsListed items) = items.map Item.specifier := by
  have hwords : ∀ words ∈ items.map Item.words, words ≠ [] ∧ ∀ w ∈ words, isWord w = true :=
    List.forall_mem_map.2 fun item hi => ⟨item.words_ne_nil, (h item hi).isWord_words⟩
  have hread := specifiers_words " " " " hwords
  rw [List.map_map, List.filterMap_map] at hread
  rw [itemsListed]
  refine hread.trans ((List.filterMap_congr fun item hi => (h item hi).ofWords?).trans ?_)
  exact congrFun List.filterMap_eq_map items

theorem phrase_items : ∀ f ∈ items.map fun item => spacedWords item.words, Phrase f :=
  List.forall_mem_map.2 fun item hi =>
    phrase_spacedWords item.words_ne_nil (h item hi).isWord_words

theorem itemsListed_row (hne : items ≠ []) : Row (itemsListed items) :=
  listed_row isGap_blank isGap_blank (by simpa using hne) (phrase_items h)

theorem itemsListed_source (hne : items ≠ []) : (itemsListed items).source =
    " " ++ String.intercalate ", " (items.map Item.text) := by
  have hsources : (items.map fun item => spacedWords item.words).map Forest.source =
      items.map Item.text := by
    rw [List.map_map]
    exact List.map_congr_left fun item _ =>
      (spacedWords_source item.words_ne_nil).trans item.intercalate_words
  rw [itemsListed, listed_source " " " " (by simpa using hne) (phrase_items h), hsources]
  rfl

end Items

/-- A statement by which a module exports, imports or declares something. -/
inductive Surface where
  | classType (name : String)
  | interfaceType (name : String)
  | typeAlias (name : String)
  | constant (name : String)
  | byDefault (name : String)
  | list (typeOnly : Bool) (items : List Item) (source? : Option String)
  | star (source : String)
  | space (name source : String)
  | imports (default? : Option String) (items : List Item) (source : String)
  | importSpace (name source : String)

namespace Surface

/-- The end of a statement that may name a module. -/
def ending (source? : Option String) : String :=
  match source? with
  | some source => " from " ++ quoted source ++ ";"
  | none => ";"

/-- The text of a statement. -/
def text : Surface → String
  | classType name => "export class " ++ name ++ " \x7b\x7d"
  | interfaceType name => "export interface " ++ name ++ " \x7b\x7d"
  | typeAlias name => "export type " ++ name ++ " = string;"
  | constant name => "export const " ++ name ++ " = 1;"
  | byDefault name => "export default " ++ name ++ ";"
  | list typeOnly items source? =>
    "export " ++ (if typeOnly then "type " else "") ++ Hook.braced (items.map Item.text) ++
      ending source?
  | star source => "export *" ++ ending (some source)
  | space name source => "export * as " ++ name ++ ending (some source)
  | imports default? items source =>
    "import " ++ ((default?.map (· ++ ", ")).getD "") ++ Hook.braced (items.map Item.text) ++
      ending (some source)
  | importSpace name source => "import * as " ++ name ++ ending (some source)

/-- Whether the names of a statement are names and its specifier needs no escapes. A list
has a name. -/
def Spelled : Surface → Prop
  | classType name | interfaceType name | typeAlias name | constant name | byDefault name =>
    PlainName name
  | list _ items source? =>
    (items ≠ [] ∧ ∀ item ∈ items, item.Spelled) ∧ ∀ source ∈ source?, IsSource source
  | star source => IsSource source
  | space name source | importSpace name source => PlainName name ∧ IsSource source
  | imports default? items source =>
    (∀ name ∈ default?, PlainName name) ∧ (items ≠ [] ∧ ∀ item ∈ items, item.Spelled) ∧
      IsSource source

instance : (s : Surface) → Decidable s.Spelled
  | classType name | interfaceType name | typeAlias name | constant name | byDefault name =>
    inferInstanceAs (Decidable (PlainName name))
  | list _ items source? =>
    inferInstanceAs (Decidable ((items ≠ [] ∧ ∀ item ∈ items, item.Spelled) ∧
      ∀ source ∈ source?, IsSource source))
  | star source => inferInstanceAs (Decidable (IsSource source))
  | space name source | importSpace name source =>
    inferInstanceAs (Decidable (PlainName name ∧ IsSource source))
  | imports default? items source =>
    inferInstanceAs (Decidable ((∀ name ∈ default?, PlainName name) ∧
      (items ≠ [] ∧ ∀ item ∈ items, item.Spelled) ∧ IsSource source))

/-- What a statement exports. -/
def exports : Surface → List Export
  | classType name => [.declaration name .classType]
  | interfaceType name => [.declaration name .interfaceType]
  | typeAlias name => [.declaration name .typeAlias]
  | constant name => [.declaration name .variable]
  | byDefault name => [.byDefault (some name) none]
  | list typeOnly items none =>
    items.map fun i => .ofLocal i.name (i.newName?.getD i.name) (typeOnly || i.typeOnly)
  | list typeOnly items (some source) =>
    items.map fun i => .reexport i.name (i.newName?.getD i.name) source (typeOnly || i.typeOnly)
  | star source => [.star source]
  | space name source => [.space name source]
  | imports .. | importSpace .. => []

/-- The names that a statement imports, with their origins. -/
def bindings : Surface → List (String × Origin)
  | imports default? items source =>
    (default?.map fun name => (name, ⟨source, "default"⟩)).toList ++
      items.map fun i => (i.newName?.getD i.name, ⟨source, i.name⟩)
  | importSpace name source => [(name, ⟨source, "*"⟩)]
  | _ => []

/-- The names that a statement declares, with their kinds. -/
def declared : Surface → List (String × DeclarationKind)
  | classType name => [(name, .classType)]
  | interfaceType name => [(name, .interfaceType)]
  | typeAlias name => [(name, .typeAlias)]
  | constant name => [(name, .variable)]
  | _ => []

/-- The interface that a statement declares. -/
def interface? : Surface → Option Interface
  | interfaceType name => some ⟨name, true, []⟩
  | _ => none

/-- How a statement is read. -/
def statement : Surface → Statement
  | classType name => .exported (.classType name [])
  | interfaceType name => .exported (.interfaceType name [])
  | typeAlias name => .exported (.typeAlias name)
  | constant name => .exported (.bindings [name])
  | byDefault name => .defaultName name
  | list typeOnly items source? => .exportList (items.map Item.specifier) source? typeOnly
  | star source => .exportStar source
  | space name source => .exportSpace name source
  | imports default? items source =>
    .imports ((default?.map (⟨"default", ·, false⟩)).toList ++ items.map Item.specifier) source
  | importSpace name source => .imports [⟨"*", name, false⟩] source

theorem statement_exports (s : Surface) : s.statement.exports = s.exports := by
  cases s with
  | list typeOnly items source? =>
    cases source? <;> simp [statement, Statement.exports, exports, Item.specifier]
  | _ => rfl

theorem statement_importedNames (s : Surface) : s.statement.importedNames = s.bindings := by
  cases s with
  | imports default? items source =>
    cases default? <;> simp [statement, Statement.importedNames, bindings, Item.specifier]
  | _ => rfl

theorem statement_locals (s : Surface) : s.statement.locals = s.declared := by
  cases s <;> rfl

theorem statement_interface? (s : Surface) : s.statement.interface? = s.interface? := by
  cases s <;> rfl

theorem statement_marked? (s : Surface) : s.statement.marked? = none := by
  cases s <;> rfl

theorem statement_isError (s : Surface) : s.statement.isError = false := by
  cases s <;> rfl

/-- An export list is read with its names and its source. -/
theorem states_list {typeOnly : Bool} {items : List Item} {source? : Option String}
    (h : (list typeOnly items source?).Spelled) :
    States [(list typeOnly items source?).text] [(list typeOnly items source?).statement] := by
  obtain ⟨⟨hne, hitems⟩, hsource⟩ := h
  have hrow := itemsListed_row hitems hne
  have hinner := itemsListed_source hitems hne
  -- only the names of another module are followed by a source
  cases source? with
  | none =>
    cases typeOnly with
    | false =>
      have hread := Reads.localList hrow
      rw [specifiers_items hitems] at hread
      refine .chars hread ?_
      unfold text
      simp [ending, Hook.braced, hinner]
    | true =>
      have hread := Reads.localTypeList hrow
      rw [specifiers_items hitems] at hread
      refine .chars hread ?_
      unfold text
      simp [ending, Hook.braced, hinner]
  | some source =>
    have hplain := hsource source rfl
    cases typeOnly with
    | false =>
      have hread := Reads.list hrow hplain.isQuoted
      rw [specifiers_items hitems, hplain.unquote_quoted] at hread
      refine .chars hread ?_
      unfold text
      simp [ending, Hook.braced, hinner, bracedFrom, fromModule]
    | true =>
      have hread := Reads.typeList hrow hplain.isQuoted
      rw [specifiers_items hitems, hplain.unquote_quoted] at hread
      refine .chars hread ?_
      unfold text
      simp [ending, Hook.braced, hinner, bracedFrom, fromModule]

/-- An import of names is read with its names, the default export first if there is one. -/
theorem states_imports {default? : Option String} {items : List Item} {source : String}
    (h : (imports default? items source).Spelled) :
    States [(imports default? items source).text] [(imports default? items source).statement] := by
  obtain ⟨hdefault, ⟨hne, hitems⟩, hplain⟩ := h
  have hrow := itemsListed_row hitems hne
  have hinner := itemsListed_source hitems hne
  cases default? with
  | none =>
    have hread := Reads.imports hrow hplain.isQuoted
    rw [specifiers_items hitems, hplain.unquote_quoted] at hread
    refine .chars hread ?_
    unfold text
    simp [ending, Hook.braced, hinner, bracedFrom, fromModule]
  | some name =>
    have hread := Reads.importsBoth (hdefault name rfl) hrow hplain.isQuoted
    rw [specifiers_items hitems, hplain.unquote_quoted] at hread
    refine .chars hread ?_
    unfold text
    simp [ending, Hook.braced, hinner, bracedFrom, fromModule]

/-- Each statement is read as what it is. -/
theorem Spelled.states {s : Surface} (h : s.Spelled) : States [s.text] [s.statement] := by
  cases s with
  | classType name =>
    have hread := @Reads.classType name h
    refine .chars hread ?_
    unfold text
    simp
  | interfaceType name =>
    have hread := @Reads.interfaceType name h
    refine .chars hread ?_
    unfold text
    simp
  | typeAlias name =>
    have hread := @Reads.typeAlias name h
    refine .chars hread ?_
    unfold text
    simp
  | constant name =>
    have hread := @Reads.constant name h
    refine .chars hread ?_
    unfold text
    simp
  | byDefault name =>
    have hread := @Reads.byDefault name h
    refine .chars hread ?_
    unfold text
    simp
  | list typeOnly items source? => exact states_list h
  | star source =>
    have hread := Reads.star h.isQuoted
    rw [h.unquote_quoted] at hread
    refine .chars hread ?_
    unfold text
    simp [ending, fromModule]
  | space name source =>
    obtain ⟨hname, hplain⟩ := h
    have hread := Reads.space hname hplain.isQuoted
    rw [hplain.unquote_quoted] at hread
    refine .chars hread ?_
    unfold text
    simp [ending, fromModule]
  | imports default? items source => exact states_imports h
  | importSpace name source =>
    obtain ⟨hname, hplain⟩ := h
    have hread := Reads.importSpace hname hplain.isQuoted
    rw [hplain.unquote_quoted] at hread
    refine .chars hread ?_
    unfold text
    simp [ending, fromModule]

/-! ### Scripts -/

theorem states_all {surfaces : List Surface} (h : ∀ s ∈ surfaces, s.Spelled) :
    States (surfaces.map text) (surfaces.map statement) := by
  induction surfaces with
  | nil => exact .nil
  | cons s more ih =>
    obtain ⟨hs, hmore⟩ := List.forall_mem_cons.1 h
    exact hs.states.append (ih hmore)

/-- No statement starts as a line for the system's shell. -/
theorem head_all {surfaces : List Surface} :
    ∀ c ∈ (ended (surfaces.map text)).head?, c ≠ '#' := by
  cases surfaces with
  | nil => nofun
  | cons s more =>
    -- a statement starts with `export` or `import`
    have hhead : ∃ c ∈ ['e', 'i'], (ended ((s :: more).map text)).head? = some c := by
      unfold text
      cases s <;> simp [ended_cons]
    obtain ⟨c, hc, hhead⟩ := hhead
    rw [hhead]
    rintro d hd rfl
    obtain rfl := Option.some.inj hd
    exact absurd hc (by decide)

end Surface

/-- Whether a module is what the given statements show, and has nothing else. -/
structure Module.Shows (m : Module) (surfaces : List Surface) : Prop where
  exports : m.exports = surfaces.flatMap Surface.exports
  /-- Of imports of one name the last counts. -/
  imports : ∀ name, m.imports.lookup name = (surfaces.flatMap Surface.bindings).reverse.lookup name
  importNames : (Table.keys m.imports).Nodup
  /-- A name keeps its first kind. -/
  locals : ∀ name, m.locals.lookup name = (surfaces.flatMap Surface.declared).lookup name
  localNames : (Table.keys m.locals).Nodup
  interfaces : m.interfaces = surfaces.filterMap Surface.interface?
  markedMethods : m.markedMethods = []
  hasErrors : m.hasErrors = false

theorem shows_statements (surfaces : List Surface) :
    (Module.ofStatements (surfaces.map Surface.statement)).Shows surfaces := by
  have hbindings : (surfaces.map Surface.statement).flatMap Statement.importedNames =
      surfaces.flatMap Surface.bindings := by
    rw [List.flatMap_map]
    exact List.flatMap_congr fun s _ => s.statement_importedNames
  have hdeclared : (surfaces.map Surface.statement).flatMap Statement.locals =
      surfaces.flatMap Surface.declared := by
    rw [List.flatMap_map]
    exact List.flatMap_congr fun s _ => s.statement_locals
  have hmarked : (surfaces.map Surface.statement).filterMap Statement.marked? = [] := by
    rw [List.filterMap_map, List.filterMap_eq_nil_iff]
    exact fun s _ => s.statement_marked?
  -- each field of the module collects one part of the statements
  refine { exports := ?_, imports := fun name => ?_, importNames := Table.nodup_newest _,
           locals := fun name => ?_, localNames := Table.nodup_oldest _, interfaces := ?_,
           markedMethods := ?_, hasErrors := ?_ }
  · show (surfaces.map Surface.statement).flatMap Statement.exports = _
    rw [List.flatMap_map]
    exact List.flatMap_congr fun s _ => s.statement_exports
  · show (Table.putAll [] _).lookup name = _
    rw [Table.lookup_putAll, hbindings]
    exact Option.or_none
  · show (Table.oldest _).lookup name = _
    rw [Table.lookup_oldest, hdeclared]
  · show (surfaces.map Surface.statement).filterMap Statement.interface? = _
    rw [List.filterMap_map]
    exact List.filterMap_congr fun s _ => s.statement_interface?
  · show Table.newest _ = _
    rw [hmarked]
    rfl
  · show (surfaces.map Surface.statement).any Statement.isError = _
    rw [List.any_map, List.any_eq_false]
    exact fun s _ => by simp [s.statement_isError]

/-- A script is read as the statements that it consists of. -/
theorem read_surface {surfaces : List Surface} (h : ∀ s ∈ surfaces, s.Spelled) (dialect : Dialect) :
    (Module.read dialect (Hook.endLines (surfaces.map Surface.text))).Shows surfaces := by
  have hsource := Hook.endLines_toList (surfaces.map Surface.text)
  rw [(Surface.states_all h).read_module dialect hsource (hsource ▸ Surface.head_all)]
  exact shows_statements surfaces

/-- Statements that import one name twice and declare one name twice. -/
def repeated : List Surface :=
  [.imports (some "Cart") [⟨"sum", some "total", true⟩] "./cart", .importSpace "total" "./sums",
    .constant "Item", .interfaceType "Item", .list true [⟨"Item", none, false⟩] (some "./item")]

theorem shows_repeated : (∀ s ∈ repeated, s.Spelled) ∧
    (Module.read .plain (Hook.endLines (repeated.map Surface.text))).Shows repeated ∧
    (Module.read .plain (Hook.endLines (repeated.map Surface.text))).imports.lookup "total" =
      some ⟨"./sums", "*"⟩ := by
  have hspelled : ∀ s ∈ repeated, s.Spelled := by
    simp only [repeated, List.forall_mem_cons, List.not_mem_nil, false_imp_iff, implies_true, and_true]
    exact ⟨by decide, by decide, by decide, by decide, by decide⟩
  exact ⟨hspelled, read_surface hspelled .plain, (read_surface hspelled .plain).imports "total"⟩

end ScreenHooks.Script
