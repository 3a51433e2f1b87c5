/-
The lines of a hook module, read back.

Each kind of line that a hook module is made of is a known statement, if the names in
it are words and the specifiers need no escapes.

* **`states_import`**, **`states_list`**, **`states_typeList`** — lines that name
  another module;
* **`states_instance`** — the instance, which is not exported;
* **`states_primary`**, **`states_destructured`**, **`states_accessor`**,
  **`states_wrapper`**, **`states_hook`** — the exported functions.
-/
import ScreenHooks.Proofs.Hook.Identifiers

namespace ScreenHooks.Hook

open Text Script Script.Forest

/-! ### Texts -/

theorem endLines_toList (lines : List String) : (endLines lines).toList = ended lines := by
  unfold endLines joinLines
  induction lines with
  | nil => rfl
  | cons line more ih =>
    rw [ended_cons]
    cases more with
    | nil => simp [ended]
    | cons next more =>
      rw [List.cons_append, List.cons_append, String.intercalate_cons_cons, String.toList_append,
        ← List.cons_append, ih]
      simp

theorem isQuoted_singleQuoted {s : String}
    (h : ∀ c ∈ s.toList, c ≠ '\'' ∧ c ≠ '\\' ∧ c ≠ '\n') : IsQuoted (singleQuoted s) := by
  refine ⟨s.toList, ?_, h⟩
  have hplain := escapeSingle_of_plain s.toList fun c hc => ⟨(h c hc).2.1, (h c hc).1⟩
  rw [singleQuoted, hplain, String.toList_ofList]

theorem isPhrase_word {name : String} (h : isWord name = true) : IsPhrase name :=
  ⟨_, phrase_word h, by simp⟩

/-! ### Lines that name a module -/

theorem bracedFrom_source {items : List Forest} (hne : items ≠ []) (h : ∀ f ∈ items, Phrase f)
    (literal : String) : (bracedFrom (listed " " " " items) literal).source =
      " " ++ braced (items.map Forest.source) ++ " from " ++ literal ++ ";" := by
  have hsep : "," ++ " " = ", " := by decide
  apply String.toList_inj.1
  simp [bracedFrom, fromModule, listed_source " " " " hne h, hsep, braced]

section Modules

variable {names : List String} {name literal : String}

theorem kept_source (items : List Specifier) :
    (items.map Specifier.forest).map Forest.source = items.map Specifier.text := by
  rw [List.map_map]
  exact List.map_congr_left fun s _ => s.source_forest

theorem states_import {items : List Specifier} (hne : items ≠ []) (h : ∀ s ∈ items, s.Kept)
    (hquoted : IsQuoted literal) :
    States [importLine (items.map Specifier.text) literal] [.imports items (unquote literal)] := by
  have hforests : ∀ f ∈ items.map Specifier.forest, Phrase f :=
    List.forall_mem_map.2 fun s hs => (h s hs).phrase
  have hnone : items.map Specifier.forest ≠ [] := by simpa using hne
  have hread := Reads.imports (listed_row isGap_blank isGap_blank hnone hforests) hquoted
  rw [specifiers_kept " " " " h] at hread
  refine .line hread ?_
  rw [source, bracedFrom_source hnone hforests, kept_source]
  apply String.toList_inj.1
  simp [importLine]

theorem states_importTypes (hne : names ≠ []) (h : ∀ name ∈ names, isWord name = true)
    (hquoted : IsQuoted literal) : States [importTypeLine names literal]
      [.imports (names.map Specifier.plain) (unquote literal)] := by
  have hread := Reads.importsTypes (namesListed_row isGap_blank isGap_blank hne h) hquoted
  rw [specifiers_names " " " " h] at hread
  refine .line hread ?_
  rw [source, source, namesListed, bracedFrom_source (by simpa using hne) (phrase_names h),
    map_source_names]
  apply String.toList_inj.1
  simp [importTypeLine]

theorem states_importDefault (h : isWord name = true) (hquoted : IsQuoted literal) :
    States ["import " ++ name ++ " from " ++ literal ++ ";"]
      [.imports [⟨"default", name, false⟩] (unquote literal)] := by
  refine .line (Reads.importsDefault h hquoted) ?_
  apply String.toList_inj.1
  simp [fromModule]

theorem states_list (hne : names ≠ []) (h : ∀ name ∈ names, isWord name = true)
    (hquoted : IsQuoted literal) : States [exportLine names literal]
      [.exportList (names.map Specifier.plain) (some (unquote literal)) false] := by
  have hread := Reads.list (namesListed_row isGap_blank isGap_blank hne h) hquoted
  rw [specifiers_names " " " " h] at hread
  refine .line hread ?_
  rw [source, namesListed, bracedFrom_source (by simpa using hne) (phrase_names h), map_source_names]
  apply String.toList_inj.1
  simp [exportLine]

theorem states_typeList (hne : names ≠ []) (h : ∀ name ∈ names, isWord name = true)
    (hquoted : IsQuoted literal) : States [exportTypeLine names literal]
      [.exportList (names.map Specifier.plain) (some (unquote literal)) true] := by
  have hread := Reads.typeList (namesListed_row isGap_blank isGap_blank hne h) hquoted
  rw [specifiers_names " " " " h] at hread
  refine .line hread ?_
  rw [source, source, namesListed, bracedFrom_source (by simpa using hne) (phrase_names h),
    map_source_names]
  apply String.toList_inj.1
  simp [exportTypeLine]

theorem states_typeStar (hquoted : IsQuoted literal) :
    States ["export type * from " ++ literal ++ ";"] [.exportTypeStar (unquote literal)] := by
  refine .line (Reads.typeStar hquoted) ?_
  apply String.toList_inj.1
  simp [fromModule]

end Modules

/-! ### Calls -/

/-- A call of the instance. -/
def instanceCall (s : String) : Forest := word (gap s) "getInstance" .nil ++ round [] .nil .nil

theorem value_instanceCall {s : String} (hs : IsGap s) : Value (instanceCall s) :=
  (Value.name hs (by decide) ⟨by decide, by decide, by decide⟩).call (.inl rfl)

/-- A method of the instance, called. -/
def methodCall (s method : String) (arguments : Forest) : Forest :=
  instanceCall s ++ (sign [] "." <| word [] method .nil) ++ round [] arguments .nil

theorem value_methodCall {s method : String} {arguments : Forest} (hs : IsGap s)
    (hmethod : isWord method = true) (harguments : Inside arguments) :
    Value (methodCall s method arguments) :=
  ((value_instanceCall hs).member hmethod).call harguments

/-- What is computed once from a part of the instance. -/
def memo (body : Forest) : Forest :=
  word spaced "useMemo" .nil ++
    round [] (arrow "" .nil none body ++ sign [] "," (square spaced .nil [] .nil)) .nil

theorem row_emptySquare : Row (square spaced .nil [] .nil) where
  legible := ⟨⟨⟨.square, rfl, rfl⟩, rfl, apart_spaced _ _, rfl, apart_tight _ _⟩,
    ⟨nofun, trivial⟩, nofun, trivial⟩
  first := ⟨_, rfl, .inr ⟨_, rfl⟩⟩
  last t ht := by
    rw [last_group ht]
    exact .inr (.inl ⟨_, rfl⟩)

theorem value_memo {body : Forest} (h : Row body) : Value (memo body) := by
  have hname : Value (word spaced "useMemo" .nil) :=
    @Value.name " " "useMemo" isGap_blank (by decide) ⟨by decide, by decide, by decide⟩
  have hfunction : Row (arrow "" .nil none body) := h.arrow isGap_empty (.inl rfl) nofun
  exact hname.call (.inr (hfunction.join row_emptySquare isGap_empty (by simp)))

/-! ### Exported functions -/

/-- An exported function on one line. -/
theorem states_value {name line : String} {value : Forest} (hname : isWord name = true)
    (hne : name ≠ "enum") (hvalue : Value value)
    (hline : line = "export const " ++ name ++ " =" ++ value.source ++ ";") :
    States [line] [.exported (.bindings [name])] := by
  refine States.line (Reads.exported hname hne hvalue) ?_
  rw [hline]
  apply String.toList_inj.1
  simp [exportedValue]

/-- A comment that names something. -/
theorem states_comment (before after : String) {name : String} {lines : List String}
    {ss : List Statement} (hname : isWord name = true)
    (hbefore : ∀ c ∈ before.toList, Token.isLineEnd c = false)
    (hafter : ∀ c ∈ after.toList, Token.isLineEnd c = false) (h : States lines ss) :
    States (("//" ++ before ++ name ++ after) :: lines) ss := by
  have htext : ∀ c ∈ (before ++ name ++ after).toList, Token.isLineEnd c = false := by
    rw [String.toList_append, String.toList_append, List.forall_mem_append, List.forall_mem_append]
    exact ⟨⟨hbefore, fun c hc => isWordPart_not_lineEnd (isWord_parts hname c hc)⟩, hafter⟩
  have hline := States.comment (before ++ name ++ after) htext h
  rwa [← String.append_assoc, ← String.append_assoc] at hline

/-- The hook that returns the instance, and the accessors of its parts. -/
theorem states_memo {name : String} {type : Option String} {body : Forest}
    (hname : isWord name = true) (hne : name ≠ "enum")
    (htype : ∀ t ∈ type, isWord t = true) (hbody : Row body) :
    States ["export const " ++ name ++ " = ()" ++ ((type.map (": " ++ ·)).getD "") ++
      " => useMemo(() =>" ++ body.source ++ ", []);"] [.exported (.bindings [name])] := by
  have hvalue := @Value.arrow " " .nil _ type isGap_blank (.inl rfl) htype (value_memo hbody)
  refine states_value hname hne hvalue ?_
  apply String.toList_inj.1
  cases type <;>
    simp [arrow, arrowMark, memo]

theorem states_primary {module : Module} (hname : isWord module.unit.name = true)
    (htype : isWord module.instanceType = true) :
    States module.primaryLines [.exported (.bindings [module.unit.primaryHook])] := by
  have hhook := isWord_primaryHook hname
  have hne : module.unit.primaryHook ≠ "enum" := by
    intro h
    have hchars := congrArg String.toList h
    simp [Screen.Unit.primaryHook] at hchars
  have hlines : module.primaryLines =
      ["", "// Primary hook: the " ++ module.unit.name ++ " singleton",
        "export const " ++ module.unit.primaryHook ++ " = (): " ++ module.instanceType ++
          " => useMemo(() => getInstance(), []);"] := rfl
  have htypes : ∀ t ∈ some module.instanceType, isWord t = true := by simpa using htype
  have h := states_memo hhook hne htypes (value_instanceCall isGap_blank).row
  rw [hlines]
  refine .blank (states_comment " Primary hook: the " " singleton" hname (not_lineEnd (by decide))
    (not_lineEnd (by decide)) ?_)
  convert h using 2
  apply String.toList_inj.1
  simp [instanceCall]

theorem states_accessor {accessor : Accessor} (hhook : isWord accessor.hook = true)
    (hne : accessor.hook ≠ "enum") (hmodel : isWord accessor.model = true)
    (htype : ∀ t ∈ accessor.type, isWord t = true) :
    States [accessor.line] [.exported (.bindings [accessor.hook])] := by
  have h := states_memo hhook hne htype ((value_instanceCall isGap_blank).member hmodel).row
  have hline : accessor.line = "export const " ++ accessor.hook ++ " = ()" ++
      ((accessor.type.map (": " ++ ·)).getD "") ++ " => useMemo(() => getInstance()." ++
        accessor.model ++ ", []);" := rfl
  rw [hline]
  convert h using 2
  apply String.toList_inj.1
  simp [instanceCall]

/-- What stands in the parentheses of parameters and arguments. -/
theorem inside_listed {items : List Forest} (h : ∀ f ∈ items, Phrase f) :
    Inside (listed "" " " items) ∧
      (listed "" " " items).source = String.intercalate ", " (items.map Forest.source) := by
  have hsep : "," ++ " " = ", " := by decide
  cases items with
  | nil => exact ⟨.inl rfl, rfl⟩
  | cons f more =>
    exact ⟨.inr (listed_row isGap_empty isGap_blank (by simp) h),
      by rw [listed_source "" " " (by simp) h, hsep, String.empty_append]⟩

/-- A type after its colon. -/
theorem legible_typing {f : Forest} (h : Phrase f) : (sign [] ":" (f.leadBy (gap " "))).Legible := by
  have hrow := h.row_leadBy isGap_blank
  refine ⟨⟨by simp, by simp [Token.Plain, plainSigns], apart_tight _ _⟩, fun next hn => ?_,
    hrow.legible⟩
  obtain ⟨t, hfirst, hbegins⟩ := hrow.first
  rw [hfirst] at hn
  obtain rfl := Option.some.inj hn
  exact hbegins.follows (.inr (.inl rfl))

/-- A type after a question mark and its colon. -/
theorem legible_optional {f : Forest} (h : Phrase f) :
    (sign [] "?" <| sign [] ":" (f.leadBy (gap " "))).Legible := by
  have hless : ":" ≠ "<" := by decide
  refine ⟨⟨by simp, by simp [Token.Plain, plainSigns], apart_tight _ _⟩, fun next hn => ?_,
    legible_typing h⟩
  obtain rfl := Option.some.inj hn
  exact ⟨.inr rfl, fun _ htext => absurd htext hless⟩

/-- A parameter with its type. -/
theorem isPhrase_parameter {parameter : Script.Parameter} (hname : isWord parameter.name = true)
    (htype : IsPhrase parameter.type) : IsPhrase (parameterText parameter) := by
  obtain ⟨name, type, optional⟩ := parameter
  obtain ⟨f, hf, rfl⟩ := htype
  obtain ⟨t, hfirst, -⟩ := hf.first
  have hrow := hf.row_leadBy isGap_blank
  obtain ⟨u, hnext, -⟩ := hrow.first
  -- the type comes last in both forms
  have hlast : ∀ prior : Forest, ∀ t ∈ (prior ++ f.leadBy (gap " ")).tokens.getLast?, t.Complete :=
    fun prior t ht => hrow.last t (last_append hnext ▸ ht)
  have hword := phrase_word hname
  have hcolon : ":" ≠ "<" := by decide
  have hquestion : "?" ≠ "<" := by decide
  have htext : parameterText ⟨name, f.source, optional⟩ =
      name ++ (if optional then "?" else "") ++ ": " ++ f.source := rfl
  rw [htext]
  cases optional with
  | false =>
    refine ⟨_, hword.append (hword.toRow.append (legible_typing hf) rfl
      (fun t ht => ht.follows (.inl rfl) fun _ => hcolon) (hlast (sign [] ":" .nil))), ?_⟩
    apply String.toList_inj.1
    simp [source_leadBy hfirst]
  | true =>
    refine ⟨_, hword.append (hword.toRow.append (legible_optional hf) rfl
      (fun t ht => ht.follows (.inl rfl) fun _ => hquestion)
      (hlast (sign [] "?" <| sign [] ":" .nil))), ?_⟩
    apply String.toList_inj.1
    simp [source_leadBy hfirst]

theorem states_wrapper {wrapper : Wrapper} (hname : isWord wrapper.name = true)
    (hne : wrapper.name ≠ "enum") (hmethod : isWord wrapper.method.name = true)
    (hparameters : ∀ parameter ∈ wrapper.method.parameters,
      isWord parameter.name = true ∧ IsPhrase parameter.type) :
    States [wrapper.line] [.exported (.bindings [wrapper.name])] := by
  have htexts : ∀ s ∈ wrapper.method.parameters.map parameterText, IsPhrase s :=
    List.forall_mem_map.2 fun parameter hp =>
      isPhrase_parameter (hparameters parameter hp).1 (hparameters parameter hp).2
  have hnames : ∀ s ∈ wrapper.method.parameters.map (·.name), IsPhrase s :=
    List.forall_mem_map.2 fun parameter hp => isPhrase_word (hparameters parameter hp).1
  -- parameters are declared with their types and passed on by their names
  obtain ⟨fs, hfs, hfsSource⟩ := exists_phrases htexts
  obtain ⟨gs, hgs, hgsSource⟩ := exists_phrases hnames
  obtain ⟨hdeclared, hdeclaredSource⟩ := inside_listed hfs
  obtain ⟨hpassed, hpassedSource⟩ := inside_listed hgs
  have hvalue := @Value.arrow " " _ _ none isGap_blank hdeclared nofun
    (value_methodCall isGap_blank hmethod hpassed)
  refine states_value hname hne hvalue ?_
  rw [hfsSource] at hdeclaredSource
  rw [hgsSource] at hpassedSource
  have hline : wrapper.line = "export const " ++ wrapper.name ++ " = (" ++
      String.intercalate ", " (wrapper.method.parameters.map parameterText) ++
      ") => getInstance()." ++ wrapper.method.name ++ "(" ++
      String.intercalate ", " (wrapper.method.parameters.map (·.name)) ++ ");" := rfl
  rw [hline]
  apply String.toList_inj.1
  simp [arrow, arrowMark, methodCall, instanceCall, hdeclaredSource, hpassedSource]

/-! ### Shared hooks -/

/-- A destructured call of the factory, over several lines. -/
theorem states_destructured {hooks : List String} {type : String} (hne : hooks ≠ [])
    (h : ∀ hook ∈ hooks, isWord hook = true) (htype : isWord type = true) :
    States
      ["export const \x7b", "  " ++ String.intercalate ",\n  " hooks,
       "\x7d = " ++ contextHooksFactory ++ "<" ++ type ++ ">(getInstance);"]
      [.exported (.bindings hooks)] := by
  have hindent : IsGap "\n  " := by simp [IsGap, isSpace, isBlank]
  have hbreak : IsGap "\n" := by simp [IsGap, isSpace, isBlank]
  have hsep : "," ++ "\n  " = ",\n  " := by decide
  have hopening : Token.Plain ⟨spaced, .opening .curly, "\x7b"⟩ := rfl
  have hclosing : Token.Plain ⟨gap "\n", .closing .curly, "\x7d"⟩ := rfl
  have hfactory : isWord contextHooksFactory = true := by decide
  have hoperand : IsOperand contextHooksFactory := ⟨by decide, by decide, by decide⟩
  have hargument : Row (word [] "getInstance" .nil) := (phrase_word (by decide)).toRow
  -- a pattern of names, each on a line of its own
  have hpattern : Row (curly spaced (namesListed "\n  " "\n  " hooks) (gap "\n") .nil) := by
    refine ⟨(namesListed_row hindent hindent hne h).legible_group rfl rfl
      ⟨⟨hopening, apart_spaced _ _⟩, hclosing, apart_gap hbreak _ _⟩ trivial (fun _ hn => by cases hn),
      ⟨_, rfl, .inr ⟨_, rfl⟩⟩, fun t ht => ?_⟩
    rw [last_group ht]
    exact .inr (.inl ⟨_, rfl⟩)
  have hread := Reads.of_exported hpattern ⟨rfl, rfl⟩ (by simp [first?]) (by simp)
    (Value.typedCall isGap_blank hfactory hoperand htype (.inr hargument))
  have hbound : bound (curly spaced (namesListed "\n  " "\n  " hooks) (gap "\n") .nil) = hooks :=
    bindings_names "\n  " "\n  " h
  rw [hbound] at hread
  have hblock : ended ["export const \x7b", "  " ++ String.intercalate ",\n  " hooks,
      "\x7d = " ++ contextHooksFactory ++ "<" ++ type ++ ">(getInstance);"] =
        (exportedValue (curly spaced (namesListed "\n  " "\n  " hooks) (gap "\n") .nil)
          (word (gap " ") contextHooksFactory <| sign [] "<" <| word [] type <| sign [] ">" <|
            round [] (word [] "getInstance" .nil) .nil)).source.toList ++ ['\n'] := by
    simp [ended, exportedValue, namesListed_source "\n  " "\n  " hne h, hsep]
  exact States.statement hread hblock .nil

/-! ### The instance -/

/-- The body that constructs the instance once. -/
def instanceBody (name : String) : Forest :=
  curly spaced
    (word (gap "\n  ") "if" <|
      round spaced (word [] "instance" <| sign spaced "===" <| word spaced "null" .nil) <|
      curly spaced
        (word (gap "\n    ") "instance" <| sign spaced "=" <| word spaced "new" <|
          word spaced name <| round [] .nil <| sign [] ";" .nil)
        (gap "\n  ") <|
      word (gap "\n  ") "return" <| word spaced "instance" <| sign [] ";" .nil)
    (gap "\n") .nil

theorem value_instanceBody {name : String} (h : isWord name = true) : Value (instanceBody name) := by
  have hgap : ∀ s ∈ ["\n", "\n  ", "\n    "], IsGap s := by simp [IsGap, isSpace, isBlank]
  simp only [List.forall_mem_cons, List.not_mem_nil, false_imp_iff, implies_true, and_true] at hgap
  obtain ⟨hbreak, hindent, hdeep⟩ := hgap
  have hwords : ∀ w ∈ ["if", "instance", "null", "new", "return"], isWord w = true := by decide
  simp only [List.forall_mem_cons, List.not_mem_nil, false_imp_iff, implies_true, and_true] at hwords
  obtain ⟨hif, hinstance, hnull, hnew, hreturn⟩ := hwords
  refine ⟨⟨?_, ⟨_, rfl, .inr ⟨_, rfl⟩⟩, fun t ht => ?_⟩, passes_group _ _ _⟩
  · simp [instanceBody, Legible, Token.Plain, Token.Follows, Token.adjoins, first?, plainSigns,
      hif, hinstance, hnull, hnew, hreturn, h, apart_gap hbreak, apart_gap hindent, apart_gap hdeep]
  · rw [last_group ht]
    exact .inr (.inl ⟨_, rfl⟩)

/-- The variable that holds the instance. -/
theorem states_holder {type : String} (h : isWord type = true) :
    States ["let instance: " ++ type ++ " | null = null;"] [.declaration (.bindings ["instance"])] := by
  have hinstance : isWord "instance" = true := by decide
  have hnull : isWord "null" = true := by decide
  have hlegible : (word spaced "instance" <| sign [] ":" <| word spaced type <| sign spaced "|" <|
      word spaced "null" <| sign spaced "=" <| word spaced "null" <| sign [] ";" .nil).Legible := by
    simp [Legible, Token.Plain, Token.Follows, Token.adjoins, first?, plainSigns, hinstance, hnull, h]
  have hoperand : IsOperand "null" := ⟨by decide, by decide, by decide⟩
  have htyping : ∀ rest, dropTyping (dropText "!" ((sign [] ":" <| word spaced type <|
      sign spaced "|" <| word spaced "null" .nil) ++ sign spaced "=" rest)) =
        sign spaced "=" rest := by
    intro rest
    simp [dropText, dropTyping, typeSize_nullable, drop]
  refine States.line (Reads.declared (.inr rfl) hinstance (by decide) hlegible htyping
    (passes_operand spaced hoperand)) ?_
  apply String.toList_inj.1
  simp

/-- The instance is declared and constructed, not exported. -/
theorem states_instance {module : Module} (hname : isWord module.unit.name = true)
    (htype : isWord module.instanceType = true) : States module.instanceLines
      [.declaration (.bindings ["instance"]), .declaration (.bindings ["getInstance"])] := by
  have hlines : module.instanceLines =
      "" :: ("//" ++ " Lazily constructed, process-wide " ++ module.unit.name ++ " instance") ::
        (["let instance: " ++ module.instanceType ++ " | null = null;"] ++
          (["const getInstance = (): " ++ module.instanceType ++ " => \x7b",
            "  if (instance === null) \x7b",
            "    instance = new " ++ module.unit.name ++ "();",
            "  \x7d",
            "  return instance;",
            "\x7d;"] ++ [])) := by
    simp [Module.instanceLines]
  have htypes : ∀ t ∈ some module.instanceType, isWord t = true := by simpa using htype
  have hgetter : isWord "getInstance" = true := by decide
  have hvalue := @Value.arrow " " .nil _ (some module.instanceType) isGap_blank (.inl rfl) htypes
    (value_instanceBody hname)
  have hlegible : (word spaced "getInstance" <| sign spaced "=" <|
      arrow " " .nil (some module.instanceType) (instanceBody module.unit.name) ++
        sign [] ";" .nil).Legible :=
    @legible_word " " _ isGap_blank hgetter _ (legible_value hvalue.row) _ rfl (by simp)
      fun _ => by decide
  have hread := @Reads.declared "const" "getInstance" .nil _ (.inl rfl) hgetter (by decide) hlegible
    (fun _ => by simp [dropText, dropTyping]) hvalue.passes
  rw [hlines]
  refine .blank (states_comment _ _ hname (not_lineEnd (by decide)) (not_lineEnd (by decide)) ?_)
  refine (states_holder htype).append (.statement hread ?_ .nil)
  simp [ended, arrow, arrowMark, instanceBody]

/-! ### Utility hooks -/

/-- The type of the options that a factory takes. -/
theorem isPhrase_options {factory : String} (h : isWord factory = true) :
    IsPhrase ("Parameters<typeof " ++ factory ++ ">[1]") := by
  have hparameters : isWord "Parameters" = true := by decide
  have htypeof : isWord "typeof" = true := by decide
  have hoperand : "Parameters" ∉ operatorWords := by decide
  refine ⟨word [] "Parameters" <| sign [] "<" <| word [] "typeof" <| word spaced factory <|
    sign [] ">" <| square [] (.leaf ⟨[], .number, "1"⟩ .nil) [] .nil,
    ⟨⟨?_, ⟨_, rfl, .inl rfl⟩, fun t ht => ?_⟩, fun t ht => ?_⟩, ?_⟩
  · simp [Legible, Token.Plain, Token.Follows, Token.adjoins, first?, plainSigns, hparameters,
      htypeof, h, Token.endsOperand, hoperand]
  · obtain rfl := Option.some.inj ht
    exact .inr (.inl ⟨_, rfl⟩)
  · obtain rfl := Option.some.inj ht
    rfl
  · apply String.toList_inj.1
    simp

/-- The value of a hook that a factory makes. -/
def factoryValue (parameter : Forest) (returns : Option String) (factory method : String) : Forest :=
  arrow " " parameter returns <| word (gap "\n  ") factory .nil ++
    round [] (arrow "" (word [] "opts" .nil) none
      (methodCall " " method (word [] "opts" .nil)) ++
        sign (gap "") "," (word (gap " ") "options" .nil)) .nil

theorem value_factory {parameter : Forest} {returns : Option String} {factory method : String}
    (hparameter : Phrase parameter) (hreturns : ∀ t ∈ returns, isWord t = true)
    (hfactory : Identifier factory) (hmethod : isWord method = true) :
    Value (factoryValue parameter returns factory method) := by
  have hbreak : IsGap "\n  " := by simp [IsGap, isSpace, isBlank]
  have hopts : Row (word [] "opts" .nil) := (phrase_word (by decide)).toRow
  have hoptions : Row (word (gap " ") "options" .nil) := row_word isGap_blank (by decide)
  have hcall := value_methodCall isGap_blank hmethod (.inr hopts)
  have hbound := @Row.arrow "" _ _ none isGap_empty (.inr hopts) (by simp) hcall.row
  exact ((Value.name hbreak hfactory.word hfactory.isOperand).call
    (.inr (hbound.join hoptions isGap_empty (by simp)))).arrow isGap_blank (.inr hparameter.toRow)
      hreturns

/-- The statements of the lines of a utility hook. -/
def BoundHook.statements (bound : BoundHook) : List Statement :=
  match bound.hook.factory with
  | some _ => [.exported (.bindings [bound.hook.hook])]
  | none =>
    .exportList [.plain bound.hook.hook] (some (unquote (singleQuoted bound.specifier))) false ::
      if bound.hook.types.isEmpty then []
      else [.exportList (bound.hook.types.map Specifier.plain)
        (some (unquote (singleQuoted bound.specifier))) true]

/-- The definition of a hook on two lines. -/
theorem states_factory {hook options factory method : String} {returns : Option String}
    (hhook : isWord hook = true) (hne : hook ≠ "enum") (hoptions : IsPhrase options)
    (hreturns : ∀ t ∈ returns, isWord t = true) (hfactory : Identifier factory)
    (hmethod : isWord method = true) :
    States
      ["export const " ++ hook ++ " = (options?: " ++ options ++ ")" ++
         (returns.map (": " ++ ·)).getD "" ++ " =>",
       "  " ++ factory ++ "((opts) => getInstance()." ++ method ++ "(opts), options);"]
      [.exported (.bindings [hook])] := by
  have hword : isWord "options" = true := by decide
  obtain ⟨f, hf, hsource⟩ := @isPhrase_parameter ⟨"options", options, true⟩ hword hoptions
  have htext : f.source = "options?: " ++ options := by
    rw [hsource]
    apply String.toList_inj.1
    simp [parameterText]
  have hread := Reads.exported hhook hne (value_factory hf hreturns hfactory hmethod)
  -- the source breaks off before the factory, as the two lines do
  have hblock : ended ["export const " ++ hook ++ " = (options?: " ++ options ++ ")" ++
      (returns.map (": " ++ ·)).getD "" ++ " =>",
      "  " ++ factory ++ "((opts) => getInstance()." ++ method ++ "(opts), options);"] =
        (exportedValue (word spaced hook .nil)
          (factoryValue f returns factory method)).source.toList ++ ['\n'] := by
    cases returns <;>
      simp [ended, exportedValue, factoryValue, arrow, arrowMark, methodCall, instanceCall, htext]
  exact States.statement hread hblock .nil

theorem states_hook {bound : BoundHook} (hhook : Identifier bound.hook.hook)
    (hfactory : ∀ factory ∈ bound.hook.factory, Identifier factory)
    (htypes : ∀ type ∈ bound.hook.types, isWord type = true)
    (hmethod : isWord bound.method = true) (hquoted : IsQuoted (singleQuoted bound.specifier)) :
    States bound.lines bound.statements := by
  unfold BoundHook.lines BoundHook.statements
  cases hf : bound.hook.factory with
  | some factory =>
    have hword := hfactory factory hf
    have hreturns : ∀ t ∈ bound.hook.types[1]?, isWord t = true := fun t ht =>
      htypes t (List.mem_of_getElem? ht)
    refine states_factory hhook.word (hhook.ne (by decide)) ?_ hreturns hword hmethod
    cases hhead : bound.hook.types.head? with
    | none => exact isPhrase_options hword.word
    | some type => exact isPhrase_word (htypes type (List.mem_of_mem_head? hhead))
  | none =>
    have hname : ∀ name ∈ [bound.hook.hook], isWord name = true := by simpa using hhook.word
    have hlist := states_list (by simp) hname hquoted
    cases htypesList : bound.hook.types with
    | nil => exact hlist
    | cons type more =>
      rw [htypesList] at htypes
      exact hlist.append (states_typeList (by simp) htypes hquoted)

end ScreenHooks.Hook
