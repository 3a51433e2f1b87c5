/-
Lines that are read back statement by statement.

Generated modules are lines, each with its line break: blank lines, comments to the
end of their line, and statements that may go over several lines. What is known of
such a module are its statements, in their order.

* **`States.append`** — lines after lines;
* **`States.read`** — the statements of the script that consists of the lines;
* **`States.read_module`** — the module of that script;
* **`States.read_exports`** — its exports.
-/
import ScreenHooks.Proofs.Script.Tokens
import ScreenHooks.Script.Module

namespace ScreenHooks.Script

/-! ### One statement -/

/-- Whether a forest is read back from its source and is the given statement,
whatever stands before and after it. -/
structure Reads (f : Forest) (s : Statement) : Prop where
  legible : f.Legible
  first : ∃ t, f.first? = some t ∧ t.lead = [] ∧ t.kind = .word
  read : ∀ lead rest, Statement.at (f.leadBy lead ++ rest) = (s, rest)

theorem statementsFrom_skip (a b : Forest) :
    statementsFrom a.length (a ++ b) = statementsFrom 0 b := by
  induction a with
  | nil => rfl
  | leaf t rest ih => exact ih
  | group o inner c rest _ ih => exact ih

theorem sizeBefore_append (a b : Forest) : sizeBefore (a ++ b) b = a.length := by
  rw [sizeBefore, Forest.length_append, Nat.add_sub_cancel]

theorem Reads.statements_append {f : Forest} {s : Statement} (h : Reads f s) (lead : List Trivia)
    (rest : Forest) : statements (f.leadBy lead ++ rest) = s :: statements rest := by
  have hread := h.read lead rest
  obtain ⟨t, hfirst, -⟩ := h.first
  cases f with
  | nil => cases hfirst
  | leaf u more =>
    simp only [Forest.leadBy, Forest.leaf_append] at hread ⊢
    simp only [statements, statementsFrom, hread, sizeBefore_append, statementsFrom_skip]
  | group o inner c more =>
    simp only [Forest.leadBy, Forest.group_append] at hread ⊢
    simp only [statements, statementsFrom, hread, sizeBefore_append, statementsFrom_skip]

/-- A statement that nothing follows. -/
theorem statements_last {f : Forest} {t : Token} (hfirst : f.first? = some t) {s : Statement}
    (h : Statement.at f = (s, .nil)) : statements f = [s] := by
  have hskip : ∀ rest : Forest, statementsFrom (sizeBefore rest .nil) rest = [] := by
    intro rest
    have hrest := statementsFrom_skip rest .nil
    rwa [Forest.append_nil] at hrest
  cases f with
  | nil => cases hfirst
  | leaf u rest => rw [statements, statementsFrom, h, hskip]
  | group o inner c rest => rw [statements, statementsFrom, h, hskip]

/-! ### Lines -/

/-- The characters of lines, each with its line break. -/
def ended (lines : List String) : List Char := lines.flatMap fun line => line.toList ++ ['\n']

theorem ended_cons (line : String) (lines : List String) :
    ended (line :: lines) = line.toList ++ '\n' :: ended lines := by
  simp [ended]

theorem ended_append (a b : List String) : ended (a ++ b) = ended a ++ ended b :=
  List.flatMap_append

theorem not_lineEnd {text : String} (h : text.toList.all (!Token.isLineEnd ·) = true) :
    ∀ c ∈ text.toList, Token.isLineEnd c = false := by
  simpa using h

/-- Lines that are read as the given statements. -/
inductive States : List String → List Statement → Prop where
  | nil : States [] []
  | blank {lines : List String} {ss : List Statement} (h : States lines ss) :
      States ("" :: lines) ss
  | comment {lines : List String} {ss : List Statement} (text : String)
      (htext : ∀ c ∈ text.toList, Token.isLineEnd c = false) (h : States lines ss) :
      States (("//" ++ text) :: lines) ss
  | statement {block lines : List String} {ss : List Statement} {f : Forest} {s : Statement}
      (hread : Reads f s) (hblock : ended block = f.source.toList ++ ['\n'])
      (h : States lines ss) : States (block ++ lines) (s :: ss)

namespace States

theorem append {a b : List String} {ss ts : List Statement} (ha : States a ss)
    (hb : States b ts) : States (a ++ b) (ss ++ ts) := by
  induction ha with
  | nil => exact hb
  | blank _ ih => exact .blank ih
  | comment text htext _ ih => exact .comment text htext ih
  | statement hread hblock _ ih =>
    rw [List.append_assoc]
    exact .statement hread hblock ih

/-- A statement on a line of its own. -/
theorem line {text : String} {f : Forest} {s : Statement} (hread : Reads f s)
    (htext : text = f.source) : States [text] [s] := by
  have hblock : ended [text] = f.source.toList ++ ['\n'] := by rw [htext, ended_cons]; rfl
  simpa using States.statement hread hblock .nil

/-- The same, compared character by character. -/
theorem chars {text : String} {f : Forest} {s : Statement} (hread : Reads f s)
    (htext : text.toList = f.source.toList) : States [text] [s] :=
  .line hread (String.toList_inj.1 htext)

end States

/-! ### The whole script -/

/-- Spaces before the rest of a script go to its first token. -/
theorem scanFrom_dropWhile {dialect : Dialect} {state : ScanState} (hcode : state.Code)
    (lead : List Trivia) (cs : List Char) :
    ∃ lead', scanFrom dialect 0 state lead cs =
      scanFrom dialect 0 state lead' (cs.dropWhile isSpace) := by
  have hcut : cs.takeWhile isSpace ++ cs.dropWhile isSpace = cs := List.takeWhile_append_dropWhile
  by_cases hnone : cs.takeWhile isSpace = []
  · rw [hnone, List.nil_append] at hcut
    exact ⟨lead, by rw [hcut]⟩
  · have hspaces : ∀ c ∈ cs.takeWhile isSpace, isSpace c = true :=
      List.all_eq_true.1 List.all_takeWhile
    have hrest : ∀ c ∈ (cs.dropWhile isSpace).head?, isSpace c = false := by
      intro c hc
      have h := List.head?_dropWhile_not isSpace cs
      rw [hc] at h
      exact h
    have h := @scanFrom_blank dialect state lead hcode _ _ hnone hspaces hrest
    rw [hcut] at h
    exact ⟨_, h⟩

/-- A comment to the end of its line goes to the next token. -/
theorem scanFrom_comment {dialect : Dialect} {state : ScanState} (hcode : state.Code)
    (lead : List Trivia) {text : String} (htext : ∀ c ∈ text.toList, Token.isLineEnd c = false)
    (rest : List Char) :
    scanFrom dialect 0 state lead (("//" ++ text).toList ++ '\n' :: rest) =
      scanFrom dialect 0 state (lead ++ [.comment ("//" ++ text)]) ('\n' :: rest) := by
  -- the comment stops at the end of the line and leaves that in place
  have htake : ('/' :: (text.toList ++ '\n' :: rest)).takeWhile (!Token.isLineEnd ·) =
      '/' :: text.toList := by
    refine @takeWhile_all (!Token.isLineEnd ·) ('/' :: text.toList) ('\n' :: rest) ?_ ?_
    · refine List.forall_mem_cons.2 ⟨by decide, fun c hc => ?_⟩
      rw [htext c hc]
      rfl
    · rintro c hc
      obtain rfl := Option.some.inj hc
      decide
  have hspace : isSpace '/' = false := by decide
  have hcomment : String.ofList ('/' :: '/' :: text.toList) = "//" ++ text := by
    apply String.toList_inj.1
    simp
  have hpiece : pieceOf dialect state '/' ('/' :: (text.toList ++ '\n' :: rest)) =
      .trivia (.comment ("//" ++ text)) := by
    rw [pieceOf_code hcode, codePiece]
    simp only [hspace, Bool.false_eq_true, if_false, if_true]
    rw [slashPiece, htake, hcomment]
  have hchars : ("//" ++ text).toList ++ '\n' :: rest =
      '/' :: ('/' :: text.toList ++ '\n' :: rest) := by simp
  have hlength : ("//" ++ text).length - 1 = ('/' :: text.toList).length := by
    rw [← String.length_toList, String.toList_append]
    rfl
  rw [hchars, scanFrom]
  simp only [List.cons_append, hpiece, Trivia.text, hlength]
  rw [← List.cons_append]
  exact scanFrom_skip _ _

theorem Reads.source_head {f : Forest} {s : Statement} (h : Reads f s) :
    ∃ c r, f.source.toList = c :: r ∧ isWordStart c = true := by
  obtain ⟨t, hfirst, hlead, hkind⟩ := h.first
  have hmem : t ∈ f.tokens := by
    rw [← Forest.tokens_head?] at hfirst
    exact List.mem_of_head? hfirst
  obtain ⟨hplain, -⟩ := h.legible.plain t hmem
  simp only [Token.Plain, hkind] at hplain
  obtain ⟨c, r, htext, hc, -⟩ := isWord_iff.1 hplain
  have hsource : t.source.toList = c :: r := by simp [Token.source, Token.leadText, hlead, htext]
  rw [Forest.source_toList]
  cases htokens : f.tokens with
  | nil => rw [htokens] at hmem; cases hmem
  | cons u ts =>
    rw [← Forest.tokens_head?, htokens] at hfirst
    obtain rfl := Option.some.inj hfirst
    exact ⟨c, r ++ charsOf ts, by rw [charsOf_cons, hsource]; rfl, hc⟩

/-- Lines are read as tokens in paired brackets with the statements of the lines. Spaces
at the start may be gone. -/
theorem States.scanned {lines : List String} {ss : List Statement} (h : States lines ss)
    {dialect : Dialect} {state : ScanState} (hcode : state.Code) (lead : List Trivia) :
    ∃ f : Forest, f.Paired ∧
      scanFrom dialect 0 state lead ((ended lines).dropWhile isSpace) = f.tokens ∧
        statements f = ss := by
  have hbreak : isSpace '\n' = true := by decide
  have hmore : ∀ cs, ('\n' :: cs).dropWhile isSpace = cs.dropWhile isSpace :=
    fun cs => List.dropWhile_cons_of_pos hbreak
  -- blanks run over the ends of lines, so the lines are read after their first spaces
  induction h generalizing state lead with
  | nil => exact ⟨.nil, trivial, rfl, rfl⟩
  | @blank lines ss _ ih =>
    rw [ended_cons]
    obtain ⟨f, hf⟩ := ih hcode lead
    refine ⟨f, ?_⟩
    show f.Paired ∧ scanFrom dialect 0 state lead (('\n' :: ended lines).dropWhile isSpace) = _ ∧ _
    rwa [hmore]
  | @comment lines ss text htext _ ih =>
    have hslash : isSpace '/' = false := by decide
    have hhead : (("//" ++ text).toList ++ '\n' :: ended lines).dropWhile isSpace =
        ("//" ++ text).toList ++ '\n' :: ended lines := by
      simp [hslash]
    obtain ⟨lead', hlead⟩ :=
      @scanFrom_dropWhile dialect state hcode (lead ++ [.comment ("//" ++ text)]) ('\n' :: ended lines)
    rw [ended_cons, hhead, scanFrom_comment hcode lead htext, hlead, hmore]
    exact ih hcode lead'
  | @statement block lines ss f s hread hblock _ ih =>
    obtain ⟨t, hfirst, -, hkind⟩ := hread.first
    obtain ⟨c, r, hsource, hc⟩ := hread.source_head
    have hhead : (ended (block ++ lines)).dropWhile isSpace =
        f.source.toList ++ '\n' :: ended lines := by
      rw [ended_append, hblock, List.append_assoc, List.singleton_append, hsource, List.cons_append,
        List.dropWhile_cons_of_neg (by simp [isWordStart_not_space hc])]
    have hends : ∀ last ∈ f.tokens.getLast?, last.Ends ('\n' :: ended lines) := fun last hlast =>
      ends_of_space (hread.legible.plain last (List.mem_of_getLast? hlast)).1 hbreak _
    have hoperand : t.kind = .sign → t.text = "<" → state.operand = true := by
      rw [hkind]
      rintro ⟨⟩
    obtain ⟨last, hlast, hscan⟩ :=
      @Forest.Legible.scanned f hread.legible dialect state hcode lead t hfirst hoperand _ hends
    obtain ⟨lead', hlead⟩ := @scanFrom_dropWhile dialect last hlast [] ('\n' :: ended lines)
    obtain ⟨g, hpaired, htokens, hstatements⟩ := ih hlast lead'
    refine ⟨f.leadBy lead ++ g, (hread.legible.paired.leadBy lead).append hpaired, ?_, ?_⟩
    · rw [hhead, hscan, hlead, hmore, htokens, Forest.tokens_append]
    · rw [hread.statements_append, hstatements]

/-- A script that does not name an interpreter is scanned from its start. -/
theorem scan_of_head {cs : List Char} (hhead : ∀ c ∈ cs.head?, c ≠ '#') (dialect : Dialect) :
    scan dialect cs = scanFrom dialect 0 {} [] cs := by
  unfold scan
  split
  next rest => exact absurd rfl (hhead '#' rfl)
  next => rfl

/-- The script that consists of the lines has all its brackets in pairs, and the
statements of the lines. -/
theorem States.built {lines : List String} {ss : List Statement} (h : States lines ss)
    (dialect : Dialect) {source : String} (hsource : source.toList = ended lines)
    (hhead : ∀ c ∈ source.toList.head?, c ≠ '#') :
    ∃ f, Forest.ofTokens (scan dialect source.toList) = ⟨f, 0⟩ ∧ statements f = ss := by
  have hcode : ScanState.Code {} := by simp [ScanState.Code]
  obtain ⟨lead, hlead⟩ := @scanFrom_dropWhile dialect {} hcode [] (ended lines)
  obtain ⟨f, hpaired, htokens, hstatements⟩ := @States.scanned _ _ h dialect {} hcode lead
  refine ⟨f, ?_, hstatements⟩
  rw [scan_of_head hhead, hsource, hlead, htokens, Forest.ofTokens_tokens hpaired]

/-- The statements of the script that consists of the lines. -/
theorem States.read {lines : List String} {ss : List Statement} (h : States lines ss)
    (dialect : Dialect) {source : String} (hsource : source.toList = ended lines)
    (hhead : ∀ c ∈ source.toList.head?, c ≠ '#') :
    statements (Forest.ofTokens (scan dialect source.toList)).forest = ss := by
  obtain ⟨f, hbuilt, hstatements⟩ := h.built dialect hsource hhead
  rw [hbuilt, hstatements]

/-- The module of the script that consists of the lines. -/
theorem States.read_module {lines : List String} {ss : List Statement} (h : States lines ss)
    (dialect : Dialect) {source : String} (hsource : source.toList = ended lines)
    (hhead : ∀ c ∈ source.toList.head?, c ≠ '#') :
    Module.read dialect source = Module.ofStatements ss := by
  obtain ⟨f, hbuilt, hstatements⟩ := h.built dialect hsource hhead
  unfold Module.read
  rw [hbuilt]
  simp [hstatements]

/-- The exports of the script that consists of the lines. -/
theorem States.read_exports {lines : List String} {ss : List Statement} (h : States lines ss)
    (dialect : Dialect) {source : String} (hsource : source.toList = ended lines)
    (hhead : ∀ c ∈ source.toList.head?, c ≠ '#') :
    (Module.read dialect source).exports = ss.flatMap Statement.exports := by
  rw [h.read_module dialect hsource hhead]
  rfl

end ScreenHooks.Script
