/-
The names that a type text mentions.

The brackets of arrays are taken out first. A separator divides the names of a text, and what
is written around a type on its side of the separators makes no difference: blanks, type
operators and a label in front of it, blanks and brackets behind it.

* **`mentions_eq`** — the names of a text without its array brackets;
* **`namesIn_separator`** — the names on the two sides of a separator;
* **`namesIn_label`**, **`namesIn_blank`**, **`namesIn_operator`**, **`namesIn_quiet`** — what
  makes no difference;
* **`namesIn_word`**, **`namesIn_mute`** — a word, and a piece without a name;
* **`typeNames_separator`** — the names of a text with a separator, and names added to others.
-/
import Mathlib.Tactic.Tauto
import ScreenHooks.Proofs.Names
import ScreenHooks.Proofs.TypeText.Pieces

namespace ScreenHooks.TypeText

open Text

/-! ### Array brackets -/

/-- A text without its empty pairs of brackets. -/
def withoutArrays : List Char → List Char
  | '[' :: ']' :: r => withoutArrays r
  | c :: r => c :: withoutArrays r
  | [] => []

@[simp] theorem withoutArrays_nil : withoutArrays [] = [] := rfl

theorem withoutArrays_pair (r : List Char) :
    withoutArrays ('[' :: ']' :: r) = withoutArrays r := rfl

theorem withoutArrays_cons {c : Char} {r : List Char} (h : c = '[' → r.head? ≠ some ']') :
    withoutArrays (c :: r) = c :: withoutArrays r := by
  rw [withoutArrays]
  rintro rest rfl rfl
  exact h rfl rfl

/-- A text is read pair by pair, and character by character where no pair starts. -/
theorem withoutArrays_induction {motive : List Char → Prop} (nil : motive [])
    (pair : ∀ r, motive r → motive ('[' :: ']' :: r))
    (char : ∀ c r, (c = '[' → r.head? ≠ some ']') → motive r → motive (c :: r))
    (cs : List Char) : motive cs := by
  induction cs using withoutArrays.induct with
  | case1 r ih => exact pair r ih
  | case2 c r hne ih =>
    refine char c r ?_ ih
    intro hc hr
    obtain ⟨rest, hrest⟩ := List.head?_eq_some_iff.1 hr
    exact hne rest hc hrest
  | case3 => exact nil

theorem replaceFrom_arrays (cs : List Char) :
    replaceFrom ['[', ']'] [] 0 cs = withoutArrays cs := by
  induction cs using withoutArrays_induction with
  | nil => rfl
  | pair r ih =>
    rw [withoutArrays_pair, ← ih]
    simp [replaceFrom, List.isPrefixOf]
  | char c r hne ih =>
    rw [withoutArrays_cons hne, ← ih, replaceFrom, if_neg]
    intro hpair
    obtain ⟨rest, hrest⟩ := List.isPrefixOf_iff_prefix.1 hpair
    obtain ⟨rfl, hr⟩ := List.cons.inj hrest
    exact hne rfl (by rw [← hr]; rfl)

theorem withoutArrays_append {s t : List Char} (h : t.head? ≠ some ']') :
    withoutArrays (s ++ t) = withoutArrays s ++ withoutArrays t := by
  induction s using withoutArrays_induction with
  | nil => rfl
  | pair r ih =>
    rw [withoutArrays_pair, ← ih]
    exact withoutArrays_pair (r ++ t)
  | char c r hne ih =>
    rw [withoutArrays_cons hne, List.cons_append, List.cons_append, ← ih]
    refine withoutArrays_cons fun hc => ?_
    cases r with
    | nil => exact h
    | cons d rest => exact hne hc

/-- A closing bracket stays, or takes an opening one with it. -/
theorem withoutArrays_close (s : List Char) :
    withoutArrays (s ++ [']']) = withoutArrays s ++ [']'] ∨
      withoutArrays s = withoutArrays (s ++ [']']) ++ ['['] := by
  induction s using withoutArrays_induction with
  | nil => exact .inl rfl
  | pair r ih =>
    rw [List.cons_append, List.cons_append, withoutArrays_pair, withoutArrays_pair]
    exact ih
  | char c r hne ih =>
    cases r with
    | nil =>
      by_cases hc : c = '['
      · subst hc
        exact .inr rfl
      · have hone : withoutArrays [c] = [c] := withoutArrays_cons (by simp)
        rw [hone]
        exact .inl (withoutArrays_cons fun heq => absurd heq hc)
    | cons d rest =>
      have hcons : withoutArrays (c :: (d :: rest ++ [']'])) =
          c :: withoutArrays (d :: rest ++ [']']) := withoutArrays_cons hne
      rw [withoutArrays_cons hne, List.cons_append, hcons]
      exact ih.imp (congrArg (c :: ·)) (congrArg (c :: ·))

theorem withoutArrays_front {s : List Char} (h : '[' ∉ s) (t : List Char) :
    withoutArrays (s ++ t) = s ++ withoutArrays t := by
  induction s with
  | nil => rfl
  | cons c r ih =>
    rw [List.mem_cons, not_or] at h
    rw [List.cons_append, withoutArrays_cons fun hc => absurd hc.symm h.1, ih h.2]
    rfl

theorem withoutArrays_eq {s : List Char} (h : '[' ∉ s) : withoutArrays s = s := by
  simpa using withoutArrays_front h []

theorem mem_withoutArrays {cs : List Char} {c : Char} (h : c ∈ withoutArrays cs) : c ∈ cs := by
  induction cs using withoutArrays_induction with
  | nil => exact h
  | pair r ih =>
    rw [withoutArrays_pair] at h
    exact List.mem_cons_of_mem _ (List.mem_cons_of_mem _ (ih h))
  | char d r hne ih =>
    rw [withoutArrays_cons hne] at h
    exact (List.mem_cons.1 h).elim (fun hc => hc ▸ List.mem_cons_self)
      fun hr => List.mem_cons_of_mem _ (ih hr)

theorem Whole.withoutArrays {cs : List Char} (h : Whole cs) : Whole (withoutArrays cs) :=
  fun c hc => h c (mem_withoutArrays hc)

/-! ### Names of a text -/

/-- The names of the pieces of a text without its array brackets. -/
def namesIn (cs : List Char) : List String := pieceNames (withoutArrays cs)

theorem mentions_eq (type : String) : mentions type = namesIn type.toList := by
  have hnil : Whole [] := by simp [Whole]
  have harrays : replaceAllChars ['[', ']'] [] type.toList = withoutArrays type.toList :=
    replaceFrom_arrays _
  have harrows := pieceNames_arrows hnil (withoutArrays type.toList)
  rw [List.nil_append, List.nil_append] at harrows
  rw [mentions, pieces, flatten, harrays, namesIn, ← harrows]
  rfl

/-- The names of a text are those on the two sides of a separator. -/
theorem namesIn_separator {c : Char} (hc : isSeparator c = true) (s t : List Char) :
    namesIn (s ++ c :: t) = namesIn s ++ namesIn t := by
  have hne : ∀ d : Char, isSeparator d = false → c ≠ d := by
    rintro d hd rfl
    rw [hc] at hd
    cases hd
  rw [namesIn, withoutArrays_append (by simpa using hne ']' (by decide)),
    withoutArrays_cons fun heq => absurd heq (hne '[' (by decide)), pieceNames_separator hc]
  rfl

theorem namesIn_nil : namesIn [] = [] := by
  have hname : pieceName? [] = none := (pieceName?_eq []).trans headName?_nil
  rw [namesIn, withoutArrays_nil, pieceNames_whole (by simp [Whole]), hname]
  rfl

/-- What stands before a colon names nothing. -/
theorem namesIn_label {label : List Char} (h : Whole label) (cs : List Char) :
    namesIn (label ++ ':' :: cs) = namesIn cs := by
  have hcolon : Whole [':'] := by simp [Whole, isSeparator]
  have hfront : withoutArrays (label ++ ':' :: cs) =
      (withoutArrays label ++ [':']) ++ withoutArrays cs := by
    rw [withoutArrays_append (by simp), withoutArrays_cons (by simp)]
    simp
  rw [namesIn, hfront, pieceNames_front (h.withoutArrays.append hcolon), namesIn]
  intro piece _
  rw [List.append_assoc]
  exact pieceName?_colon _ _

theorem namesIn_blank {c : Char} (h : isBlank c = true) (cs : List Char) :
    namesIn (c :: cs) = namesIn cs := by
  obtain ⟨hseparator, hne⟩ := isBlank_ne h
  have hopen : c ≠ '[' := fun hc => hne (by simp [hc])
  have hcolon : c ≠ ':' := fun hc => hne (by simp [hc])
  have hfront : Whole [c] := by simpa [Whole] using hseparator
  rw [namesIn, withoutArrays_cons fun hc => absurd hc hopen, ← List.singleton_append,
    pieceNames_front hfront, namesIn]
  intro piece _
  exact pieceName?_front (by simpa using hcolon.symm) (headName?_skip (.blank h .nil) piece)

/-- An operator in front makes no difference where it ends. -/
theorem namesIn_operator {word cs : List Char} (hword : String.ofList word ∈ operators)
    (hcs : ∀ c ∈ cs.head?, isNamePart c = false ∧ c ≠ '[') :
    namesIn (word ++ cs) = namesIn cs := by
  obtain ⟨-, hparts, -⟩ := operator_parts hword
  have hne : ∀ c ∈ word, c ≠ '[' ∧ c ≠ ':' := fun c hc =>
    ⟨fun heq => (isNamePart_ne (hparts c hc)).2 (by simp [heq]),
      fun heq => (isNamePart_ne (hparts c hc)).2 (by simp [heq])⟩
  have hwhole : Whole word := fun c hc => (isNamePart_ne (hparts c hc)).1
  have hhead : (withoutArrays cs).head? = cs.head? := by
    cases cs with
    | nil => rfl
    | cons c r => rw [withoutArrays_cons fun hc => absurd hc (hcs c rfl).2]; rfl
  rw [namesIn, withoutArrays_front fun hmem => (hne '[' hmem).1 rfl, pieceNames_front hwhole,
    namesIn]
  intro piece hpiece
  refine pieceName?_front (fun hmem => (hne ':' hmem).2 rfl) (headName?_operator hword ?_)
  intro c hc
  rcases hpiece with hpiece | rfl
  · exact (hcs c (by rwa [← hhead, ← hpiece])).1
  · cases hc

/-- What goes on with no identifier makes no difference at the end. -/
theorem namesIn_quiet {quiet : List Char} (h : ∀ c ∈ quiet, isQuiet c = true) (cs : List Char) :
    namesIn (cs ++ quiet) = namesIn cs := by
  induction quiet generalizing cs with
  | nil => rw [List.append_nil]
  | cons c r ih =>
    have hc := h c List.mem_cons_self
    have hsplit : cs ++ c :: r = (cs ++ [c]) ++ r := by simp
    rw [hsplit, ih fun d hd => h d (List.mem_cons_of_mem _ hd)]
    by_cases hclose : c = ']'
    · subst hclose
      rcases withoutArrays_close cs with hstay | hpair
      · rw [namesIn, hstay, pieceNames_quiet hc, namesIn]
      · rw [namesIn, namesIn, hpair, pieceNames_quiet (by decide)]
    · have hone : withoutArrays [c] = [c] := withoutArrays_cons (by simp)
      rw [namesIn, withoutArrays_append (by simpa using hclose), hone, pieceNames_quiet hc, namesIn]

section Pieces

variable {cs : List Char}

/-- The name of a text that is one piece without a label. -/
theorem namesIn_piece (h : Whole cs) (hcolon : ':' ∉ cs) :
    namesIn cs = (headName? (withoutArrays cs)).toList := by
  rw [namesIn, pieceNames_whole h.withoutArrays, pieceName?_eq,
    afterColon_of_not_mem fun hmem => hcolon (mem_withoutArrays hmem)]

theorem namesIn_word (h : isIdentifier cs = true) : namesIn cs = (imported? cs).toList := by
  obtain ⟨-, hparts, -⟩ := isIdentifier_parts h
  have hmem : ∀ d ∈ [':', '['], d ∉ cs := by
    intro d hd hmem
    have hother := (isNamePart_ne (hparts d hmem)).2
    simp only [List.mem_cons, List.not_mem_nil, or_false] at hd hother
    tauto
  have hhead : headName? (cs ++ []) = imported? cs := headName?_word h (by simp)
  rw [List.append_nil] at hhead
  rw [namesIn_piece (fun c hc => (isNamePart_ne (hparts c hc)).1) (hmem ':' (by simp)),
    withoutArrays_eq (hmem '[' (by simp)), hhead]

/-- A piece that starts like no identifier names nothing. -/
theorem namesIn_mute {c : Char} (hstart : isNameStart c = false) (hblank : isBlank c = false)
    (hwhole : Whole (c :: cs)) (hcolon : ':' ∉ c :: cs) (hpair : c = '[' → cs.head? ≠ some ']') :
    namesIn (c :: cs) = [] := by
  rw [namesIn_piece hwhole hcolon, withoutArrays_cons hpair, headName?_mute hstart hblank]
  rfl

end Pieces

/-! ### Names without repeats -/

/-- The characters that separate. -/
def separators : List Char := ['<', '>', '|', '&', ',', ';', '(', ')', '\x7b', '\x7d']

theorem isSeparator_iff {c : Char} : isSeparator c = true ↔ c ∈ separators := by
  simp [isSeparator, separators, or_assoc]

/-- The names of a text are mentioned on the two sides of a separator. -/
theorem mentions_separator {c : Char} (hc : isSeparator c = true) (s t : String) :
    mentions (s ++ String.singleton c ++ t) = mentions s ++ mentions t := by
  have htext : (s ++ String.singleton c ++ t).toList = s.toList ++ c :: t.toList := by
    simp
  rw [mentions_eq, htext, namesIn_separator hc, ← mentions_eq, ← mentions_eq]

/-- The names of a text may be gathered before they are added to others. -/
theorem addNames_eq (type : String) (names : Names) :
    addNames type names = names.insertAll (typeNames type).toList := by
  rw [typeNames_eq, Names.insertAll_ofList]
  rfl

/-- A separator divides the names of any text: those before it come first, then those after it
that are not there yet. To other names a text adds its own in the same way. -/
theorem typeNames_separator {c : Char} (hc : c ∈ separators) (s t : String) (names : Names) :
    (typeNames (s ++ String.singleton c ++ t)).toList =
        (typeNames s).toList ++ (typeNames t).toList.filter (· ∉ (typeNames s).toList) ∧
      (addNames s names).toList =
        names.toList ++ (typeNames s).toList.filter (· ∉ names.toList) := by
  have hsides : typeNames (s ++ String.singleton c ++ t) = addNames t (typeNames s) := by
    rw [typeNames_eq, mentions_separator (isSeparator_iff.2 hc), Names.ofList,
      Names.insertAll_append]
    rfl
  constructor
  · rw [hsides, addNames_eq, Names.toList_insertAll_toList]
  · rw [addNames_eq, Names.toList_insertAll_toList]

/-- An arrow is cut between its two characters. -/
theorem typeNames_separator_arrow :
    '>' ∈ separators ∧
      (typeNames ("(a: Foo[], b: Bar) =" ++ String.singleton '>' ++ " Map<Bar, Baz>")).toList =
        ["Foo", "Bar", "Baz"] ∧
      (addNames "(a: Foo[], b: Bar) =" (.ofList ["Baz", "Bar"])).toList =
        ["Baz", "Bar", "Foo"] := by
  have hleft : (typeNames "(a: Foo[], b: Bar) =").toList = ["Foo", "Bar"] := by decide +kernel
  have hright : (typeNames " Map<Bar, Baz>").toList = ["Bar", "Baz"] := by decide +kernel
  obtain ⟨hsides, hadded⟩ := typeNames_separator (by decide : '>' ∈ separators)
    "(a: Foo[], b: Bar) =" " Map<Bar, Baz>" (.ofList ["Baz", "Bar"])
  refine ⟨by decide, ?_, ?_⟩
  · rw [hsides, hleft, hright]
    decide
  · rw [hadded, hleft]
    decide

end ScreenHooks.TypeText
