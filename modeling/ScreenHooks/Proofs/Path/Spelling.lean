/-
Spellings of one path.

A path may be written with a single dot and a slash in front, or with a slash at the
end, and has the same names. Relative paths and specifiers do not depend on how paths
are written; the steps of a path do, as the dot in front is one of them.

* **`Respelled.parts_eq`** — spellings have the same steps but for dots;
* **`components_dropExtension`** — the steps of a path without its extension;
* **`moduleSpecifier_congr`** — specifiers between spellings.
-/
import Mathlib.Data.List.ModifyLast
import Mathlib.Logic.Relation
import ScreenHooks.Proofs.Path.Relative
import ScreenHooks.Proofs.Path.Steps

namespace ScreenHooks.Path

/-! ### Dots and slashes -/

/-- One more dot in front of a relative path, or one more slash at its end. -/
inductive Respells : Path → Path → Prop where
  | dot (p : Path) (h : p.isAbsolute = false) : Respells p ⟨"./" ++ p.text⟩
  | slash (p : Path) (h : p.text ≠ "") : Respells p ⟨p.text ++ "/"⟩

/-- Whether paths differ in such dots and slashes only. -/
def Respelled : Path → Path → Prop := Relation.EqvGen Respells

/-- The steps of a path but for dots tell whether it is absolute, and its names. -/
theorem parts_eq_iff {p q : Path} :
    q.parts = p.parts ↔ q.isAbsolute = p.isAbsolute ∧ q.names = p.names := by
  rw [parts_eq, parts_eq]
  constructor
  · intro h
    cases hp : p.isAbsolute <;> cases hq : q.isAbsolute <;> rw [hp, hq] at h
    · exact ⟨rfl, List.map_injective_iff.2 ofName_injective h⟩
    · cases hnames : p.names with
      | nil => simp [hnames] at h
      | cons name rest =>
        rw [hnames] at h
        exact absurd (List.cons.inj h).1.symm (ofName_ne_root name)
    · cases hnames : q.names with
      | nil => simp [hnames] at h
      | cons name rest =>
        rw [hnames] at h
        exact absurd (List.cons.inj h).1 (ofName_ne_root name)
    · exact ⟨rfl, List.map_injective_iff.2 ofName_injective (List.cons.inj h).2⟩
  · rintro ⟨habs, hnames⟩
    rw [habs, hnames]

theorem Respelled.parts_eq {p q : Path} (h : Respelled p q) : q.parts = p.parts := by
  induction h with
  | rel p q h =>
    rw [parts_eq_iff]
    cases h with
    | dot hp =>
      have hdot : "./" ++ p.text = "." ++ ("/" ++ p.text) := by
        rw [← String.append_assoc]
        rfl
      refine ⟨?_, ?_⟩
      · rw [hp, hdot, isAbsolute_append (by decide)]
        rfl
      · have hnames := names_slash "." p.text
        rw [String.append_assoc, ← hdot] at hnames
        exact hnames
    | slash hp =>
      refine ⟨isAbsolute_append hp "/", ?_⟩
      have hnames := names_slash p.text ""
      rwa [String.append_empty, names_empty, List.append_nil] at hnames
  | refl p => rfl
  | symm p q _ ih => exact ih.symm
  | trans p q r _ _ ihp ihq => exact ihq.trans ihp

/-! ### Steps of other paths -/

theorem parts_join_congr {p q : Path} (h : q.parts = p.parts) (hp : p.isAbsolute = false)
    (r : Path) : (q.join r).parts = (p.join r).parts := by
  obtain ⟨habs, hnames⟩ := parts_eq_iff.1 h
  cases hr : r.isAbsolute with
  | true => rw [join, join, hr, if_pos rfl, if_pos rfl]
  | false =>
    rw [parts_eq_iff, isAbsolute_join hp hr, isAbsolute_join (habs.trans hp) hr, names_join _ hr,
      names_join _ hr, hnames]
    exact ⟨rfl, rfl⟩

theorem parts_directory_congr {p q : Path} (h : q.parts = p.parts) (hp : p.isAbsolute = false) :
    q.directory.parts = p.directory.parts := by
  obtain ⟨habs, hnames⟩ := parts_eq_iff.1 h
  obtain ⟨hpNames, hpAbs⟩ := names_directory hp
  obtain ⟨hqNames, hqAbs⟩ := names_directory (habs.trans hp)
  exact parts_eq_iff.2 ⟨hqAbs.trans hpAbs.symm, by rw [hpNames, hqNames, hnames]⟩

theorem relative_congr {start start' goal goal' : Path} (hstart : start'.parts = start.parts)
    (hgoal : goal'.parts = goal.parts) : relative start' goal' = relative start goal := by
  rw [relative, relative, relativeSegments, relativeSegments, hstart, hgoal]

/-! ### Stripped paths -/

theorem prefix_components_iff {p base : Path} (hbase : base.isAbsolute = false) :
    base.components <+: p.components ↔
      base.components = [] ∨ (base.lead = p.lead ∧ base.names <+: p.names) := by
  have hmap : base.names.map Component.ofName <+: p.names.map Component.ofName ↔
      base.names <+: p.names := List.prefix_map_iff_of_injective ofName_injective
  rw [components_eq, components_eq]
  have hlead : base.lead = [.here] ∨ base.lead = [] := by
    rw [lead, hbase]
    cases base.dotted <;> simp
  rcases hlead with hlead | hlead <;> rw [hlead]
  · rcases lead_cases p with hp | hp | hp <;> rw [hp]
    · simp [List.cons_prefix_cons]
    · simp [List.cons_prefix_cons, hmap]
    · cases p.names with
      | nil => simp
      | cons name rest => simp [List.cons_prefix_cons, (ofName_ne_here name).symm]
  · cases hnames : base.names with
    | nil => simp
    | cons name rest =>
      rw [hnames] at hmap
      rcases lead_cases p with hp | hp | hp <;> rw [hp]
      · simp [List.cons_prefix_cons, ofName_ne_root name]
      · simp [List.cons_prefix_cons, ofName_ne_here name]
      · simpa using hmap

/-- Where a path goes on from a base in the same spelling, the names of the base are
stripped; no other path changes its steps. -/
theorem components_strip {p base : Path} (hbase : base.isAbsolute = false) :
    ((p.strip? base).getD p).components =
      if base.lead = p.lead ∧ base.names <+: p.names then
        (p.names.drop base.names.length).map Component.ofName
      else p.components := by
  have hbusy : ∀ name ∈ p.names, Busy name := fun name => busy_of_mem_names
  have hiff := prefix_components_iff (p := p) hbase
  unfold strip?
  split
  next hbegins =>
    rw [Option.getD_some]
    by_cases hsame : base.lead = p.lead ∧ base.names <+: p.names
    · have hdrop : p.components.drop base.components.length =
          [] ++ (p.names.drop base.names.length).map Component.ofName := by
        rw [components_eq p, components_eq base, hsame.1, List.length_append, List.length_map,
          ← List.drop_drop, List.drop_left, List.map_drop]
        rfl
      rw [if_pos hsame, hdrop]
      exact components_ofComponents (.inr (.inr rfl)) fun name hname =>
        hbusy name (List.mem_of_mem_drop hname)
    · -- a base without steps is cut off everywhere and changes nothing
      have hnone := (hiff.1 (List.isPrefixOf_iff_prefix.1 hbegins)).resolve_right hsame
      rw [if_neg hsame, hnone, List.length_nil, List.drop_zero, components_eq p]
      exact components_ofComponents (lead_cases p) hbusy
  next hbegins =>
    rw [Option.getD_none, if_neg]
    exact fun hsame => hbegins (List.isPrefixOf_iff_prefix.2 (hiff.2 (.inr hsame)))

/-! ### Steps of paths without their extension -/

/-- Whether the last name of a path starts with two dots only if it is a climb. -/
def Regular (p : Path) : Prop :=
  ∀ name, p.names.getLast? = some name → Text.startsWith name ".." = true → name = ".."

instance (p : Path) : Decidable (Regular p) :=
  decidable_of_iff ((p.names.getLast?.all fun name =>
      !Text.startsWith name ".." || name == "..") = true) <| by
    unfold Regular
    cases p.names.getLast? with
    | none => simp
    | some name => simp [or_iff_not_imp_left]

/-- The stem of a name; a climb has no extension. -/
def stemOf (name : String) : String := if name = ".." then name else (splitExtension name).1

/-- The names of a path without the extension of the last one. -/
def stemmed (names : List String) : List String := names.modifyLast stemOf

theorem stemmed_concat (names : List String) (name : String) :
    stemmed (names ++ [name]) = names ++ [stemOf name] := List.modifyLast_concat _ _ _

theorem length_stemmed (names : List String) : (stemmed names).length = names.length := by
  rcases List.eq_nil_or_concat names with rfl | ⟨before, name, rfl⟩
  · rfl
  · rw [List.concat_eq_append, stemmed_concat, List.length_append, List.length_append]
    rfl

/-- Without their extension, names are still segments that are not empty. -/
theorem stemmed_plain {names : List String} (h : ∀ name ∈ names, Busy name) :
    ∀ s ∈ stemmed names, s ≠ "" ∧ '/' ∉ s.toList := by
  have hbusy : ∀ name, Busy name → name ≠ "" ∧ '/' ∉ name.toList := by
    rintro name ⟨hidle, hslash⟩
    refine ⟨?_, hslash⟩
    rintro rfl
    cases hidle
  have hstem : ∀ name, Busy name → stemOf name ≠ "" ∧ '/' ∉ (stemOf name).toList := by
    intro name hname
    unfold stemOf
    split
    · exact hbusy name hname
    · obtain ⟨stem, extension, hsplit⟩ :
          ∃ stem extension, splitExtension name = (stem, extension) := ⟨_, _, rfl⟩
      cases extension with
      | none =>
        rw [splitExtension_of_none (by rw [hsplit])]
        exact hbusy name hname
      | some extension =>
        obtain ⟨rfl, hne, -⟩ := eq_of_splitExtension hsplit
        rw [hsplit]
        exact ⟨hne, fun hslash => (hbusy _ hname).2 (by simp [hslash])⟩
  rcases List.eq_nil_or_concat names with rfl | ⟨before, name, rfl⟩
  · exact fun s hs => by cases hs
  · rw [List.concat_eq_append] at h ⊢
    rw [stemmed_concat]
    intro s hs
    rcases List.mem_append.1 hs with hs | hs
    · exact hbusy s (h s (List.mem_append_left _ hs))
    · rw [List.mem_singleton.1 hs]
      exact hstem name (h name (by simp))

/-- A path with a name has a last one, before idle segments. -/
theorem segments_concat {p : Path} {names : List String} {name : String}
    (h : p.names = names ++ [name]) :
    ∃ before idle, p.segments = before ++ name :: idle ∧ (∀ s ∈ idle, isIdle s = true) ∧
      isIdle name = false ∧ (before.filter fun segment => !isIdle segment) = names := by
  obtain ⟨idle, hsegments, hidle⟩ := trimIdle_append p.segments
  have hbusy : isIdle name = false := not_idle_of_mem_names (p := p) (h ▸ by simp)
  have hnames : (trimIdle p.segments).filter (fun segment => !isIdle segment) = names ++ [name] := by
    rw [← h, Path.names]
    conv_rhs => rw [hsegments, List.filter_append, filter_idle hidle, List.append_nil]
  have hne : trimIdle p.segments ≠ [] := by
    intro hnil
    simp [hnil] at hnames
  have hlast := trimIdle_getLast p.segments hne
  rw [← List.dropLast_concat_getLast hne, List.filter_append,
    List.filter_cons_of_pos (by simp [hlast])] at hnames
  obtain ⟨hbefore, hname⟩ := List.append_inj' hnames rfl
  refine ⟨_, idle, ?_, hidle, hbusy, hbefore⟩
  rw [← List.singleton_inj.1 hname]
  conv_lhs => rw [hsegments, ← List.dropLast_concat_getLast hne]
  simp

/-- What stands in front of the names is told by the segments before the last name. -/
theorem lead_congr {p q : Path} {before idle idle' : List String} {name name' : String}
    (hp : p.segments = before ++ name :: idle) (hq : q.segments = before ++ name' :: idle')
    (hname : isIdle name = false) (hname' : isIdle name' = false) : q.lead = p.lead := by
  have habs : q.isAbsolute = p.isAbsolute := by
    rw [Bool.eq_iff_iff, isAbsolute_iff, isAbsolute_iff, hp, hq]
    cases before with
    | nil =>
      constructor <;> rintro ⟨rest, -, h⟩ <;> obtain ⟨rfl, -⟩ := List.cons.inj h
      · exact absurd hname' (by decide)
      · exact absurd hname (by decide)
    | cons first rest => simp
  have hdot : q.dotted = p.dotted := by
    rw [dotted, dotted, habs, hp, hq]
    cases before with
    | nil =>
      have hne : name ≠ "." ∧ name' ≠ "." := by
        constructor <;> rintro rfl
        · exact absurd hname (by decide)
        · exact absurd hname' (by decide)
      simp [beq_eq_false_iff_ne.2 hne.1, beq_eq_false_iff_ne.2 hne.2]
    | cons first rest => rfl
  rw [lead, lead, habs, hdot]

theorem dropExtension_of_fileName {p : Path} (h : p.fileName? = none) : p.dropExtension = p := by
  have hextension : p.extension? = none := by rw [extension?, h, Option.bind_none]
  have hcut : cutAfterStem p = p := by rw [cutAfterStem, h]
  rw [dropExtension, hextension, Option.getD_none, String.length_empty, Nat.sub_zero,
    ← String.length_toList, List.take_length, String.ofList_toList]
  exact hcut

/-- The stem of a name that does not start with two dots names something. -/
theorem not_idle_splitExtension {name : String} (hbusy : isIdle name = false)
    (hdots : Text.startsWith name ".." = false) : isIdle (splitExtension name).1 = false := by
  obtain ⟨stem, extension, hsplit⟩ : ∃ stem extension, splitExtension name = (stem, extension) :=
    ⟨_, _, rfl⟩
  cases extension with
  | none => rwa [splitExtension_of_none (by rw [hsplit])]
  | some extension =>
    obtain ⟨rfl, hstem, -⟩ := eq_of_splitExtension hsplit
    have hdot : stem ≠ "." := by
      rintro rfl
      simp [Text.startsWith, List.isPrefixOf] at hdots
    rw [hsplit]
    simp [isIdle, hstem, hdot]

/-- A path without its extension keeps all names but the last one. -/
theorem components_dropExtension {p : Path} (h : Regular p) :
    p.dropExtension.components = p.lead ++ (stemmed p.names).map Component.ofName := by
  rcases List.eq_nil_or_concat p.names with hnames | ⟨names, name, hnames⟩
  · have hnone : p.fileName? = none := by rw [fileName_eq, hnames]; rfl
    rw [dropExtension_of_fileName hnone, components_eq, hnames]
    rfl
  · rw [List.concat_eq_append] at hnames
    rw [hnames, stemmed_concat]
    by_cases hup : name = ".."
    · have hnone : p.fileName? = none := by
        rw [fileName_eq, hnames, List.getLast?_concat, hup]
        rfl
      rw [dropExtension_of_fileName hnone, components_eq, hnames, stemOf, if_pos hup]
    · obtain ⟨before, idle, hsegments, hidle, hbusy, hbefore⟩ := segments_concat hnames
      have hdots : Text.startsWith name ".." = false :=
        Bool.eq_false_iff.2 fun hdots => hup (h name (by rw [hnames, List.getLast?_concat]) hdots)
      have hstemBusy := not_idle_splitExtension hbusy hdots
      have hstemDot : (splitExtension name).1 ≠ "." := by
        intro hdot
        rw [hdot] at hstemBusy
        cases hstemBusy
      have hcut := segments_dropExtension hsegments hidle hbusy hup hstemDot
      have hcutNames : p.dropExtension.names = names ++ [(splitExtension name).1] := by
        rw [Path.names, hcut, List.filter_append, hbefore,
          List.filter_cons_of_pos (by simp [hstemBusy])]
        rfl
      rw [components_eq, hcutNames, lead_congr hsegments hcut hbusy hstemBusy, stemOf, if_neg hup]

theorem parts_dropExtension {p : Path} (h : Regular p) :
    p.dropExtension.parts = (if p.isAbsolute then [.root] else []) ++
      (stemmed p.names).map Component.ofName := by
  have hnames : ((stemmed p.names).map Component.ofName).filter (· != .here) =
      (stemmed p.names).map Component.ofName := by
    rw [List.filter_eq_self]
    intro step hstep
    obtain ⟨name, -, rfl⟩ := List.mem_map.1 hstep
    simpa using ofName_ne_here name
  rw [parts, components_dropExtension h, List.filter_append, hnames, lead]
  cases p.isAbsolute <;> cases p.dotted <;> rfl

theorem Regular.congr {p q : Path} (h : q.parts = p.parts) (hp : Regular p) : Regular q := by
  rw [Regular, (parts_eq_iff.1 h).2]
  exact hp

theorem moduleSpecifier_of_directory {source source' : Path}
    (h : source'.directory.parts = source.directory.parts) (target : Path) :
    moduleSpecifier source' target = moduleSpecifier source target :=
  relative_congr h rfl

/-- A specifier does not depend on how the two modules are spelled. -/
theorem moduleSpecifier_congr {source source' target target' : Path}
    (hsource : source'.directory.parts = source.directory.parts)
    (htarget : target'.parts = target.parts) (hregular : Regular target) :
    moduleSpecifier source' target' = moduleSpecifier source target := by
  obtain ⟨habs, hnames⟩ := parts_eq_iff.1 htarget
  refine relative_congr hsource ?_
  rw [parts_dropExtension hregular, parts_dropExtension (hregular.congr htarget), habs, hnames]

end ScreenHooks.Path
