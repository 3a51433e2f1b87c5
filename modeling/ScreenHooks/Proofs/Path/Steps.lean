/-
Paths spelled by their steps.

A path is made of a root, a single dot or nothing, and of names that stand between slashes.
Its steps are told by these, and a path that is written out from its steps has them again.

* **`lead_of_components`** — the steps of a path tell what it is made of;
* **`components_ofComponents`** — the steps of a path that is spelled by steps.
-/
import ScreenHooks.Proofs.Path.Names

namespace ScreenHooks.Path

/-! ### Steps of names -/

theorem ofName_injective : Function.Injective Component.ofName := by
  intro a b h
  unfold Component.ofName at h
  split at h <;> split at h
  next ha hb => rw [ha, hb]
  next => cases h
  next => cases h
  next => exact Component.name.inj h

theorem ofName_ne_root (name : String) : Component.ofName name ≠ .root := by
  unfold Component.ofName
  split <;> exact nofun

theorem ofName_text (name : String) : (Component.ofName name).text = name := by
  unfold Component.ofName
  split
  next h => exact h.symm
  next => rfl

theorem names_text (names : List String) :
    (names.map Component.ofName).map Component.text = names := by
  have htexts : Component.text ∘ Component.ofName = id := funext ofName_text
  rw [List.map_map, htexts, List.map_id]

/-! ### What a path is made of -/

theorem lead_cases (p : Path) : p.lead = [.root] ∨ p.lead = [.here] ∨ p.lead = [] := by
  rw [lead]
  cases p.isAbsolute <;> cases p.dotted <;> simp

theorem lead_eq_root {p : Path} : p.lead = [.root] ↔ p.isAbsolute = true := by
  rw [lead]
  cases p.isAbsolute <;> cases p.dotted <;> simp

theorem lead_eq_here {p : Path} : p.lead = [.here] ↔ p.dotted = true := by
  rw [lead, dotted]
  cases p.isAbsolute <;> simp

/-- The steps of a path tell what stands in front of its names. -/
theorem lead_of_components {p : Path} {start : List Component} {names : List String}
    (hstart : start = [.root] ∨ start = [.here] ∨ start = [])
    (h : p.components = start ++ names.map Component.ofName) :
    p.lead = start ∧ p.names = names := by
  have hnone : ∀ {step : Component} {rest : List Component} {names : List String},
      step = .root ∨ step = .here → step :: rest ≠ names.map Component.ofName := by
    intro step rest names hstep hnames
    cases names with
    | nil => cases hnames
    | cons name more =>
      rcases hstep with rfl | rfl
      · exact ofName_ne_root name (List.cons.inj hnames).1.symm
      · exact ofName_ne_here name (List.cons.inj hnames).1.symm
  rw [components_eq] at h
  rcases lead_cases p with hlead | hlead | hlead <;> rcases hstart with rfl | rfl | rfl <;>
    rw [hlead] at h ⊢
  · exact ⟨rfl, List.map_injective_iff.2 ofName_injective (List.cons.inj h).2⟩
  · cases (List.cons.inj h).1
  · exact absurd h (hnone (.inl rfl))
  · cases (List.cons.inj h).1
  · exact ⟨rfl, List.map_injective_iff.2 ofName_injective (List.cons.inj h).2⟩
  · exact absurd h (hnone (.inr rfl))
  · exact absurd h.symm (hnone (.inl rfl))
  · exact absurd h.symm (hnone (.inr rfl))
  · exact ⟨rfl, List.map_injective_iff.2 ofName_injective h⟩

/-- A segment that may stand between slashes and is not idle. -/
def Busy (name : String) : Prop := isIdle name = false ∧ '/' ∉ name.toList

theorem busy_of_mem_names {p : Path} {name : String} (h : name ∈ p.names) : Busy name :=
  ⟨not_idle_of_mem_names h, slash_not_mem (List.mem_filter.1 h).1⟩

theorem names_intercalate {names : List String} (h : ∀ name ∈ names, Busy name) :
    Path.names ⟨String.intercalate "/" names⟩ = names := by
  cases names with
  | nil => decide
  | cons name rest =>
    rw [Path.names, segments_intercalate (by simp) fun part hpart => (h part hpart).2,
      List.filter_eq_self]
    intro part hpart
    simp [(h part hpart).1]

/-- Segments that are not empty are told by the path that they make up. -/
theorem intercalate_injective {parts parts' : List String}
    (h : ∀ part ∈ parts, part ≠ "" ∧ '/' ∉ part.toList)
    (h' : ∀ part ∈ parts', part ≠ "" ∧ '/' ∉ part.toList)
    (heq : String.intercalate "/" parts = String.intercalate "/" parts') : parts = parts' := by
  have hback : ∀ {parts : List String}, (∀ part ∈ parts, part ≠ "" ∧ '/' ∉ part.toList) →
      parts = (segments ⟨String.intercalate "/" parts⟩).filter (· != "") := by
    intro parts h
    cases parts with
    | nil => decide
    | cons first rest =>
      rw [segments_intercalate (by simp) fun part hpart => (h part hpart).2, eq_comm,
        List.filter_eq_self]
      intro part hpart
      simp [(h part hpart).1]
  rw [hback h, hback h', heq]

/-! ### Paths made of steps -/

theorem lead_of_segments {p : Path} {first : String} {rest : List String}
    (h : p.segments = first :: rest) (hfirst : first ≠ "") :
    p.lead = if first = "." then [.here] else [] := by
  have habs : p.isAbsolute = false := by
    apply Bool.eq_false_iff.2
    intro habs
    obtain ⟨more, -, hmore⟩ := (isAbsolute_iff p).1 habs
    rw [h] at hmore
    exact hfirst (List.cons.inj hmore).1
  by_cases hdot : first = "." <;> simp [lead, dotted, habs, h, hdot]

theorem ofComponents_relative {steps : List Component} (h : steps.head? ≠ some .root) :
    ofComponents steps = ⟨String.intercalate "/" (steps.map Component.text)⟩ := by
  unfold ofComponents
  split
  next => exact absurd rfl h
  next => rfl

/-- A path that is spelled by its steps has these steps. -/
theorem components_ofComponents {start : List Component} {names : List String}
    (hstart : start = [.root] ∨ start = [.here] ∨ start = []) (hnames : ∀ name ∈ names, Busy name) :
    (ofComponents (start ++ names.map Component.ofName)).components =
      start ++ names.map Component.ofName := by
  rw [components_eq]
  rcases hstart with rfl | rfl | rfl
  · have htext : ofComponents ([.root] ++ names.map Component.ofName) =
        ⟨"/" ++ String.intercalate "/" names⟩ :=
      congrArg (fun parts => Path.mk ("/" ++ String.intercalate "/" parts)) (names_text names)
    have habs : isAbsolute ⟨"/" ++ String.intercalate "/" names⟩ = true :=
      isAbsolute_append (by decide) _
    have hbelow := names_slash "" (String.intercalate "/" names)
    rw [String.empty_append, names_empty, List.nil_append, names_intercalate hnames] at hbelow
    rw [htext, hbelow, lead, habs]
    rfl
  · have htext : ofComponents ([.here] ++ names.map Component.ofName) =
        ⟨String.intercalate "/" ("." :: names)⟩ :=
      congrArg (fun parts => Path.mk (String.intercalate "/" ("." :: parts))) (names_text names)
    have hsegments : segments ⟨String.intercalate "/" ("." :: names)⟩ = "." :: names :=
      segments_intercalate (by simp) (List.forall_mem_cons.2
        ⟨by decide, fun name hname => (hnames name hname).2⟩)
    have hbusy : (names.filter fun segment => !isIdle segment) = names :=
      List.filter_eq_self.2 fun name hname => by simp [(hnames name hname).1]
    rw [htext, lead_of_segments hsegments (by decide), Path.names, hsegments,
      List.filter_cons_of_neg (by decide), hbusy]
    rfl
  · have htext : ofComponents ([] ++ names.map Component.ofName) =
        ⟨String.intercalate "/" names⟩ := by
      rw [List.nil_append, ofComponents_relative, names_text]
      cases names with
      | nil => simp
      | cons name rest => exact fun h => ofName_ne_root name (Option.some.inj h)
    rw [htext, names_intercalate hnames]
    cases names with
    | nil => rfl
    | cons name rest =>
      obtain ⟨hidle, -⟩ := hnames name List.mem_cons_self
      have hne : name ≠ "" ∧ name ≠ "." := by simpa [isIdle] using hidle
      rw [lead_of_segments (segments_intercalate (by simp) fun part hpart => (hnames part hpart).2)
        hne.1, if_neg hne.2]

end ScreenHooks.Path
