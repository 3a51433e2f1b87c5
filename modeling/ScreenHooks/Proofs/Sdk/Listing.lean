/-
Which names a module lists, and which of them are screens.

The names of a module are those of its own export items and of the modules that
its star exports lead to, in as many steps as it takes. An item counts by the
name that importers see. Only a default export of its own is left out: one that
is written as a renaming, `export { X as default }`, goes by its name as any
other does, and makes a screen if it leads to a class.

* **`mem_names_iff`** — the names that a module lists;
* **`mem_discover_iff`** — the screens that are found;
* **`default_listed_iff`** — the name `default` in particular.
-/
import ScreenHooks.Proofs.Sdk.Traversal
import ScreenHooks.Sdk.Discovery

namespace ScreenHooks.Sdk

open Script Relation

variable {d : Disk} {p : Project} {typesToo : Bool} {start : Path}

/-! ### Listed names -/

/-- Whether a name is listed at a module: an export item goes by it, there or in a
module that star exports lead to. The item counts, and is no default export of its
own. -/
def Lists (d : Disk) (p : Project) (typesToo : Bool) (start : Path) (name : String) : Prop :=
  ∃ key module item, ReflTransGen (StarStep d p) start key ∧
    readModule d key = .ok (some module) ∧ item ∈ module.exports ∧
    (typesToo = true ∨ item.isTypeOnly = false) ∧ item.isDefault = false ∧
    item.name? = some name

theorem ownName?_eq_some_iff {item : Export} {name : String} :
    ownName? item = some name ↔ item.isDefault = false ∧ item.name? = some name := by
  cases item <;> simp [ownName?, Export.isDefault, Export.name?]

theorem mem_listed_iff {module : Module} {item : Export} :
    item ∈ listed typesToo (some module) ↔
      item ∈ module.exports ∧ (typesToo = true ∨ item.isTypeOnly = false) := by
  simp [listed]

/-- A star export counts for types and for values. -/
theorem star_mem_listed {module : Module} {source : String} (h : .star source ∈ module.exports) :
    .star source ∈ listed typesToo (some module) :=
  mem_listed_iff.2 ⟨h, .inr rfl⟩

theorem lists_of_ownName {key : Path} {found : Option Module} {item : Export} {name : String}
    (hkey : ReflTransGen (StarStep d p) start key) (hfound : readModule d key = .ok found)
    (hitem : item ∈ listed typesToo found) (hname : ownName? item = some name) :
    Lists d p typesToo start name := by
  cases found with
  | none => cases hitem
  | some module =>
    obtain ⟨hexports, hcounts⟩ := mem_listed_iff.1 hitem
    obtain ⟨hown, hname⟩ := ownName?_eq_some_iff.1 hname
    exact ⟨key, module, item, hkey, hfound, hexports, hcounts, hown, hname⟩

/-- A walk finds only names that are listed. -/
theorem Walk.lists {key : Path} {items : List Export} {s s' : Progress}
    (h : Walk d p typesToo key items s s') {found : Option Module}
    (hkey : ReflTransGen (StarStep d p) start key) (hfound : readModule d key = .ok found)
    (hitems : items ⊆ listed typesToo found) {name : String} (hname : name ∈ s'.names) :
    name ∈ s.names ∨ Lists d p typesToo start name := by
  -- the names of the modules that are entered are listed, and own names are
  induction h generalizing found with
  | done key s => exact .inl hname
  | item hitem _ ih =>
    obtain ⟨hfirst, hrest⟩ := List.cons_subset.1 hitems
    rcases ih hkey hfound hrest hname with hbefore | hlists
    · rcases Names.mem_insertAll.1 hbefore with hbefore | hown
      · exact .inl hbefore
      · exact .inr (lists_of_ownName hkey hfound hfirst (Option.mem_toList.1 hown))
    · exact .inr hlists
  | dangling _ _ ih => exact ih hkey hfound (List.cons_subset.1 hitems).2 hname
  | again _ _ _ ih => exact ih hkey hfound (List.cons_subset.1 hitems).2 hname
  | @enter key target source items inside s s' s'' htarget _ hinside _ _ ihInside ih =>
    obtain ⟨hfirst, hrest⟩ := List.cons_subset.1 hitems
    rcases ih hkey hfound hrest hname with hbefore | hlists
    · cases found with
      | none => cases hfirst
      | some module =>
        have hstep : StarStep d p key target.normalize :=
          ⟨module, source, target, hfound, (mem_listed_iff.1 hfirst).1, htarget, rfl⟩
        exact ihInside (hkey.tail hstep) hinside (List.Subset.refl _) hbefore
    · exact .inr hlists

/-- What nothing more can be added to has entered all that star exports lead to. -/
theorem Closed.entered_of_reach {s : Progress} (h : Closed d p typesToo [] s)
    (hstart : start ∈ s.entered) {key : Path} (hreach : ReflTransGen (StarStep d p) start key) :
    key ∈ s.entered := by
  induction hreach with
  | refl => exact hstart
  | tail _ hstep ih =>
    obtain ⟨module, source, target, hmodule, hstar, htarget, rfl⟩ := hstep
    exact (h.settled _ ih List.not_mem_nil _ hmodule _ (star_mem_listed hstar)).2 source target rfl
      htarget

theorem Closed.mem_of_lists {s : Progress} (h : Closed d p typesToo [] s)
    (hstart : start ∈ s.entered) {name : String} (hname : Lists d p typesToo start name) :
    name ∈ s.names := by
  obtain ⟨key, module, item, hreach, hmodule, hexports, hcounts, hown, hname⟩ := hname
  have hentered : key ∈ s.entered := h.entered_of_reach hstart hreach
  have hsettled : Settled d p s key item :=
    h.settled key hentered List.not_mem_nil _ hmodule item (mem_listed_iff.2 ⟨hexports, hcounts⟩)
  exact hsettled.1 name (Option.mem_toList.2 (ownName?_eq_some_iff.2 ⟨hown, hname⟩))

/-- The names of a module are those that it lists. -/
theorem mem_names_iff (path : Path) (typesToo : Bool)
    (hreadable : StarReadable d p path.normalize) :
    ∃ names, (Project.exportedNames path typesToo).on d (p.scope d) = .ok names ∧
      ∀ name, name ∈ names ↔ Lists d p typesToo path.normalize name := by
  obtain ⟨found, s, hfound, hon, hwalk, hclosed⟩ := exportedNames_enters path typesToo hreadable
  refine ⟨s.names, hon, fun name => ⟨fun hname => ?_, hclosed.mem_of_lists ?_⟩⟩
  · rcases hwalk.lists .refl hfound (List.Subset.refl _) hname with hnone | hlists
    · exact absurd hnone List.not_mem_nil
    · exact hlists
  · exact hwalk.grows.1 List.mem_cons_self

/-! ### Found screens -/

theorem on_screen?_iff {naming : Naming} {barrel : Path} {name : String} {scope : Scope}
    {screen : FoundScreen} :
    (screen? naming barrel name).on d scope = .ok (some screen) ↔
      (Project.resolveExport barrel name).on d scope = .ok (some screen.resolved) ∧
        screen.resolved.kind = .classType ∧ screen.name = name ∧
        screen.kebab = naming.kebab name := by
  unfold screen?
  rw [Reading.on_bind_ok]
  constructor
  · rintro ⟨result, hresult, hscreen⟩
    cases result with
    | none => cases hscreen
    | some resolved =>
      by_cases hclass : resolved.kind = .classType
      · simp only [if_pos hclass] at hscreen
        obtain rfl := Option.some.inj (Except.ok.inj hscreen)
        exact ⟨hresult, hclass, rfl, rfl⟩
      · simp only [if_neg hclass] at hscreen
        cases hscreen
  · rintro ⟨hresult, hclass, rfl, hkebab⟩
    refine ⟨some screen.resolved, hresult, ?_⟩
    simp only [if_pos hclass, ← hkebab]
    rfl

/-- The screens are the names that the barrel exports as values and that lead to a
class. -/
theorem mem_discover_iff {naming : Naming} {barrel : Path} {scope : Scope}
    {found : List FoundScreen} (h : (discover naming barrel).on d scope = .ok found)
    {screen : FoundScreen} :
    screen ∈ found ↔
      (∃ names, (barrelNames barrel).on d scope = .ok names ∧ screen.name ∈ names) ∧
        (Project.resolveExport barrel screen.name).on d scope = .ok (some screen.resolved) ∧
        screen.resolved.kind = .classType ∧ screen.kebab = naming.kebab screen.name := by
  unfold discover at h
  obtain ⟨module, -, h⟩ := Reading.on_bind_ok.1 h
  cases module with
  | none =>
    obtain ⟨u, hthrow, -⟩ := Reading.on_bind_ok.1 h
    cases hthrow
  | some module =>
    obtain ⟨names, hnames, h⟩ := Reading.on_bind_ok.1 h
    rw [Reading.mem_filterMapM_iff h]
    constructor
    · rintro ⟨name, hname, hscreen⟩
      obtain ⟨hresolved, hclass, rfl, hkebab⟩ := on_screen?_iff.1 hscreen
      exact ⟨⟨names, hnames, hname⟩, hresolved, hclass, hkebab⟩
    · rintro ⟨⟨names', hnames', hname⟩, hresolved, hclass, hkebab⟩
      obtain rfl := Except.ok.inj (hnames.symm.trans hnames')
      exact ⟨screen.name, hname, on_screen?_iff.2 ⟨hresolved, hclass, rfl, hkebab⟩⟩

/-! ### The name of default exports -/

/-- The name `default` is listed exactly at the modules where an export item goes by
it that is no default export of its own, and such a name becomes a screen if it
leads to a class. -/
theorem default_listed_iff (hp : Inquiry.Sound d p) (barrel : Path)
    (hreadable : StarReadable d p barrel.normalize) :
    (∀ typesToo, ∃ names, ((Project.exportedNames barrel typesToo).run d p).1 = .ok names ∧
      ("default" ∈ names ↔ Lists d p typesToo barrel.normalize "default")) ∧
    ∀ naming found, ((discover naming barrel).run d p).1 = .ok found →
      ((∃ screen ∈ found, screen.name = "default") ↔
        Lists d p false barrel.normalize "default" ∧ ∃ resolved,
          ((Project.resolveExport barrel "default").run d p).1 = .ok (some resolved) ∧
            resolved.kind = .classType) := by
  constructor
  · intro typesToo
    obtain ⟨names, hon, hnames⟩ := mem_names_iff barrel typesToo hreadable
    rw [Reading.run_eq hp]
    exact ⟨names, hon, hnames "default"⟩
  · intro naming found hfound
    rw [Reading.run_eq hp] at hfound ⊢
    obtain ⟨names, hon, hnames⟩ := mem_names_iff barrel false hreadable
    constructor
    -- screens are found among the names that are listed
    · rintro ⟨screen, hscreen, hname⟩
      obtain ⟨⟨names', hon', hlisted⟩, hresolved, hclass, -⟩ := (mem_discover_iff hfound).1 hscreen
      obtain rfl := Except.ok.inj (hon.symm.trans hon')
      rw [hname] at hlisted hresolved
      exact ⟨(hnames "default").1 hlisted, screen.resolved, hresolved, hclass⟩
    · rintro ⟨hlists, resolved, hresolved, hclass⟩
      refine ⟨⟨"default", naming.kebab "default", resolved⟩, (mem_discover_iff hfound).2 ?_, rfl⟩
      exact ⟨⟨names, hon, (hnames "default").2 hlists⟩, hresolved, hclass, rfl⟩

/-- A module with a default export that is written as a renaming, behind a star
export. -/
def renamedDisk : Disk :=
  { entries := [(["core"], .directory),
      (["core", "all.ts"], .file (.text "export * from './a'")),
      (["core", "a.ts"], .file (.text "class X \x7b\x7d\nexport \x7b X as default \x7d;"))] }

theorem default_listed_renamed :
    (∃ names, ((Project.exportedNames ⟨"/core/all.ts"⟩ false).run renamedDisk ⟨⟨"/core"⟩, []⟩).1 =
      .ok names ∧ "default" ∈ names) ∧
    ∃ found, ((discover {} ⟨"/core/a.ts"⟩).run renamedDisk ⟨⟨"/core"⟩, []⟩).1 = .ok found ∧
      ∃ screen ∈ found, screen.name = "default" := by
  have hsound : Inquiry.Sound renamedDisk ⟨⟨"/core"⟩, []⟩ := fun _ _ h => by cases h
  have hreadable : ∀ start, StarReadable renamedDisk ⟨⟨"/core"⟩, []⟩ start := fun start key _ =>
    readModule_of_text (by simp [renamedDisk, Disk.files]) key
  have hnormal : Path.normalize ⟨"/core/all.ts"⟩ = ⟨"/core/all.ts"⟩ ∧
      Path.normalize ⟨"/core/a.ts"⟩ = ⟨"/core/a.ts"⟩ := by decide +kernel
  have hall : readModule renamedDisk ⟨"/core/all.ts"⟩ = .ok (some { exports := [.star "./a"] }) := by
    decide +kernel
  have ha : readModule renamedDisk ⟨"/core/a.ts"⟩ = .ok (some
      { exports := [.ofLocal "X" "default" false], locals := [("X", .classType)] }) := by
    decide +kernel
  have hstep : StarStep renamedDisk ⟨⟨"/core"⟩, []⟩ ⟨"/core/all.ts"⟩ ⟨"/core/a.ts"⟩ :=
    ⟨_, "./a", ⟨"/core/a.ts"⟩, hall, List.mem_singleton_self _, by decide +kernel, hnormal.2.symm⟩
  have hlists : ∀ {start : Path}, ReflTransGen (StarStep renamedDisk ⟨⟨"/core"⟩, []⟩) start
      ⟨"/core/a.ts"⟩ → Lists renamedDisk ⟨⟨"/core"⟩, []⟩ false start "default" := fun hreach =>
    ⟨_, _, _, hreach, ha, List.mem_singleton_self _, .inr rfl, rfl, rfl⟩
  constructor
  · obtain ⟨names, hnames, hdefault⟩ :=
      (default_listed_iff hsound ⟨"/core/all.ts"⟩ (hreadable _)).1 false
    rw [hnormal.1] at hdefault
    exact ⟨names, hnames, hdefault.2 (hlists (.single hstep))⟩
  · obtain ⟨found, hrun⟩ : ∃ found, ((discover {} ⟨"/core/a.ts"⟩).run renamedDisk
        ⟨⟨"/core"⟩, []⟩).1 = .ok found := exists_ok (by decide +kernel)
    have hresolved : ((Project.resolveExport ⟨"/core/a.ts"⟩ "default").run renamedDisk
        ⟨⟨"/core"⟩, []⟩).1 = .ok (some ⟨⟨"/core/a.ts"⟩, some "X", .classType⟩) := by
      decide +kernel
    have hdefault := (default_listed_iff hsound ⟨"/core/a.ts"⟩ (hreadable _)).2 {} found hrun
    rw [hnormal.2] at hdefault
    exact ⟨found, hrun, hdefault.2 ⟨hlists .refl, _, hresolved, rfl⟩⟩

end ScreenHooks.Sdk
