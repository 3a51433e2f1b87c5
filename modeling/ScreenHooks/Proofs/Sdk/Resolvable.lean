/-
Names that are resolved are listed.

The names of a module are listed by a walk through star exports, and the
declaration behind a name is found by a search that follows specifiers from name to
name. The search starts at an export item of the name, or goes through star exports
until it finds one, and the walk goes through all of these. So no name has a
declaration without being listed, and an extraction publishes all interfaces that
the search can find.

* **`Within.lists`** — a name that leads to a declaration is listed;
* **`mem_published_iff`** — the interfaces that an extraction publishes;
* **`resolved_listed`** — names that are resolved.
-/
import ScreenHooks.Proofs.Sdk.Limit
import ScreenHooks.Proofs.Sdk.Listing

namespace ScreenHooks.Sdk

open Script Relation

variable {d : Disk} {p : Project} {scope : Scope} {path : Path} {name : String}

/-! ### Names that lead to a declaration -/

/-- A name other than `default` is listed where an export item decides about it. -/
theorem lists_of_explicit {key : Path} {module : Module} {lead : Lead}
    (hname : name ≠ "default") (hmodule : readModule d key = .ok (some module))
    (h : explicitLead? module name = some lead) : Lists d p true key name := by
  obtain ⟨item, hitem, hitemName⟩ := item_of_explicitLead h
  refine ⟨key, module, item, .refl, hmodule, hitem, .inl rfl, ?_, hitemName⟩
  cases item with
  | byDefault localName kind => exact absurd (Option.some.inj hitemName).symm hname
  | _ => rfl

theorem mem_starSources {module : Module} {source : String} (h : source ∈ starSources module name) :
    .star source ∈ module.exports := by
  unfold starSources at h
  split at h
  · cases h
  · obtain ⟨item, hitem, hsource⟩ := List.mem_filterMap.1 h
    cases item with
    | star other =>
      obtain rfl := Option.some.inj hsource
      exact hitem
    | _ => cases hsource

theorem Lists.head {typesToo : Bool} {key next : Path} (hstep : StarStep d p key next)
    (h : Lists d p typesToo next name) : Lists d p typesToo key name := by
  obtain ⟨last, module, item, hreach, hrest⟩ := h
  exact ⟨last, module, item, .head hstep hreach, hrest⟩

/-- A name other than `default` is listed where it leads to a declaration. -/
theorem Within.lists {limit : Nat} {node : Node} {resolved : Resolved}
    (h : Within d p limit node resolved) (hname : node.2 ≠ "default") :
    Lists d p true node.1 node.2 := by
  induction h with
  | @here limit node resolved hanswer =>
    obtain ⟨module, hmodule, hlead⟩ := Option.bind_eq_some_iff.1 hanswer
    split at hlead
    next hexplicit => exact lists_of_explicit hname (read_of_moduleAt hmodule) hexplicit
    next => cases hlead
  | @there limit node next resolved hanswer hnext hrest ih =>
    unfold successors at hnext
    split at hnext
    · cases hnext
    next module hmodule =>
      have hread := read_of_moduleAt hmodule
      split at hnext
      next hexplicit => exact lists_of_explicit hname hread hexplicit
      next => cases hnext
      next =>
        -- a star export leads to the same name in another module
        obtain ⟨source, hsource, hnode⟩ := List.mem_filterMap.1 hnext
        obtain ⟨target, htarget, rfl⟩ := Option.map_eq_some_iff.1 hnode
        have hstep : StarStep d p node.1 target.normalize :=
          ⟨module, source, target, hread, mem_starSources hsource, htarget, rfl⟩
        exact (ih hname).head hstep

/-! ### Published interfaces -/

theorem Reading.mem_filterM_iff {α : Type} {q : α → Reading Bool} {l found : List α}
    (h : (l.filterM q).on d scope = .ok found) {a : α} :
    a ∈ found ↔ a ∈ l ∧ (q a).on d scope = .ok true := by
  -- what is kept so far stands in front, last one first
  have haux : ∀ acc kept, (l.filterAuxM q acc).on d scope = .ok kept →
      (a ∈ kept ↔ a ∈ acc ∨ a ∈ l ∧ (q a).on d scope = .ok true) := by
    clear h
    induction l with
    | nil =>
      intro acc kept hkept
      rw [← Except.ok.inj hkept]
      simp
    | cons b rest ih =>
      intro acc kept hkept
      obtain ⟨holds, hholds, hkept⟩ := on_bind_ok.1 hkept
      rw [ih _ _ hkept, List.mem_cons]
      cases holds with
      | true =>
        rw [cond_true, List.mem_cons, or_assoc]
        by_cases hb : a = b
        · simp [hb, hholds]
        · simp [hb]
      | false =>
        rw [cond_false]
        by_cases hb : a = b
        · simp [hb, hholds]
        · simp [hb]
  obtain ⟨kept, hkept, hreverse⟩ := on_bind_ok.1 h
  rw [← Except.ok.inj hreverse, List.mem_reverse, haux [] kept hkept]
  simp

theorem Reading.Ends.filterM {α : Type} {q : α → Reading Bool} (l : List α)
    (h : ∀ a, (q a).Ends d scope) : (l.filterM q).Ends d scope := by
  have haux : ∀ acc, (l.filterAuxM q acc).Ends d scope := by
    induction l with
    | nil => exact .pure
    | cons a rest ih => exact fun acc => (h a).bind fun holds => ih _
  exact (haux []).bind fun kept => .pure _

theorem on_isInterface_iff {declarations : Path} :
    (isInterface declarations name).on d scope = .ok true ↔ ∃ resolved,
      (Project.resolveExport declarations name).on d scope = .ok (some resolved) ∧
        resolved.kind = .interfaceType := by
  unfold isInterface
  rw [Reading.on_bind_ok]
  constructor
  · rintro ⟨result, hresult, hkind⟩
    cases result with
    | none => cases hkind
    | some resolved => exact ⟨resolved, hresult, of_decide_eq_true (Except.ok.inj hkind)⟩
  · rintro ⟨resolved, hresolved, hkind⟩
    exact ⟨some resolved, hresolved, congrArg Except.ok (decide_eq_true hkind)⟩

theorem ends_isInterface (declarations : Path) (name : String) :
    (isInterface declarations name).Ends d (p.scope d) := by
  refine (ends_resolveExport declarations name).bind fun found => ?_
  cases found with
  | none => exact .pure false
  | some resolved => exact .pure _

theorem ends_membersInterface? (declarations : Path) (name : String) :
    (membersInterface? declarations name).Ends d (p.scope d) := by
  refine (ends_resolveExport declarations name).bind fun found => ?_
  split
  next => exact (ends_load _).bind fun module => .pure _
  next => exact .pure none

/-- An extraction publishes the listed names that are allowed and lead to an
interface. -/
theorem mem_published_iff {declarations : Path} {unit : Screen.Unit} {allow : Screen.AllowList}
    {found : Screen.Interfaces} (h : (extract declarations unit allow).on d scope = .ok found) :
    name ∈ found.published ↔
      (∃ names, (Project.exportedNames declarations true).on d scope = .ok names ∧ name ∈ names) ∧
        allow.contains name = true ∧ (isInterface declarations name).on d scope = .ok true := by
  unfold extract at h
  obtain ⟨names, hnames, h⟩ := Reading.on_bind_ok.1 h
  obtain ⟨published, hpublished, h⟩ := Reading.on_bind_ok.1 h
  obtain ⟨members, -, h⟩ := Reading.on_bind_ok.1 h
  rw [← Except.ok.inj h]
  show name ∈ Names.ofList published ↔ _
  rw [Names.mem_ofList, Reading.mem_filterM_iff hpublished, List.mem_filter, and_assoc]
  constructor
  · rintro ⟨hname, hrest⟩
    exact ⟨⟨names, hnames, hname⟩, hrest⟩
  · rintro ⟨⟨names', hnames', hname⟩, hrest⟩
    obtain rfl := Except.ok.inj (hnames.symm.trans hnames')
    exact ⟨hname, hrest⟩

/-- An extraction ends where all modules can be read. -/
theorem extract_ok (hreadable : ∀ key, ∃ found, readModule d key = .ok found)
    (declarations : Path) (unit : Screen.Unit) (allow : Screen.AllowList) :
    ∃ found, (extract declarations unit allow).on d (p.scope d) = .ok found := by
  obtain ⟨names, hnames, -⟩ := mem_names_iff (p := p) declarations true fun key _ => hreadable key
  have hrest : ∀ names : Names, (do
      let published ← (names.toList.filter allow.contains).filterM (isInterface declarations)
      let members ← membersInterface? declarations unit.membersInterface
      return ({
        methods := (members.map (·.methods)).getD []
        published := .ofList published
        membersFound := members.isSome } : Screen.Interfaces) : Reading Screen.Interfaces).Ends d
          (p.scope d) := fun names =>
    (Reading.Ends.filterM _ (ends_isInterface declarations)).bind fun published =>
      (ends_membersInterface? declarations _).bind fun members => .pure _
  obtain ⟨found, hfound⟩ := (hrest names).ok hreadable
  exact ⟨found, (Reading.on_bind hnames _).trans hfound⟩

/-! ### Names that are resolved -/

/-- Where all modules can be read, every name other than `default` that leads to a
declaration is listed. So the interfaces that an extraction publishes are all those that
are allowed and that the search finds. -/
theorem resolved_listed (hp : Inquiry.Sound d p)
    (hreadable : ∀ key, ∃ found, readModule d key = .ok found) (path : Path) :
    (∃ names, ((Project.exportedNames path true).run d p).1 = .ok names ∧
      ∀ name resolved, name ≠ "default" →
        ((Project.resolveExport path name).run d p).1 = .ok (some resolved) → name ∈ names) ∧
    ∀ unit allow, ∃ found, ((extract path unit allow).run d p).1 = .ok found ∧
      ∀ name, name ≠ "default" → (name ∈ found.published ↔ allow.contains name = true ∧
        ∃ resolved, ((Project.resolveExport path name).run d p).1 = .ok (some resolved) ∧
          resolved.kind = .interfaceType) := by
  obtain ⟨names, hnames, hlists⟩ := mem_names_iff (p := p) path true fun key _ => hreadable key
  have hlisted : ∀ name resolved, name ≠ "default" →
      (Project.resolveExport path name).on d (p.scope d) = .ok (some resolved) → name ∈ names :=
    fun name resolved hname hresolved =>
      (hlists name).2 ((within_of_resolved hresolved).lists hname)
  refine ⟨⟨names, ?_, ?_⟩, fun unit allow => ?_⟩
  · rw [Reading.run_eq hp]
    exact hnames
  · intro name resolved hname hresolved
    rw [Reading.run_eq hp] at hresolved
    exact hlisted name resolved hname hresolved
  · obtain ⟨found, hfound⟩ := extract_ok (p := p) hreadable path unit allow
    refine ⟨found, by rw [Reading.run_eq hp]; exact hfound, fun name hname => ?_⟩
    rw [mem_published_iff hfound, Reading.run_eq hp, on_isInterface_iff]
    constructor
    · rintro ⟨-, hallowed, hinterface⟩
      exact ⟨hallowed, hinterface⟩
    · rintro ⟨hallowed, resolved, hresolved, hkind⟩
      exact ⟨⟨names, hnames, hlisted name resolved hname hresolved⟩, hallowed, resolved, hresolved,
        hkind⟩

/-- A declaration file that publishes an interface behind a star export, which another
module imports and exports under a new name, in a circle. -/
def aliasedDisk : Disk :=
  { entries := [(["core"], .directory),
      (["core", "a.ts"], .file (.text "export * from './b'")),
      (["core", "b.ts"], .file (.text
        "import \x7bL\x7d from './c'\nexport \x7bL as M\x7d\nexport * from './a'")),
      (["core", "c.ts"], .file (.text "export interface L \x7b\x7d\nexport * from './b'"))] }

theorem resolved_listed_aliased :
    ∃ names, ((Project.exportedNames ⟨"/core/a.ts"⟩ true).run aliasedDisk flatProject).1 =
        .ok names ∧ "M" ∈ names ∧
      ∃ found, ((extract ⟨"/core/a.ts"⟩ ⟨"X", "x", false⟩ (.ofNames ["M", "N"])).run aliasedDisk
        flatProject).1 = .ok found ∧ "M" ∈ found.published := by
  have hsound : Inquiry.Sound aliasedDisk flatProject := fun _ _ h => by cases h
  have hreadable : ∀ key, ∃ found, readModule aliasedDisk key = .ok found :=
    readModule_of_text (by simp [aliasedDisk, Disk.files])
  have hresolved : ((Project.resolveExport ⟨"/core/a.ts"⟩ "M").run aliasedDisk flatProject).1 =
      .ok (some ⟨⟨"/core/c.ts"⟩, some "L", .interfaceType⟩) := by decide +kernel
  obtain ⟨⟨names, hnames, hlisted⟩, hextract⟩ :=
    resolved_listed hsound hreadable ⟨"/core/a.ts"⟩
  obtain ⟨found, hfound, hpublished⟩ := hextract ⟨"X", "x", false⟩ (.ofNames ["M", "N"])
  exact ⟨names, hnames, hlisted "M" _ (by decide) hresolved, found, hfound,
    (hpublished "M" (by decide)).2 ⟨by decide, _, hresolved, rfl⟩⟩

end ScreenHooks.Sdk
