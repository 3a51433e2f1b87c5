/-
The exported names of a module as a single walk.

Star exports are expanded anew wherever they lead to a module, as long as that
module is not being expanded already. Such an expansion adds no name that the
first one has not added: what is left out of the first expansion is being
expanded around it. So the names are those of a walk that enters each module
once.

* **`namesFrom_entered`** — a module that the walk has entered adds nothing;
* **`namesFrom_walk`** — a new module adds what the walk adds;
* **`exportedNames_walk`** — the names of a module.
-/
import Mathlib.Logic.Relation
import ScreenHooks.Proofs.Sdk.Fuel
import ScreenHooks.Proofs.Sdk.Outcomes

namespace ScreenHooks.Sdk

open Script Relation

/-! ### Walks -/

/-- The exports of a module that count. -/
def listed (typesToo : Bool) : Option Module → List Export
  | none => []
  | some module => module.exports.filter fun item => typesToo || !item.isTypeOnly

/-- The name that an export item lists by itself. -/
def ownName? : Export → Option String
  | .star _ | .byDefault .. => none
  | item => item.name?

/-- What a walk has been through. -/
structure Progress where
  /-- The modules that it entered, the last one first. -/
  entered : List Path
  names : Names

/-- A walk through export items of the module at a key. A star export leads into
the module that it names only the first time. -/
inductive Walk (d : Disk) (p : Project) (typesToo : Bool) :
    Path → List Export → Progress → Progress → Prop where
  | done (key : Path) (s : Progress) : Walk d p typesToo key [] s s
  | item {key : Path} {item : Export} {items : List Export} {s s' : Progress}
      (hitem : ∀ source, item ≠ .star source)
      (hrest : Walk d p typesToo key items
        ⟨s.entered, s.names.insertAll (ownName? item).toList⟩ s') :
      Walk d p typesToo key (item :: items) s s'
  | dangling {key : Path} {source : String} {items : List Export} {s s' : Progress}
      (htarget : p.specifier? d key source = none)
      (hrest : Walk d p typesToo key items s s') :
      Walk d p typesToo key (.star source :: items) s s'
  | again {key target : Path} {source : String} {items : List Export} {s s' : Progress}
      (htarget : p.specifier? d key source = some target)
      (hentered : target.normalize ∈ s.entered)
      (hrest : Walk d p typesToo key items s s') :
      Walk d p typesToo key (.star source :: items) s s'
  | enter {key target : Path} {source : String} {items : List Export} {found : Option Module}
      {s s' s'' : Progress}
      (htarget : p.specifier? d key source = some target)
      (hnew : target.normalize ∉ s.entered)
      (hfound : readModule d target.normalize = .ok found)
      (hinside : Walk d p typesToo target.normalize (listed typesToo found)
        ⟨target.normalize :: s.entered, s.names⟩ s')
      (hrest : Walk d p typesToo key items s' s'') :
      Walk d p typesToo key (.star source :: items) s s''

variable {d : Disk} {p : Project} {typesToo : Bool}

theorem Walk.grows {key : Path} {items : List Export} {s s' : Progress}
    (h : Walk d p typesToo key items s s') :
    s.entered ⊆ s'.entered ∧ ∀ name ∈ s.names, name ∈ s'.names := by
  induction h with
  | done key s => exact ⟨fun _ hk => hk, fun _ hn => hn⟩
  | item _ _ ih => exact ⟨ih.1, fun n hn => ih.2 n (Names.mem_insertAll.2 (.inl hn))⟩
  | dangling _ _ ih => exact ih
  | again _ _ _ ih => exact ih
  | enter _ _ _ _ _ ihInside ih =>
    exact ⟨fun k hk => ih.1 (ihInside.1 (List.mem_cons_of_mem _ hk)),
      fun n hn => ih.2 n (ihInside.2 n hn)⟩

/-- A walk enters each module once. -/
theorem Walk.nodup {key : Path} {items : List Export} {s s' : Progress}
    (h : Walk d p typesToo key items s s') (hs : s.entered.Nodup) : s'.entered.Nodup := by
  induction h with
  | done key s => exact hs
  | item _ _ ih => exact ih hs
  | dangling _ _ ih => exact ih hs
  | again _ _ _ ih => exact ih hs
  | enter _ hnew _ _ _ ihInside ih => exact ih (ihInside (List.nodup_cons.2 ⟨hnew, hs⟩))

/-- There is no choice in a walk. -/
theorem Walk.unique {key : Path} {items : List Export} {s s' t : Progress}
    (h : Walk d p typesToo key items s s') (ht : Walk d p typesToo key items s t) : t = s' := by
  -- whether the first item is a star, and where it leads, tells the cases apart
  induction h generalizing t with
  | done key s =>
    cases ht
    rfl
  | item hitem _ ih =>
    cases ht with
    | item _ ht => exact ih ht
    | dangling => exact absurd rfl (hitem _)
    | again => exact absurd rfl (hitem _)
    | enter => exact absurd rfl (hitem _)
  | dangling htarget _ ih =>
    cases ht with
    | item hitem => exact absurd rfl (hitem _)
    | dangling _ ht => exact ih ht
    | again htarget' => simp [htarget] at htarget'
    | enter htarget' => simp [htarget] at htarget'
  | again htarget hentered _ ih =>
    cases ht with
    | item hitem => exact absurd rfl (hitem _)
    | dangling htarget' => simp [htarget] at htarget'
    | again _ _ ht => exact ih ht
    | enter htarget' hnew =>
      obtain rfl := Option.some.inj (htarget.symm.trans htarget')
      exact absurd hentered hnew
  | enter htarget hnew hfound _ _ ihInside ih =>
    cases ht with
    | item hitem => exact absurd rfl (hitem _)
    | dangling htarget' => simp [htarget] at htarget'
    | again htarget' hentered =>
      obtain rfl := Option.some.inj (htarget.symm.trans htarget')
      exact absurd hentered hnew
    | enter htarget' _ hfound' hinside' ht =>
      obtain rfl := Option.some.inj (htarget.symm.trans htarget')
      obtain rfl := Except.ok.inj (hfound.symm.trans hfound')
      rw [ihInside hinside'] at ht
      exact ih ht

/-! ### Expansion of one module -/

/-- What the expansion of a module does with one of its export items that count. -/
def expandItem (p : Project) (typesToo : Bool) (fuel : Nat) (onPath : List Path) (key : Path)
    (names : Names) : Export → Reading Names
  | .star source => do
    match ← (Project.modules p.root).target? key source with
    | some target => namesFrom (Project.modules p.root) typesToo fuel onPath names target
    | none => pure names
  | .byDefault .. => pure names
  | item => pure (names.insertAll item.name?.toList)

variable {scope : Scope} {fuel : Nat} {onPath : List Path} {names : Names} {path : Path}

theorem namesFrom_onPath (h : path.normalize ∈ onPath) :
    (namesFrom (Project.modules p.root) typesToo fuel onPath names path).on d scope =
      .ok names := by
  cases fuel with
  | zero => rfl
  | succ fuel =>
    unfold namesFrom
    simp only [if_pos h]
    rfl

/-- A module that is not being expanded is expanded item by item. -/
theorem namesFrom_new {found : Option Module} (h : path.normalize ∉ onPath)
    (hfound : readModule d path.normalize = .ok found) :
    (namesFrom (Project.modules p.root) typesToo (fuel + 1) onPath names path).on d scope =
      ((listed typesToo found).foldlM
        (expandItem p typesToo fuel (path.normalize :: onPath) path.normalize) names).on d scope := by
  have hload : (Project.load path.normalize).on d scope = .ok found := by
    rw [on_load, Path.normalize_normalize, hfound]
  unfold namesFrom
  simp only [if_neg h]
  refine (Reading.on_bind hload _).trans ?_
  cases found with
  | none => rfl
  | some module =>
    simp only [listed]
    rw [List.foldlM_filter]
    refine Reading.on_foldlM_congr names fun names item hitem => ?_
    have hkept : (item.isTypeOnly && !typesToo) = !(typesToo || !item.isTypeOnly) := by
      cases typesToo <;> cases item.isTypeOnly <;> rfl
    rw [hkept]
    cases typesToo || !item.isTypeOnly with
    | false => rfl
    | true => cases item <;> rfl

theorem expandItem_star {source : String} {target : Path} {key : Path}
    (h : p.specifier? d key source = some target) :
    (expandItem p typesToo fuel onPath key names (.star source)).on d scope =
      (namesFrom (Project.modules p.root) typesToo fuel onPath names target).on d scope := by
  unfold expandItem
  rw [Reading.on_bind (on_target? p key source), h]

theorem expandItem_dangling {source : String} {key : Path}
    (h : p.specifier? d key source = none) :
    (expandItem p typesToo fuel onPath key names (.star source)).on d scope = .ok names := by
  unfold expandItem
  rw [Reading.on_bind (on_target? p key source), h]
  rfl

theorem expandItem_other {item : Export} {key : Path} (h : ∀ source, item ≠ .star source) :
    (expandItem p typesToo fuel onPath key names item).on d scope =
      .ok (names.insertAll (ownName? item).toList) := by
  cases item with
  | star source => exact absurd rfl (h source)
  | _ => rfl

/-! ### What expansions leave -/

/-- Whether an export item of the module at a key can add nothing: its name is
there, and the module it leads to was entered. -/
def Settled (d : Disk) (p : Project) (s : Progress) (key : Path) (item : Export) : Prop :=
  (∀ name ∈ (ownName? item).toList, name ∈ s.names) ∧
    ∀ source target, item = .star source → p.specifier? d key source = some target →
      target.normalize ∈ s.entered

theorem Settled.mono {s s' : Progress} {key : Path} {item : Export} (h : Settled d p s key item)
    (hentered : s.entered ⊆ s'.entered) (hnames : ∀ name ∈ s.names, name ∈ s'.names) :
    Settled d p s' key item :=
  ⟨fun name hname => hnames name (h.1 name hname),
    fun source target hitem htarget => hentered (h.2 source target hitem htarget)⟩

/-- While the modules on a path are being expanded, all others that were entered
can add nothing. -/
structure Closed (d : Disk) (p : Project) (typesToo : Bool) (onPath : List Path) (s : Progress) :
    Prop where
  opened : onPath ⊆ s.entered
  readable : ∀ key ∈ s.entered, ∃ found, readModule d key = .ok found
  settled : ∀ key ∈ s.entered, key ∉ onPath → ∀ found, readModule d key = .ok found →
    ∀ item ∈ listed typesToo found, Settled d p s key item

variable {s : Progress}

/-- An entered module may be expanded again. -/
theorem Closed.cons (h : Closed d p typesToo onPath s) {key : Path} (hkey : key ∈ s.entered) :
    Closed d p typesToo (key :: onPath) s where
  opened := List.cons_subset.2 ⟨hkey, h.opened⟩
  readable := h.readable
  settled other hother hnew := h.settled other hother fun hmem => hnew (List.mem_cons_of_mem _ hmem)

/-- A new module is expanded. -/
theorem Closed.enter (h : Closed d p typesToo onPath s) {key : Path} {found : Option Module}
    (hfound : readModule d key = .ok found) :
    Closed d p typesToo (key :: onPath) ⟨key :: s.entered, s.names⟩ where
  opened := List.cons_subset_cons key h.opened
  readable := List.forall_mem_cons.2 ⟨⟨found, hfound⟩, h.readable⟩
  settled other hother hnew := by
    rw [List.mem_cons, not_or] at hnew
    have hbefore : other ∈ s.entered := (List.mem_cons.1 hother).resolve_left hnew.1
    intro found hfound item hitem
    exact (h.settled other hbefore hnew.2 found hfound item hitem).mono
      (List.subset_cons_self _ _) fun _ hname => hname

/-- A module all of whose items can add nothing is not expanded any more. -/
theorem Closed.leave {key : Path} {found : Option Module}
    (h : Closed d p typesToo (key :: onPath) s) (hfound : readModule d key = .ok found)
    (hitems : ∀ item ∈ listed typesToo found, Settled d p s key item) :
    Closed d p typesToo onPath s where
  opened := (List.cons_subset.1 h.opened).2
  readable := h.readable
  settled other hother hnew found' hfound' item hitem := by
    by_cases hkey : other = key
    · subst hkey
      obtain rfl := Except.ok.inj (hfound.symm.trans hfound')
      exact hitems item hitem
    · exact h.settled other hother (List.not_mem_cons_of_ne_of_not_mem hkey hnew) found' hfound'
        item hitem

/-- A name is added, which opens and leaves no module. -/
theorem Closed.insertAll (h : Closed d p typesToo onPath s) (more : List String) :
    Closed d p typesToo onPath ⟨s.entered, s.names.insertAll more⟩ where
  opened := h.opened
  readable := h.readable
  settled key hkey hnew found hfound item hitem :=
    (h.settled key hkey hnew found hfound item hitem).mono (fun _ hmem => hmem)
      fun _ hname => Names.mem_insertAll.2 (.inl hname)

/-- A module that was entered adds nothing, however deep it is expanded again. -/
theorem namesFrom_entered (hs : Closed d p typesToo onPath s) (hpath : path.normalize ∈ s.entered) :
    (namesFrom (Project.modules p.root) typesToo fuel onPath s.names path).on d scope =
      .ok s.names := by
  induction fuel generalizing onPath path with
  | zero => rfl
  | succ fuel ih =>
    by_cases honPath : path.normalize ∈ onPath
    · exact namesFrom_onPath honPath
    · obtain ⟨found, hfound⟩ := hs.readable _ hpath
      rw [namesFrom_new honPath hfound]
      refine Reading.on_foldlM_fixed fun item hitem => ?_
      obtain ⟨hname, hstar⟩ := hs.settled _ hpath honPath found hfound item hitem
      by_cases hkind : ∃ source, item = .star source
      · obtain ⟨source, rfl⟩ := hkind
        cases htarget : p.specifier? d path.normalize source with
        | none => exact expandItem_dangling htarget
        | some target =>
          rw [expandItem_star htarget]
          exact ih (hs.cons hpath) (hstar source target rfl htarget)
      · rw [expandItem_other (not_exists.1 hkind), Names.insertAll_of_mem hname]

/-! ### Expansions as walks -/

/-- Whether a star export of the module at a key leads to another module. -/
def StarStep (d : Disk) (p : Project) (key next : Path) : Prop :=
  ∃ module source target, readModule d key = .ok (some module) ∧
    .star source ∈ module.exports ∧ p.specifier? d key source = some target ∧
    next = target.normalize

/-- Whether all modules can be read to which star exports lead from a key. -/
def StarReadable (d : Disk) (p : Project) (key : Path) : Prop :=
  ∀ other, ReflTransGen (StarStep d p) key other → ∃ found, readModule d other = .ok found

theorem StarReadable.step {key next : Path} (h : StarReadable d p key)
    (hstep : StarStep d p key next) : StarReadable d p next :=
  fun other hother => h other (ReflTransGen.head hstep hother)

/-- Whether modules can be expanded inside each other: they are distinct files. -/
structure Stack (d : Disk) (onPath : List Path) : Prop where
  distinct : onPath.Nodup
  files : ∀ key ∈ onPath, (∃ p : Path, key = p.normalize) ∧ d.isFile key = true

theorem Stack.cons (h : Stack d onPath) {module : Module} (hnew : path.normalize ∉ onPath)
    (hfound : readModule d path.normalize = .ok (some module)) :
    Stack d (path.normalize :: onPath) where
  distinct := List.nodup_cons.2 ⟨hnew, h.distinct⟩
  files := by
    refine List.forall_mem_cons.2 ⟨⟨⟨path, rfl⟩, ?_⟩, h.files⟩
    by_contra hfile
    rw [readModule, if_neg hfile] at hfound
    cases hfound

/-- What the expansion of items of the module at a key amounts to: a walk after
which these items can add nothing. -/
structure Expanded (d : Disk) (p : Project) (typesToo : Bool) (onPath : List Path) (key : Path)
    (items : List Export) (s s' : Progress) : Prop where
  walk : Walk d p typesToo key items s s'
  closed : Closed d p typesToo onPath s'
  settled : ∀ item ∈ items, Settled d p s' key item

/-- Whether the expansion of items amounts to a walk through them. -/
def ExpandAsWalk (d : Disk) (p : Project) (typesToo : Bool) (scope : Scope) (fuel : Nat)
    (onPath : List Path) (key : Path) (items : List Export) (s : Progress) : Prop :=
  ∃ s', (items.foldlM (expandItem p typesToo fuel onPath key) s.names).on d scope = .ok s'.names ∧
    Expanded d p typesToo onPath key items s s'

/-- Whether the expansion of a new module amounts to a walk through it. -/
def EntersAsWalk (d : Disk) (p : Project) (typesToo : Bool) (scope : Scope) (fuel : Nat)
    (onPath : List Path) (s : Progress) (path : Path) : Prop :=
  ∃ found s', readModule d path.normalize = .ok found ∧
    (namesFrom (Project.modules p.root) typesToo fuel onPath s.names path).on d scope =
      .ok s'.names ∧
    Walk d p typesToo path.normalize (listed typesToo found)
      ⟨path.normalize :: s.entered, s.names⟩ s' ∧ Closed d p typesToo onPath s'

/-- The first item is expanded before the others. -/
theorem ExpandAsWalk.cons {key : Path} {item : Export} {items : List Export} {t : Progress}
    (h : ExpandAsWalk d p typesToo scope fuel onPath key items t)
    (hon : (expandItem p typesToo fuel onPath key s.names item).on d scope = .ok t.names)
    (hsettled : Settled d p t key item)
    (hwalk : ∀ s', Walk d p typesToo key items t s' → Walk d p typesToo key (item :: items) s s') :
    ExpandAsWalk d p typesToo scope fuel onPath key (item :: items) s := by
  obtain ⟨s', hfold, hexpanded⟩ := h
  obtain ⟨hentered, hnames⟩ := hexpanded.walk.grows
  refine ⟨s', ?_, hwalk s' hexpanded.walk, hexpanded.closed, ?_⟩
  · rw [List.foldlM_cons, Reading.on_bind hon]
    exact hfold
  · exact List.forall_mem_cons.2 ⟨hsettled.mono hentered hnames, hexpanded.settled⟩

theorem settled_star {key : Path} {source : String}
    (h : ∀ target, p.specifier? d key source = some target → target.normalize ∈ s.entered) :
    Settled d p s key (.star source) := by
  refine ⟨by simp [ownName?], fun other target hother htarget => ?_⟩
  obtain rfl := Export.star.inj hother
  exact h target htarget

/-- Items are expanded one by one, if the modules are that star exports lead to. -/
theorem foldlM_walk {key : Path} {items : List Export}
    (hstar : ∀ s target, Closed d p typesToo onPath s → target.normalize ∉ s.entered →
      (∃ source, .star source ∈ items ∧ p.specifier? d key source = some target) →
      EntersAsWalk d p typesToo scope fuel onPath s target)
    (hs : Closed d p typesToo onPath s) :
    ExpandAsWalk d p typesToo scope fuel onPath key items s := by
  induction items generalizing s with
  | nil => exact ⟨s, rfl, .done key s, hs, by simp⟩
  | cons item items ih =>
    have hlater : ∀ s target, Closed d p typesToo onPath s → target.normalize ∉ s.entered →
        (∃ source, .star source ∈ items ∧ p.specifier? d key source = some target) →
        EntersAsWalk d p typesToo scope fuel onPath s target :=
      fun s target hs hnew ⟨source, hsource, htarget⟩ =>
        hstar s target hs hnew ⟨source, List.mem_cons_of_mem _ hsource, htarget⟩
    -- a star leads nowhere, to a module that was entered, or to a new one
    by_cases hkind : ∃ source, item = .star source
    · obtain ⟨source, rfl⟩ := hkind
      cases htarget : p.specifier? d key source with
      | none =>
        exact (ih hlater hs).cons (expandItem_dangling htarget) (settled_star (by simp [htarget]))
          fun s' hwalk => .dangling htarget hwalk
      | some target =>
        have honly : ∀ other, p.specifier? d key source = some other → other = target :=
          fun other hother => Option.some.inj (hother.symm.trans htarget)
        by_cases hentered : target.normalize ∈ s.entered
        · exact (ih hlater hs).cons ((expandItem_star htarget).trans (namesFrom_entered hs hentered))
            (settled_star fun other hother => honly other hother ▸ hentered)
            fun s' hwalk => .again htarget hentered hwalk
        · obtain ⟨found, t, hfound, hon, hinside, ht⟩ :=
            hstar s target hs hentered ⟨source, List.mem_cons_self, htarget⟩
          exact (ih hlater ht).cons ((expandItem_star htarget).trans hon)
            (settled_star fun other hother =>
              honly other hother ▸ hinside.grows.1 List.mem_cons_self)
            fun s' hwalk => .enter htarget hentered hfound hinside hwalk
    · have hitem := not_exists.1 hkind
      refine (ih hlater (hs.insertAll (ownName? item).toList)).cons (expandItem_other hitem) ⟨?_, ?_⟩
        fun s' hwalk => .item hitem hwalk
      · exact fun name hname => Names.mem_insertAll.2 (.inr hname)
      · exact fun source target hsource => absurd hsource (hitem source)

/-- A new module adds what a walk through it adds. -/
theorem namesFrom_walk (hstack : Stack d onPath) (hs : Closed d p typesToo onPath s)
    (hnew : path.normalize ∉ s.entered) (hreadable : StarReadable d p path.normalize)
    (hfuel : 4 * d.files.length < onPath.length + fuel) :
    EntersAsWalk d p typesToo scope fuel onPath s path := by
  induction fuel generalizing onPath s path with
  | zero =>
    have := Disk.keys_bounded d hstack.distinct hstack.files
    omega
  | succ fuel ih =>
    obtain ⟨found, hfound⟩ := hreadable _ .refl
    have honPath : path.normalize ∉ onPath := fun hmem => hnew (hs.opened hmem)
    -- stars that lead to new modules have enough fuel for them
    have hstar : ∀ t target, Closed d p typesToo (path.normalize :: onPath) t →
        target.normalize ∉ t.entered →
        (∃ source, .star source ∈ listed typesToo found ∧
          p.specifier? d path.normalize source = some target) →
        EntersAsWalk d p typesToo scope fuel (path.normalize :: onPath) t target := by
      intro t target ht htarget ⟨source, hsource, hleads⟩
      cases found with
      | none => cases hsource
      | some module =>
        have hstep : StarStep d p path.normalize target.normalize :=
          ⟨module, source, target, hfound, List.mem_of_mem_filter hsource, hleads, rfl⟩
        exact ih (hstack.cons honPath hfound) ht htarget (hreadable.step hstep)
          (by rw [List.length_cons]; omega)
    obtain ⟨s', hfold, hexpanded⟩ := foldlM_walk hstar (hs.enter hfound)
    refine ⟨found, s', hfound, ?_, hexpanded.walk, hexpanded.closed.leave hfound hexpanded.settled⟩
    rw [namesFrom_new honPath hfound]
    exact hfold

/-! ### Names of a module -/

/-- The names of a module are those of a walk that starts in it. -/
theorem exportedNames_enters (path : Path) (typesToo : Bool)
    (hreadable : StarReadable d p path.normalize) :
    EntersAsWalk d p typesToo (p.scope d) (p.scope d).fuel [] ⟨[], .empty⟩ path := by
  have hstack : Stack d [] := ⟨List.nodup_nil, by simp⟩
  have hnone : Closed d p typesToo [] ⟨[], .empty⟩ := ⟨by simp, by simp, by simp⟩
  exact namesFrom_walk hstack hnone List.not_mem_nil hreadable
    (by simpa [Scope.Enough] using Project.scope_enough d p)

/-- The names that a module exports are found by a walk that enters each module
once, and by no other one. -/
theorem exportedNames_walk (hp : Inquiry.Sound d p) (path : Path) (typesToo : Bool)
    (hreadable : StarReadable d p path.normalize) :
    ∃ found names entered, readModule d path.normalize = .ok found ∧
      ((Project.exportedNames path typesToo).run d p).1 = .ok names ∧
      names.toList.Nodup ∧ entered.Nodup ∧
      ∀ s, Walk d p typesToo path.normalize (listed typesToo found)
        ⟨[path.normalize], .empty⟩ s ↔ s = ⟨entered, names⟩ := by
  obtain ⟨found, s, hfound, hon, hwalk, -⟩ := exportedNames_enters path typesToo hreadable
  refine ⟨found, s.names, s.entered, hfound, ?_, s.names.nodup, hwalk.nodup (by simp), fun t => ?_⟩
  · rw [Reading.run_eq hp]
    exact hon
  · constructor
    · exact hwalk.unique
    · rintro rfl
      exact hwalk

/-- Modules with star exports in circles and by two ways. -/
def starDisk : Disk :=
  { entries := [(["core"], .directory),
      (["core", "a.ts"], .file (.text
        "export * from './b';\nexport * from './c';\nexport let z;\n")),
      (["core", "b.ts"], .file (.text
        "export let x;\nexport * from './a';\nexport * from './c';\n")),
      (["core", "c.ts"], .file (.text "export let y;\nexport * from './b';\n"))] }

theorem exportedNames_walk_circle :
    ∃ found names entered, readModule starDisk ⟨"/core/a.ts"⟩ = .ok found ∧
      ((Project.exportedNames ⟨"/core/a.ts"⟩ false).run starDisk ⟨⟨"/core"⟩, []⟩).1 = .ok names ∧
      names.toList = ["x", "y", "z"] ∧
      ∀ s, Walk starDisk ⟨⟨"/core"⟩, []⟩ false ⟨"/core/a.ts"⟩ (listed false found)
        ⟨[⟨"/core/a.ts"⟩], .empty⟩ s ↔ s = ⟨entered, names⟩ := by
  have htext : ∀ file ∈ starDisk.files, ∃ text, file.2 = .text text := by
    simp [starDisk, Disk.files]
  have hnormal : Path.normalize ⟨"/core/a.ts"⟩ = ⟨"/core/a.ts"⟩ := by decide +kernel
  obtain ⟨found, names, entered, hfound, hon, -, -, hwalk⟩ :=
    exportedNames_walk (d := starDisk) (p := ⟨⟨"/core"⟩, []⟩) (fun _ _ h => by cases h)
      ⟨"/core/a.ts"⟩ false fun key _ => readModule_of_text htext key
  rw [hnormal] at hfound hwalk
  refine ⟨found, names, entered, hfound, hon, ?_, hwalk⟩
  have hlist : ((Project.exportedNames ⟨"/core/a.ts"⟩ false).run starDisk
      ⟨⟨"/core"⟩, []⟩).1.toOption.map (·.toList) = some ["x", "y", "z"] := by decide +kernel
  rw [hon] at hlist
  exact Option.some.inj hlist

end ScreenHooks.Sdk
