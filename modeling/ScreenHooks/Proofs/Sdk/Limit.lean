/-
How far the search for a declaration goes.

The search follows at most `maxDepth` specifiers in a row, and it does not come
back to a name that it has been through. So it finds no declaration that is
farther away; a nearer one it can miss, where it has met a name on the way
at the end of a longer chain, and could not go on from there. Where no simple path
is longer than the search, nothing is missed.

* **`within_of_follow`** — how far away a declaration is that is found;
* **`resolveExport_limit`** — which declarations are found;
* **`resolveExport_detour`** — a declaration that a longer chain hides.
-/
import ScreenHooks.Proofs.Sdk.Search

namespace ScreenHooks.Sdk

open Script Relation

variable {d : Disk} {p : Project} {scope : Scope} {nodes : List Node} {node : Node} {fuel : Nat}
  {path : Path} {name : String} {visited : Visited}

/-! ### Chains of specifiers -/

/-- Whether a name leads to a declaration over at most some number of
specifiers. -/
inductive Within (d : Disk) (p : Project) : Nat → Node → Resolved → Prop where
  | here {limit : Nat} {node : Node} {resolved : Resolved}
      (hanswer : answer? d node = some resolved) : Within d p limit node resolved
  | there {limit : Nat} {node next : Node} {resolved : Resolved}
      (hanswer : answer? d node = none) (hnext : next ∈ successors d p node)
      (hrest : Within d p limit next resolved) : Within d p (limit + 1) node resolved

theorem Within.reaches {limit : Nat} {resolved : Resolved} (h : Within d p limit node resolved) :
    ∃ last, Reaches d p node last ∧ answer? d last = some resolved := by
  induction h with
  | here hanswer => exact ⟨_, .refl, hanswer⟩
  | there _ hnext _ ih =>
    obtain ⟨last, hreach, hanswer⟩ := ih
    exact ⟨last, .head hnext hreach, hanswer⟩

/-- What is found among alternatives is found behind one of them. -/
theorem exists_of_followFirst {resolved : Resolved} {after : Visited}
    (h : (followFirst p fuel nodes visited).on d scope = .ok (some resolved, after)) :
    ∃ node ∈ nodes, ∃ visited after,
      (follow (Project.modules p.root) fuel node.1 node.2 visited).on d scope =
        .ok (some resolved, after) := by
  induction nodes generalizing visited with
  | nil => cases h
  | cons node nodes ih =>
    obtain ⟨first, mid, hon, hcases⟩ := followFirst_cases h
    rcases hcases with ⟨resolved, rfl, hresult, rfl⟩ | ⟨rfl, hrest⟩
    · obtain rfl := Option.some.inj hresult
      exact ⟨node, List.mem_cons_self, visited, after, hon⟩
    · obtain ⟨other, hother, hfound⟩ := ih hrest
      exact ⟨other, List.mem_cons_of_mem _ hother, hfound⟩

/-- A declaration that is found is not farther away than the search follows. -/
theorem within_of_follow {resolved : Resolved} {after : Visited}
    (h : (follow (Project.modules p.root) fuel path name visited).on d scope =
      .ok (some resolved, after)) :
    ∃ limit, fuel = limit + 1 ∧ Within d p limit (path.normalize, name) resolved := by
  induction fuel generalizing path name visited after with
  | zero => cases h
  | succ fuel ih =>
    refine ⟨fuel, rfl, ?_⟩
    rcases follow_cases h with ⟨-, hnone, -⟩ |
      ⟨-, found, -, ⟨other, hanswer, hresult, -⟩ | ⟨hanswer, hfirst⟩⟩
    · cases hnone
    · obtain rfl := Option.some.inj hresult
      exact .here hanswer
    · obtain ⟨next, hnext, visited', after', hfound⟩ := exists_of_followFirst hfirst
      obtain ⟨limit, rfl, hwithin⟩ := ih hfound
      rw [mem_successors_normal hnext] at hwithin
      exact .there hanswer hnext hwithin

theorem within_of_resolved {resolved : Resolved}
    (h : (Project.resolveExport path name).on d (p.scope d) = .ok (some resolved)) :
    Within d p maxDepth (path.normalize, name) resolved := by
  rw [resolveExport_eq] at h
  cases hon : (follow (Project.modules p.root) (maxDepth + 1) path name []).on d (p.scope d) with
  | error e =>
    rw [Reading.on_bind_error hon] at h
    cases h
  | ok found =>
    rw [Reading.on_bind hon] at h
    obtain ⟨result, after⟩ := found
    obtain rfl : result = some resolved := Except.ok.inj h
    obtain ⟨limit, hlimit, hwithin⟩ := within_of_follow hon
    obtain rfl : maxDepth = limit := Nat.succ.inj hlimit
    exact hwithin

/-- Whether the names that are reached from one lead to the same names on another
disk, in any order. -/
structure Rearranged (d : Disk) (p : Project) (d' : Disk) (p' : Project) (start : Node) : Prop where
  answer : ∀ node, Reaches d p start node → answer? d' node = answer? d node
  next : ∀ node, Reaches d p start node → (successors d' p' node).Perm (successors d p node)

variable {d' : Disk} {p' : Project} {start : Node}

theorem Rearranged.reaches (h : Rearranged d p d' p' start) (hreach : Reaches d p start node) :
    Reaches d' p' start node := by
  induction hreach with
  | refl => exact .refl
  | tail hbefore hstep ih => exact ih.tail ((h.next _ hbefore).mem_iff.2 hstep)

theorem Rearranged.trail (h : Rearranged d p d' p' start) (htrail : Trail d' p' start nodes) :
    Trail d p start nodes := by
  induction nodes with
  | nil => exact ⟨.nil, htrail.starts, htrail.distinct⟩
  | cons node rest ih =>
    cases rest with
    | nil => exact ⟨.singleton node, htrail.starts, htrail.distinct⟩
    | cons earlier rest =>
      obtain ⟨hstep, hsteps⟩ := List.isChain_cons_cons.1 htrail.steps
      obtain ⟨hnew, hdistinct⟩ := List.nodup_cons.1 htrail.distinct
      have hbefore := ih ⟨hsteps, by simpa using htrail.starts, hdistinct⟩
      exact hbefore.cons ((h.next earlier hbefore.reaches).mem_iff.1 hstep) hnew

theorem Rearranged.short (h : Rearranged d p d' p' start) (hshort : Short d p start) :
    Short d' p' start := fun nodes htrail => hshort nodes (h.trail htrail)

/-- A declaration that is found is at most 16 specifiers away. Where no simple
path follows more of them, every name that leads to a declaration is resolved,
in whatever order the successors stand. -/
theorem resolveExport_limit (hp : Inquiry.Sound d p) (path : Path) (name : String) :
    (∀ resolved, ((Project.resolveExport path name).run d p).1 = .ok (some resolved) →
      Within d p 16 (path.normalize, name) resolved) ∧
    (Readable d p (path.normalize, name) → Short d p (path.normalize, name) →
      ((∃ limit resolved, Within d p limit (path.normalize, name) resolved) →
        ∃ resolved, ((Project.resolveExport path name).run d p).1 = .ok (some resolved)) ∧
      ∀ d' p', Inquiry.Sound d' p' → Rearranged d p d' p' (path.normalize, name) →
        Readable d' p' (path.normalize, name) →
        (∃ resolved, ((Project.resolveExport path name).run d p).1 = .ok (some resolved)) →
        ∃ resolved, ((Project.resolveExport path name).run d' p').1 = .ok (some resolved)) := by
  rw [Reading.run_eq hp]
  refine ⟨fun resolved => within_of_resolved, fun hreadable hshort => ⟨?_, ?_⟩⟩
  · rintro ⟨limit, resolved, hwithin⟩
    obtain ⟨last, hreach, hanswer⟩ := hwithin.reaches
    exact (resolved_iff hreadable hshort).2 ⟨last, hreach, by simp [hanswer]⟩
  · intro d' p' hp' harranged hreadable' hresolved
    obtain ⟨node, hreach, hanswer⟩ := (resolved_iff hreadable hshort).1 hresolved
    rw [Reading.run_eq hp']
    refine (resolved_iff hreadable' (harranged.short hshort)).2
      ⟨node, harranged.reaches hreach, ?_⟩
    rw [harranged.answer node hreach]
    exact hanswer

/-! ### A detour -/

/-- A module with star exports. -/
def starModule (targets : List String) : Entry :=
  .file (.text (String.join (targets.map fun target => "export*from'./" ++ target ++ "'\n")))

/-- Modules in a row, each with a star export of the next one. -/
def starChain : List String → List (Place × Entry)
  | first :: next :: rest =>
    (["core", first ++ ".ts"], starModule [next]) :: starChain (next :: rest)
  | _ => []

/-- A module with star exports, of which one leads along a chain to a module that
another one leads to directly. -/
def detourDisk (chain stars : List String) : Disk :=
  { entries := (["core"], .directory) :: (["core", "s.ts"], starModule stars) ::
      (["core", "y.ts"], .file (.text "export let k")) :: starChain (chain ++ ["x", "y"]) }

/-- A chain with as many modules as the search has between its ends. -/
def longChain : List String :=
  ["a", "b", "c", "d", "e", "f", "g", "h", "i", "j", "k", "l", "m", "n", "o"]

/-- A core package whose modules are in one directory. -/
def flatProject : Project := ⟨⟨"/core"⟩, []⟩

theorem starChain_text {targets : List String} :
    ∀ entry ∈ starChain targets, ∃ text, entry.2 = .file (.text text) := by
  induction targets with
  | nil => simp [starChain]
  | cons first rest ih =>
    cases rest with
    | nil => simp [starChain]
    | cons next rest =>
      rw [starChain]
      exact List.forall_mem_cons.2 ⟨⟨_, rfl⟩, ih⟩

theorem readModule_detour (chain stars : List String) (key : Path) :
    ∃ found, readModule (detourDisk chain stars) key = .ok found := by
  refine readModule_of_text (fun file hfile => ?_) key
  obtain ⟨entry, hentry, heq⟩ := List.mem_filterMap.1 hfile
  have htext : entry.2 = .directory ∨ ∃ text, entry.2 = .file (.text text) := by
    simp only [detourDisk, List.mem_cons] at hentry
    rcases hentry with rfl | rfl | rfl | hentry
    · exact .inl rfl
    · exact .inr ⟨_, rfl⟩
    · exact .inr ⟨_, rfl⟩
    · exact .inr (starChain_text entry hentry)
  rcases htext with hdirectory | ⟨text, hfile⟩
  · rw [hdirectory] at heq
    cases heq
  · rw [hfile] at heq
    cases heq
    exact ⟨text, rfl⟩

/-- With one module on the way, both orders of the star exports are as good. -/
theorem resolveExport_limit_swapped :
    (∃ resolved, ((Project.resolveExport ⟨"/core/s.ts"⟩ "k").run (detourDisk ["a"] ["a", "x"])
      flatProject).1 = .ok (some resolved)) ∧
    ∃ resolved, ((Project.resolveExport ⟨"/core/s.ts"⟩ "k").run (detourDisk ["a"] ["x", "a"])
      flatProject).1 = .ok (some resolved) := by
  let nodes : List Node := [(⟨"/core/s.ts"⟩, "k"), (⟨"/core/a.ts"⟩, "k"), (⟨"/core/x.ts"⟩, "k"),
    (⟨"/core/y.ts"⟩, "k")]
  have hnormal : Path.normalize ⟨"/core/s.ts"⟩ = ⟨"/core/s.ts"⟩ := by decide +kernel
  have hclosed : ∀ node ∈ nodes,
      successors (detourDisk ["a"] ["a", "x"]) flatProject node ⊆ nodes := by decide +kernel
  -- few names are reached, so no chain is too long
  have hreached : ∀ node, Reaches (detourDisk ["a"] ["a", "x"]) flatProject
      (⟨"/core/s.ts"⟩, "k") node → node ∈ nodes :=
    fun node => mem_of_reaches List.mem_cons_self hclosed
  have hanswers : ∀ node ∈ nodes, answer? (detourDisk ["a"] ["x", "a"]) node =
      answer? (detourDisk ["a"] ["a", "x"]) node := by decide +kernel
  have hnext : ∀ node ∈ nodes, (successors (detourDisk ["a"] ["x", "a"]) flatProject node).Perm
      (successors (detourDisk ["a"] ["a", "x"]) flatProject node) := by decide +kernel
  have hsound : ∀ d, Inquiry.Sound d flatProject := fun _ _ _ h => by cases h
  have hlimit := (resolveExport_limit (hsound (detourDisk ["a"] ["a", "x"])) ⟨"/core/s.ts"⟩ "k").2
  rw [hnormal] at hlimit
  obtain ⟨hfound, hswapped⟩ := hlimit (fun node _ => readModule_detour _ _ node.1)
    (short_of_few (show nodes.length ≤ maxDepth + 1 by decide) hreached)
  have hdirect : (⟨"/core/x.ts"⟩, "k") ∈ successors (detourDisk ["a"] ["a", "x"]) flatProject
      (⟨"/core/s.ts"⟩, "k") := by decide +kernel
  have hlast : (⟨"/core/y.ts"⟩, "k") ∈ successors (detourDisk ["a"] ["a", "x"]) flatProject
      (⟨"/core/x.ts"⟩, "k") := by decide +kernel
  have hanswer : answer? (detourDisk ["a"] ["a", "x"]) (⟨"/core/y.ts"⟩, "k") =
      some ⟨⟨"/core/y.ts"⟩, some "k", .variable⟩ := by decide +kernel
  have hresolved := hfound ⟨2, _, .there (by decide +kernel) hdirect
    (.there (by decide +kernel) hlast (.here hanswer))⟩
  exact ⟨hresolved, hswapped _ _ (hsound _)
    ⟨fun node hreach => hanswers node (hreached node hreach),
      fun node hreach => hnext node (hreached node hreach)⟩
    (fun node _ => readModule_detour _ _ node.1) hresolved⟩

/-- With fifteen modules on the way, the longer chain ends at the module that the
shorter one would have to go through. -/
theorem resolveExport_detour :
    (∀ key, ∃ found, readModule (detourDisk longChain ["a", "x"]) key = .ok found) ∧
    Within (detourDisk longChain ["a", "x"]) flatProject 2 (⟨"/core/s.ts"⟩, "k")
      ⟨⟨"/core/y.ts"⟩, some "k", .variable⟩ ∧
    ((Project.resolveExport ⟨"/core/s.ts"⟩ "k").run (detourDisk longChain ["a", "x"])
      flatProject).1 = .ok none ∧
    ((Project.resolveExport ⟨"/core/s.ts"⟩ "k").run (detourDisk longChain ["x", "a"])
      flatProject).1 = .ok (some ⟨⟨"/core/y.ts"⟩, some "k", .variable⟩) := by
  have hdirect : (⟨"/core/x.ts"⟩, "k") ∈ successors (detourDisk longChain ["a", "x"]) flatProject
      (⟨"/core/s.ts"⟩, "k") := by decide +kernel
  have hlast : (⟨"/core/y.ts"⟩, "k") ∈ successors (detourDisk longChain ["a", "x"]) flatProject
      (⟨"/core/x.ts"⟩, "k") := by decide +kernel
  refine ⟨readModule_detour _ _, ?_, by decide +kernel, by decide +kernel⟩
  exact .there (by decide +kernel) hdirect
    (.there (by decide +kernel) hlast (.here (by decide +kernel)))

end ScreenHooks.Sdk
