/-
Finding declarations as a search along simple paths.

A name in a module is decided by its first explicit item, or else leads through
the star exports in their order. A search that never goes through the same name
of the same module twice on one path is an ideal search: it has no limit and
remembers nothing of the branches it left. The actual search remembers all that
it has been through and follows at most `maxDepth` specifiers in a row; where no
simple path is longer, it finds what the ideal search finds.

* **`search_of_closed`** — what was left without an answer has none;
* **`follow_search`** — the actual search as the ideal one;
* **`resolveExport_search`** — few names that can be reached;
* **`resolveExport_short`** — only short paths.
-/
import Mathlib.Data.List.Chain
import Mathlib.Data.List.Perm.Subperm
import Mathlib.Logic.Relation
import ScreenHooks.Proofs.Sdk.Outcomes

namespace ScreenHooks.Sdk

open Script Relation

/-! ### Names in modules -/

/-- A name in the module at a key. -/
abbrev Node := Path × String

/-- The module at a key, if one can be read. -/
def moduleAt? (d : Disk) (key : Path) : Option Module := (readModule d key).toOption.join

/-- The declaration that a name has in its module. -/
def answer? (d : Disk) (node : Node) : Option Resolved :=
  (moduleAt? d node.1).bind fun module =>
    match explicitLead? module node.2 with
    | some (.declared localName kind) => some ⟨node.1, localName, kind⟩
    | _ => none

/-- The name in the module that a specifier leads to. -/
def nodeOf? (d : Disk) (p : Project) (key : Path) (name source : String) : Option Node :=
  (p.specifier? d key source).map fun target => (target.normalize, name)

/-- The names that a name leads to, in the order of preference. -/
def successors (d : Disk) (p : Project) (node : Node) : List Node :=
  match moduleAt? d node.1 with
  | none => []
  | some module =>
    match explicitLead? module node.2 with
    | some (.elsewhere source imported) => (nodeOf? d p node.1 imported source).toList
    | some _ => []
    | none => (starSources module node.2).filterMap (nodeOf? d p node.1 node.2)

/-- The search among alternatives for the first one with a declaration, where
the nodes on the path to them are not gone through again. -/
inductive Search (d : Disk) (p : Project) : List Node → List Node → Option Resolved → Prop where
  | nil (onPath : List Node) : Search d p onPath [] none
  | repeated {onPath nodes : List Node} {node : Node} {result : Option Resolved}
      (honPath : node ∈ onPath) (hrest : Search d p onPath nodes result) :
      Search d p onPath (node :: nodes) result
  | answered {onPath nodes : List Node} {node : Node} {resolved : Resolved}
      (hnew : node ∉ onPath) (hanswer : answer? d node = some resolved) :
      Search d p onPath (node :: nodes) (some resolved)
  | inside {onPath nodes : List Node} {node : Node} {resolved : Resolved}
      (hnew : node ∉ onPath) (hanswer : answer? d node = none)
      (hinside : Search d p (node :: onPath) (successors d p node) (some resolved)) :
      Search d p onPath (node :: nodes) (some resolved)
  | outside {onPath nodes : List Node} {node : Node} {result : Option Resolved}
      (hnew : node ∉ onPath) (hanswer : answer? d node = none)
      (hinside : Search d p (node :: onPath) (successors d p node) none)
      (hrest : Search d p onPath nodes result) :
      Search d p onPath (node :: nodes) result

variable {d : Disk} {p : Project} {onPath nodes : List Node} {node : Node}

/-- There is no choice in a search. -/
theorem Search.unique {result other : Option Resolved} (h : Search d p onPath nodes result)
    (hother : Search d p onPath nodes other) : other = result := by
  induction h generalizing other with
  | nil =>
    cases hother
    rfl
  | repeated honPath _ ih =>
    cases hother with
    | repeated _ hrest => exact ih hrest
    | answered hnew => exact absurd honPath hnew
    | inside hnew => exact absurd honPath hnew
    | outside hnew => exact absurd honPath hnew
  | answered hnew hanswer =>
    cases hother with
    | repeated honPath => exact absurd honPath hnew
    | answered _ hanswer' => rw [← hanswer, hanswer']
    | inside _ hanswer' => simp [hanswer] at hanswer'
    | outside _ hanswer' => simp [hanswer] at hanswer'
  | inside hnew hanswer _ ih =>
    cases hother with
    | repeated honPath => exact absurd honPath hnew
    | answered _ hanswer' => simp [hanswer] at hanswer'
    | inside _ _ hinside => exact ih hinside
    | outside _ _ hinside => cases ih hinside
  | outside hnew hanswer _ _ ihInside ih =>
    cases hother with
    | repeated honPath => exact absurd honPath hnew
    | answered _ hanswer' => simp [hanswer] at hanswer'
    | inside _ _ hinside => cases ihInside hinside
    | outside _ _ _ hrest => exact ih hrest

/-- A search goes on where the first alternative has no declaration. -/
theorem Search.cons_none {result : Option Resolved} (hnode : Search d p onPath [node] none)
    (hrest : Search d p onPath nodes result) : Search d p onPath (node :: nodes) result := by
  cases hnode with
  | repeated honPath => exact .repeated honPath hrest
  | outside hnew hanswer hinside => exact .outside hnew hanswer hinside hrest

/-- A search ends where the first alternative has a declaration. -/
theorem Search.cons_some {resolved : Resolved} (hnode : Search d p onPath [node] (some resolved))
    (nodes : List Node) : Search d p onPath (node :: nodes) (some resolved) := by
  cases hnode with
  | repeated _ hrest => cases hrest
  | answered hnew hanswer => exact .answered hnew hanswer
  | inside hnew hanswer hinside => exact .inside hnew hanswer hinside
  | outside _ _ _ hrest => cases hrest

/-- A declaration that is found belongs to a node that can be reached. -/
theorem Search.reached {result : Option Resolved} (h : Search d p onPath nodes result)
    {resolved : Resolved} (hresult : result = some resolved) :
    ∃ start ∈ nodes, ∃ node, ReflTransGen (fun a b => b ∈ successors d p a) start node ∧
      answer? d node = some resolved := by
  induction h with
  | nil => cases hresult
  | repeated _ _ ih =>
    obtain ⟨start, hstart, hreach⟩ := ih hresult
    exact ⟨start, List.mem_cons_of_mem _ hstart, hreach⟩
  | answered _ hanswer =>
    exact ⟨_, List.mem_cons_self, _, .refl, hanswer.trans hresult⟩
  | inside _ _ _ ih =>
    obtain ⟨next, hnext, node, hreach, hanswer⟩ := ih hresult
    exact ⟨_, List.mem_cons_self, node, .head hnext hreach, hanswer⟩
  | outside _ _ _ _ _ ih =>
    obtain ⟨start, hstart, hreach⟩ := ih hresult
    exact ⟨start, List.mem_cons_of_mem _ hstart, hreach⟩

/-! ### Nodes that were left -/

/-- While the nodes on a path are being searched, all others that were gone
through have no declaration and lead only to nodes that were gone through. -/
structure Exhausted (d : Disk) (p : Project) (onPath : List Node) (visited : Visited) : Prop where
  opened : onPath ⊆ visited
  answer : ∀ node ∈ visited, node ∉ onPath → answer? d node = none
  next : ∀ node ∈ visited, node ∉ onPath → successors d p node ⊆ visited

variable {visited : Visited}

/-- A node that was gone through may be gone through again. -/
theorem Exhausted.cons (h : Exhausted d p onPath visited) (hnode : node ∈ visited) :
    Exhausted d p (node :: onPath) visited where
  opened := List.cons_subset.2 ⟨hnode, h.opened⟩
  answer other hother hnew := h.answer other hother fun hmem => hnew (List.mem_cons_of_mem _ hmem)
  next other hother hnew := h.next other hother fun hmem => hnew (List.mem_cons_of_mem _ hmem)

/-- A new node is searched. -/
theorem Exhausted.enter (h : Exhausted d p onPath visited) (node : Node) :
    Exhausted d p (node :: onPath) (node :: visited) := by
  have hbefore : ∀ other ∈ node :: visited, other ∉ node :: onPath →
      other ∈ visited ∧ other ∉ onPath := by
    intro other hother hnew
    rw [List.mem_cons, not_or] at hnew
    exact ⟨(List.mem_cons.1 hother).resolve_left hnew.1, hnew.2⟩
  refine ⟨List.cons_subset_cons node h.opened, fun other hother hnew => ?_,
    fun other hother hnew => ?_⟩
  · exact h.answer other (hbefore other hother hnew).1 (hbefore other hother hnew).2
  · exact List.subset_cons_of_subset node
      (h.next other (hbefore other hother hnew).1 (hbefore other hother hnew).2)

/-- A node without an answer is left once its successors were gone through. -/
theorem Exhausted.leave (h : Exhausted d p (node :: onPath) visited) (hanswer : answer? d node = none)
    (hnext : successors d p node ⊆ visited) : Exhausted d p onPath visited where
  opened := (List.cons_subset.1 h.opened).2
  answer other hother hnew := by
    by_cases heq : other = node
    · rw [heq, hanswer]
    · exact h.answer other hother (List.not_mem_cons_of_ne_of_not_mem heq hnew)
  next other hother hnew := by
    by_cases heq : other = node
    · rw [heq]
      exact hnext
    · exact h.next other hother (List.not_mem_cons_of_ne_of_not_mem heq hnew)

/-- The ideal search finds nothing among nodes that were gone through: it leaves
the nodes on the path alone, and no other one has a declaration. -/
theorem search_of_exhausted (h : Exhausted d p onPath visited) (hnodes : nodes ⊆ visited) :
    Search d p onPath nodes none := by
  -- each step down puts one more of the visited nodes on the path
  generalize hsize : (visited.filter (· ∉ onPath)).length = size
  induction size using Nat.strongRecOn generalizing onPath nodes with
  | ind size ih =>
    induction nodes with
    | nil => exact .nil onPath
    | cons node nodes ihNodes =>
      obtain ⟨hnode, hrest⟩ := List.cons_subset.1 hnodes
      by_cases honPath : node ∈ onPath
      · exact .repeated honPath (ihNodes hrest)
      · refine .outside honPath (h.answer node hnode honPath) ?_ (ihNodes hrest)
        refine ih _ ?_ (h.cons hnode) (h.next node hnode honPath) rfl
        have hsplit : visited.filter (· ∉ node :: onPath) =
            (visited.filter (· ∉ onPath)).filter (· ≠ node) := by
          rw [List.filter_filter]
          refine List.filter_congr fun other _ => ?_
          simp [not_or]
        rw [hsplit, ← hsize, List.length_filter_lt_length_iff_exists]
        exact ⟨node, List.mem_filter.2 ⟨hnode, by simpa using honPath⟩, by simp⟩

/-! ### Following specifiers -/

/-- Follows alternatives in turn, up to the first one with a declaration. -/
def followFirst (p : Project) (fuel : Nat) :
    List Node → Visited → Reading (Option Resolved × Visited)
  | [], visited => pure (none, visited)
  | node :: nodes, visited => do
    let found ← follow (Project.modules p.root) fuel node.1 node.2 visited
    if found.1.isSome then pure found else followFirst p fuel nodes found.2

variable {scope : Scope} {fuel : Nat} {path : Path} {name : String}

/-- Paths with one normal form are followed alike. -/
theorem follow_normalize :
    follow (Project.modules p.root) fuel path.normalize name visited =
      follow (Project.modules p.root) fuel path name visited := by
  cases fuel with
  | zero => rfl
  | succ fuel =>
    unfold follow
    rw [Path.normalize_normalize]

theorem follow_visited (h : (path.normalize, name) ∈ visited) :
    (follow (Project.modules p.root) fuel path name visited).on d scope =
      .ok (none, visited) := by
  cases fuel with
  | zero => rfl
  | succ fuel =>
    unfold follow
    simp only [if_pos h]
    rfl

/-- Alternatives are not followed after one with a declaration. -/
theorem followFirst_some {resolved : Resolved} {after : Visited}
    (h : (follow (Project.modules p.root) fuel node.1 node.2 visited).on d scope =
      .ok (some resolved, after)) (nodes : List Node) :
    (followFirst p fuel (node :: nodes) visited).on d scope = .ok (some resolved, after) := by
  rw [followFirst, Reading.on_bind h]
  rfl

theorem followFirst_none {after : Visited}
    (h : (follow (Project.modules p.root) fuel node.1 node.2 visited).on d scope =
      .ok (none, after)) (nodes : List Node) :
    (followFirst p fuel (node :: nodes) visited).on d scope =
      (followFirst p fuel nodes after).on d scope := by
  rw [followFirst, Reading.on_bind h]
  rfl

/-- Where alternatives were gone through, the first of them had a declaration, or the others
were gone through behind it. -/
theorem followFirst_cases {result : Option Resolved} {after : Visited}
    (h : (followFirst p fuel (node :: nodes) visited).on d scope = .ok (result, after)) :
    ∃ first mid, (follow (Project.modules p.root) fuel node.1 node.2 visited).on d scope =
        .ok (first, mid) ∧
      ((∃ resolved, first = some resolved ∧ result = some resolved ∧ after = mid) ∨
        (first = none ∧ (followFirst p fuel nodes mid).on d scope = .ok (result, after))) := by
  cases hon : (follow (Project.modules p.root) fuel node.1 node.2 visited).on d scope with
  | error e =>
    rw [followFirst, Reading.on_bind_error hon] at h
    cases h
  | ok found =>
    obtain ⟨first, mid⟩ := found
    refine ⟨first, mid, rfl, ?_⟩
    cases first with
    | some resolved =>
      rw [followFirst_some hon] at h
      cases h
      exact .inl ⟨resolved, rfl, rfl, rfl⟩
    | none =>
      rw [followFirst_none hon] at h
      exact .inr ⟨rfl, h⟩

/-- One alternative is followed like a path. -/
theorem followFirst_single :
    (followFirst p fuel [(path.normalize, name)] visited).on d scope =
      (follow (Project.modules p.root) fuel path name visited).on d scope := by
  let node : Node := (path.normalize, name)
  have hnormal : (follow (Project.modules p.root) fuel path name visited).on d scope =
      (follow (Project.modules p.root) fuel node.1 node.2 visited).on d scope := by
    rw [follow_normalize]
  rw [hnormal]
  cases hon : (follow (Project.modules p.root) fuel node.1 node.2 visited).on d scope with
  | error e => rw [followFirst, Reading.on_bind_error hon]
  | ok found =>
    obtain ⟨result, after⟩ := found
    cases result with
    | none => rw [followFirst_none hon]; rfl
    | some resolved => rw [followFirst_some hon]

/-- What the search does with a star export. -/
def followStar (p : Project) (fuel : Nat) (key : Path) (name : String)
    (found : Option Resolved × Visited) (source : String) : Reading (Option Resolved × Visited) :=
  if found.1.isSome then pure found
  else do
    match ← (Project.modules p.root).target? key source with
    | some target => follow (Project.modules p.root) fuel target name found.2
    | none => pure found

theorem followStar_found (key : Path) (sources : List String) (resolved : Resolved) :
    (sources.foldlM (followStar p fuel key name) (some resolved, visited)).on d scope =
      .ok (some resolved, visited) :=
  Reading.on_foldlM_fixed fun _ _ => rfl

/-- Star exports are followed like the nodes that they lead to. -/
theorem followStar_first (key : Path) (sources : List String) :
    (sources.foldlM (followStar p fuel key name) (none, visited)).on d scope =
      (followFirst p fuel (sources.filterMap (nodeOf? d p key name)) visited).on d scope := by
  induction sources generalizing visited with
  | nil => rfl
  | cons source rest ih =>
    rw [List.foldlM_cons]
    cases htarget : p.specifier? d key source with
    | none =>
      have hstep : (followStar p fuel key name (none, visited) source).on d scope =
          .ok (none, visited) := by
        unfold followStar
        rw [if_neg (by simp), Reading.on_bind (on_target? p key source), htarget]
        rfl
      rw [Reading.on_bind hstep, List.filterMap_cons_none (by rw [nodeOf?, htarget]; rfl)]
      exact ih
    | some target =>
      have hstep : (followStar p fuel key name (none, visited) source).on d scope =
          (follow (Project.modules p.root) fuel target name visited).on d scope := by
        unfold followStar
        rw [if_neg (by simp), Reading.on_bind (on_target? p key source), htarget]
      rw [List.filterMap_cons_some (by rw [nodeOf?, htarget]; rfl)]
      unfold followFirst
      rw [follow_normalize]
      cases hon : (follow (Project.modules p.root) fuel target name visited).on d scope with
      | error e => rw [Reading.on_bind_error (hstep.trans hon), Reading.on_bind_error hon]
      | ok found =>
        obtain ⟨result, after⟩ := found
        rw [Reading.on_bind (hstep.trans hon), Reading.on_bind hon]
        cases result with
        | none => exact ih
        | some resolved => exact followStar_found key rest resolved

/-- The search ends on every disk. -/
theorem ends_follow :
    (follow (Project.modules p.root) fuel path name visited).Ends d scope := by
  induction fuel generalizing path name visited with
  | zero => exact .pure _
  | succ fuel ih =>
    unfold follow
    simp only []
    split
    · exact .pure _
    · refine (ends_load _).bind fun found => ?_
      cases found with
      | none => exact .pure _
      | some module =>
        simp only []
        split
        next => exact .pure _
        next =>
          refine (ends_target? p _ _).bind fun target => ?_
          cases target with
          | none => exact .pure _
          | some target => exact ih
        next => exact .pure _
        next =>
          refine .foldlM _ _ fun found source => ?_
          split
          · exact .pure _
          · refine (ends_target? p _ _).bind fun target => ?_
            cases target with
            | none => exact .pure _
            | some target => exact ih

theorem moduleAt?_of_read {key : Path} {found : Option Module} (h : readModule d key = .ok found) :
    moduleAt? d key = found := by
  rw [moduleAt?, h]
  rfl

theorem read_of_moduleAt {key : Path} {module : Module} (h : moduleAt? d key = some module) :
    readModule d key = .ok (some module) := by
  unfold moduleAt? at h
  cases hread : readModule d key with
  | error e =>
    rw [hread] at h
    cases h
  | ok found =>
    rw [hread] at h
    exact congrArg Except.ok h

/-- What decides about a name is an export item that goes by it. -/
theorem item_of_explicitLead {module : Module} {lead : Lead}
    (h : explicitLead? module name = some lead) :
    ∃ item ∈ module.exports, item.name? = some name := by
  obtain ⟨item, hitem, -⟩ := Option.map_eq_some_iff.1 h
  refine ⟨item, List.mem_of_find?_eq_some hitem, ?_⟩
  have hdecides : decides name item = true := List.find?_some hitem
  unfold decides at hdecides
  split at hdecides
  · cases hdecides
  · cases hdecides
  · exact beq_iff_eq.1 hdecides

/-- A module that cannot be read ends the search. -/
theorem follow_error {e : Failure} (hnew : (path.normalize, name) ∉ visited)
    (hread : readModule d path.normalize = .error e) :
    (follow (Project.modules p.root) (fuel + 1) path name visited).on d scope = .error e := by
  have hload : (Project.load path.normalize).on d scope = .error e := by
    rw [on_load, Path.normalize_normalize, hread]
  unfold follow
  simp only [if_neg hnew]
  exact Reading.on_bind_error hload _

/-- A declaration ends the search. -/
theorem follow_answer {found : Option Module} {resolved : Resolved}
    (hnew : (path.normalize, name) ∉ visited) (hfound : readModule d path.normalize = .ok found)
    (hanswer : answer? d (path.normalize, name) = some resolved) :
    (follow (Project.modules p.root) (fuel + 1) path name visited).on d scope =
      .ok (some resolved, (path.normalize, name) :: visited) := by
  have hload : (Project.load path.normalize).on d scope = .ok found := by
    rw [on_load, Path.normalize_normalize, hfound]
  rw [answer?, moduleAt?_of_read hfound] at hanswer
  unfold follow
  simp only [if_neg hnew]
  refine (Reading.on_bind hload _).trans ?_
  cases found with
  | none => cases hanswer
  | some module =>
    simp only [Option.bind_some] at hanswer
    split at hanswer
    next localName kind hlead =>
      cases hanswer
      simp only [hlead]
      rfl
    next => cases hanswer

/-- A name without a declaration in its module is followed to its successors. -/
theorem follow_successors {found : Option Module}
    (hnew : (path.normalize, name) ∉ visited) (hfound : readModule d path.normalize = .ok found)
    (hanswer : answer? d (path.normalize, name) = none) :
    (follow (Project.modules p.root) (fuel + 1) path name visited).on d scope =
      (followFirst p fuel (successors d p (path.normalize, name))
        ((path.normalize, name) :: visited)).on d scope := by
  have hload : (Project.load path.normalize).on d scope = .ok found := by
    rw [on_load, Path.normalize_normalize, hfound]
  rw [answer?, moduleAt?_of_read hfound] at hanswer
  rw [successors, moduleAt?_of_read hfound]
  unfold follow
  simp only [if_neg hnew]
  refine (Reading.on_bind hload _).trans ?_
  cases found with
  | none => rfl
  | some module =>
    simp only [Option.bind_some] at hanswer
    simp only []
    -- without an explicit item the stars are the successors
    cases hlead : explicitLead? module name with
    | none => exact followStar_first path.normalize (starSources module name)
    | some lead =>
      cases lead with
      | declared localName kind => simp [hlead] at hanswer
      | nowhere => rfl
      | elsewhere source imported =>
        simp only []
        rw [Reading.on_bind (on_target? p path.normalize source), nodeOf?]
        cases p.specifier? d path.normalize source with
        | none => rfl
        | some target => exact followFirst_single.symm

/-- One step of a search that ends: the name was gone through before, it has a declaration
in its module, or its successors decide. -/
theorem follow_cases {result : Option Resolved} {after : Visited}
    (h : (follow (Project.modules p.root) (fuel + 1) path name visited).on d scope =
      .ok (result, after)) :
    ((path.normalize, name) ∈ visited ∧ result = none ∧ after = visited) ∨
      ((path.normalize, name) ∉ visited ∧ ∃ found, readModule d path.normalize = .ok found ∧
        ((∃ resolved, answer? d (path.normalize, name) = some resolved ∧
            result = some resolved ∧ after = (path.normalize, name) :: visited) ∨
          (answer? d (path.normalize, name) = none ∧
            (followFirst p fuel (successors d p (path.normalize, name))
              ((path.normalize, name) :: visited)).on d scope = .ok (result, after)))) := by
  by_cases hnew : (path.normalize, name) ∈ visited
  · rw [follow_visited hnew] at h
    cases h
    exact .inl ⟨hnew, rfl, rfl⟩
  · refine .inr ⟨hnew, ?_⟩
    cases hread : readModule d path.normalize with
    | error e =>
      rw [follow_error hnew hread] at h
      cases h
    | ok found =>
      refine ⟨found, rfl, ?_⟩
      cases hanswer : answer? d (path.normalize, name) with
      | some resolved =>
        rw [follow_answer hnew hread hanswer] at h
        cases h
        exact .inl ⟨resolved, rfl, rfl, rfl⟩
      | none =>
        rw [follow_successors hnew hread hanswer] at h
        exact .inr ⟨rfl, h⟩

/-! ### The actual search as the ideal one -/

/-- Whether a name is reached from another one. -/
def Reaches (d : Disk) (p : Project) (start node : Node) : Prop :=
  ReflTransGen (fun a b => b ∈ successors d p a) start node

/-- A simple path from a start, the last node first. -/
structure Trail (d : Disk) (p : Project) (start : Node) (nodes : List Node) : Prop where
  steps : nodes.IsChain fun later earlier => later ∈ successors d p earlier
  starts : nodes.getLast? = some start
  distinct : nodes.Nodup

theorem Trail.reaches {start : Node} (h : Trail d p start (node :: onPath)) :
    Reaches d p start node := by
  induction onPath generalizing node with
  | nil =>
    obtain rfl := Option.some.inj h.starts
    exact .refl
  | cons earlier rest ih =>
    obtain ⟨hstep, hrest⟩ := List.isChain_cons_cons.1 h.steps
    have hbefore : Trail d p start (earlier :: rest) :=
      ⟨hrest, by simpa using h.starts, (List.nodup_cons.1 h.distinct).2⟩
    exact (ih hbefore).tail hstep

theorem Trail.cons {start next : Node} (h : Trail d p start (node :: onPath))
    (hnext : next ∈ successors d p node) (hnew : next ∉ node :: onPath) :
    Trail d p start (next :: node :: onPath) :=
  ⟨List.isChain_cons_cons.2 ⟨hnext, h.steps⟩, by simpa using h.starts,
    List.nodup_cons.2 ⟨hnew, h.distinct⟩⟩

/-- Nodes of which a path leads through all are reached. -/
theorem Trail.reaches_mem {start : Node} (h : Trail d p start nodes) :
    ∀ node ∈ nodes, Reaches d p start node := by
  induction nodes with
  | nil => simp
  | cons first rest ih =>
    refine List.forall_mem_cons.2 ⟨h.reaches, fun node hnode => ?_⟩
    cases rest with
    | nil => cases hnode
    | cons second rest =>
      refine ih ⟨(List.isChain_cons_cons.1 h.steps).2, by simpa using h.starts,
        (List.nodup_cons.1 h.distinct).2⟩ node hnode

theorem mem_successors_normal {next : Node} (h : next ∈ successors d p node) :
    next.1.normalize = next.1 := by
  have hnode : ∀ {name source : String}, nodeOf? d p node.1 name source = some next →
      next.1.normalize = next.1 := by
    intro name source hnext
    obtain ⟨target, -, rfl⟩ := Option.map_eq_some_iff.1 hnext
    exact Path.normalize_normalize target
  unfold successors at h
  split at h
  · cases h
  · split at h
    · exact hnode (Option.mem_toList.1 h)
    · cases h
    · obtain ⟨source, -, hnext⟩ := List.mem_filterMap.1 h
      exact hnode hnext

/-- Whether the modules of all names can be read that are reached from a name. -/
def Readable (d : Disk) (p : Project) (start : Node) : Prop :=
  ∀ node, Reaches d p start node → ∃ found, readModule d node.1 = .ok found

/-- Whether no simple path from a name follows more specifiers than the search. -/
def Short (d : Disk) (p : Project) (start : Node) : Prop :=
  ∀ nodes, Trail d p start nodes → nodes.length ≤ maxDepth + 1

/-- Whether a name is followed as the ideal search follows it. Without a
declaration, it is gone through without a rest. -/
def FollowsAsSearch (d : Disk) (p : Project) (scope : Scope) (fuel : Nat) (onPath : List Node)
    (visited : Visited) (node : Node) : Prop :=
  ∃ result after, (follow (Project.modules p.root) fuel node.1 node.2 visited).on d scope =
      .ok (result, after) ∧
    Search d p onPath [node] result ∧
    (result = none → Exhausted d p onPath after ∧ visited ⊆ after ∧ node ∈ after)

/-- Alternatives are followed one by one. -/
theorem followFirst_search
    (hnode : ∀ node ∈ nodes, ∀ visited, Exhausted d p onPath visited →
      FollowsAsSearch d p scope fuel onPath visited node)
    (hvisited : Exhausted d p onPath visited) :
    ∃ result after, (followFirst p fuel nodes visited).on d scope = .ok (result, after) ∧
      Search d p onPath nodes result ∧
      (result = none → Exhausted d p onPath after ∧ visited ⊆ after ∧ nodes ⊆ after) := by
  induction nodes generalizing visited with
  | nil => exact ⟨none, visited, rfl, .nil onPath, fun _ => ⟨hvisited, by simp, by simp⟩⟩
  | cons node nodes ih =>
    obtain ⟨first, mid, hon, hsearch, hmid⟩ := hnode node List.mem_cons_self visited hvisited
    cases first with
    | some resolved =>
      exact ⟨some resolved, mid, followFirst_some hon nodes, hsearch.cons_some nodes, by simp⟩
    | none =>
      obtain ⟨hexhausted, hgrows, hmem⟩ := hmid rfl
      obtain ⟨result, after, honRest, hsearchRest, hafter⟩ :=
        ih (fun other hother => hnode other (List.mem_cons_of_mem _ hother)) hexhausted
      refine ⟨result, after, (followFirst_none hon nodes).trans honRest,
        hsearch.cons_none hsearchRest, fun hresult => ?_⟩
      obtain ⟨hexhausted', hgrows', hmem'⟩ := hafter hresult
      exact ⟨hexhausted', List.Subset.trans hgrows hgrows', List.cons_subset.2 ⟨hgrows' hmem, hmem'⟩⟩

theorem followsAsSearch_visited (hnormal : node.1.normalize = node.1)
    (hvisited : Exhausted d p onPath visited) (hnode : node ∈ visited) :
    FollowsAsSearch d p scope fuel onPath visited node :=
  ⟨none, visited, follow_visited (by rwa [hnormal]),
    search_of_exhausted hvisited (List.cons_subset.2 ⟨hnode, List.nil_subset visited⟩),
    fun _ => ⟨hvisited, List.Subset.refl visited, hnode⟩⟩

/-- Where no simple path is too long, a name is followed as the ideal search
follows it. -/
theorem follow_search {start : Node} (hreadable : Readable d p start) (hshort : Short d p start)
    (hnormal : node.1.normalize = node.1) (hvisited : Exhausted d p onPath visited)
    (htrail : node ∉ onPath → Trail d p start (node :: onPath))
    (hfuel : onPath.length + fuel = maxDepth + 1) :
    FollowsAsSearch d p scope fuel onPath visited node := by
  induction fuel generalizing node onPath visited with
  | zero =>
    by_cases hnode : node ∈ visited
    · exact followsAsSearch_visited hnormal hvisited hnode
    · have hlength := hshort _ (htrail fun hmem => hnode (hvisited.opened hmem))
      rw [List.length_cons] at hlength
      omega
  | succ fuel ih =>
    by_cases hnode : node ∈ visited
    · exact followsAsSearch_visited hnormal hvisited hnode
    · have honPath : node ∉ onPath := fun hmem => hnode (hvisited.opened hmem)
      obtain ⟨found, hfound⟩ := hreadable node (htrail honPath).reaches
      rw [← hnormal] at hfound
      have hkey : (node.1.normalize, node.2) = node := by rw [hnormal]
      have hnew : (node.1.normalize, node.2) ∉ visited := by rwa [hkey]
      cases hanswer : answer? d node with
      | some resolved =>
        have hon : (follow (Project.modules p.root) (fuel + 1) node.1 node.2 visited).on d scope =
            .ok (some resolved, (node.1.normalize, node.2) :: visited) :=
          follow_answer hnew hfound (by rwa [hkey])
        exact ⟨some resolved, _, hon, .answered honPath hanswer, by simp⟩
      | none =>
        have hon : (follow (Project.modules p.root) (fuel + 1) node.1 node.2 visited).on d scope =
            (followFirst p fuel (successors d p node) (node :: visited)).on d scope := by
          rw [follow_successors hnew hfound (by rwa [hkey]), hkey]
        -- each successor is followed from one level deeper
        have hnext : ∀ next ∈ successors d p node, ∀ visited,
            Exhausted d p (node :: onPath) visited →
              FollowsAsSearch d p scope fuel (node :: onPath) visited next := by
          intro next hmem visited' hvisited'
          refine ih (mem_successors_normal hmem) hvisited' (fun hnew => ?_) ?_
          · exact (htrail honPath).cons hmem hnew
          · rw [List.length_cons]
            omega
        obtain ⟨result, after, honNext, hsearch, hafter⟩ :=
          followFirst_search hnext (hvisited.enter node)
        refine ⟨result, after, hon.trans honNext, ?_, fun hresult => ?_⟩
        · cases result with
          | some resolved => exact .inside honPath hanswer hsearch
          | none => exact .outside honPath hanswer hsearch (.nil onPath)
        · obtain ⟨hexhausted, hgrows, hmem⟩ := hafter hresult
          obtain ⟨hself, hbefore⟩ := List.cons_subset.1 hgrows
          exact ⟨hexhausted.leave hanswer hmem, hbefore, hself⟩

/-! ### What is found -/

/-- Nothing is found only where no declaration can be reached. -/
theorem answer_of_reaches {visited : Visited} (h : Exhausted d p [] visited) {start : Node}
    (hstart : start ∈ visited) (hreach : Reaches d p start node) : answer? d node = none := by
  have hmem : node ∈ visited := by
    induction hreach with
    | refl => exact hstart
    | tail _ hstep ih => exact h.next _ ih List.not_mem_nil hstep
  exact h.answer node hmem List.not_mem_nil

theorem resolveExport_eq (path : Path) (name : String) :
    (Project.resolveExport path name).on d (p.scope d) =
      (follow (Project.modules p.root) (maxDepth + 1) path name [] >>= fun found =>
        (pure found.1 : Reading (Option Resolved))).on d (p.scope d) := by
  unfold Project.resolveExport
  rw [Reading.on_read]
  rfl

theorem on_resolveExport {result : Option Resolved} {after : Visited}
    (h : (follow (Project.modules p.root) (maxDepth + 1) path name []).on d (p.scope d) =
      .ok (result, after)) :
    (Project.resolveExport path name).on d (p.scope d) = .ok result := by
  rw [resolveExport_eq, Reading.on_bind h]
  rfl

theorem ends_resolveExport (path : Path) (name : String) :
    (Project.resolveExport path name).Ends d (p.scope d) := by
  rw [Reading.Ends, resolveExport_eq]
  exact ends_follow.bind fun found => .pure found.1

/-- Where no simple path is too long, the declaration is found that the ideal
search finds, and nothing only where none can be reached. -/
theorem on_resolveExport_short (hreadable : Readable d p (path.normalize, name))
    (hshort : Short d p (path.normalize, name)) :
    ∃ result, (Project.resolveExport path name).on d (p.scope d) = .ok result ∧
      Search d p [] [(path.normalize, name)] result ∧
      (result = none ↔ ∀ node, Reaches d p (path.normalize, name) node → answer? d node = none) := by
  have hstart : Exhausted d p [] [] := ⟨by simp, by simp, by simp⟩
  have hfollow : FollowsAsSearch d p (p.scope d) (maxDepth + 1) [] [] (path.normalize, name) :=
    follow_search hreadable hshort (Path.normalize_normalize path) hstart
      (fun _ => ⟨.singleton _, rfl, by simp⟩) (Nat.zero_add _)
  obtain ⟨result, after, hon, hsearch, hafter⟩ := hfollow
  rw [follow_normalize] at hon
  refine ⟨result, on_resolveExport hon, hsearch, fun hresult node hreach => ?_, fun hnone => ?_⟩
  · obtain ⟨hexhausted, -, hmem⟩ := hafter hresult
    exact answer_of_reaches hexhausted hmem hreach
  · cases result with
    | none => rfl
    | some resolved =>
      obtain ⟨start, hstart, node, hreach, hanswer⟩ := hsearch.reached rfl
      rw [List.mem_singleton.1 hstart] at hreach
      rw [hnone node hreach] at hanswer
      cases hanswer

theorem resolved_iff (hreadable : Readable d p (path.normalize, name))
    (hshort : Short d p (path.normalize, name)) :
    (∃ resolved, (Project.resolveExport path name).on d (p.scope d) = .ok (some resolved)) ↔
      ∃ node, Reaches d p (path.normalize, name) node ∧ answer? d node ≠ none := by
  obtain ⟨result, hon, -, hnone⟩ := on_resolveExport_short hreadable hshort
  constructor
  · rintro ⟨resolved, hresolved⟩
    obtain rfl := Except.ok.inj (hon.symm.trans hresolved)
    by_contra hall
    push Not at hall
    cases hnone.2 hall
  · rintro ⟨node, hreach, hanswer⟩
    cases result with
    | none => exact absurd (hnone.1 rfl node hreach) hanswer
    | some resolved => exact ⟨resolved, hon⟩

/-- A simple path is no longer than the names that are reached are many. -/
theorem short_of_few {start : Node} {nodes : List Node} (hfew : nodes.length ≤ maxDepth + 1)
    (hall : ∀ node, Reaches d p start node → node ∈ nodes) : Short d p start := by
  intro trail htrail
  have hsub : trail ⊆ nodes := fun node hnode => hall node (htrail.reaches_mem node hnode)
  exact (List.subperm_of_subset htrail.distinct hsub).length_le.trans hfew

/-- Names that lead only to each other. -/
theorem mem_of_reaches {start : Node} {nodes : List Node} (hstart : start ∈ nodes)
    (hclosed : ∀ node ∈ nodes, successors d p node ⊆ nodes) (hreach : Reaches d p start node) :
    node ∈ nodes := by
  induction hreach with
  | refl => exact hstart
  | tail _ hstep ih => exact hclosed _ ih hstep

/-- The search for a declaration always ends, and fails only where a module
cannot be read. From a name from which at most 17 names are reached it finds what
the ideal search finds, and nothing only where no declaration is reached. -/
theorem resolveExport_search (hp : Inquiry.Sound d p) (path : Path) (name : String) :
    ((∃ result, ((Project.resolveExport path name).run d p).1 = .ok result) ∨
      ∃ key e, readModule d key = .error e ∧
        ((Project.resolveExport path name).run d p).1 = .error e) ∧
    (Readable d p (path.normalize, name) →
      (∃ nodes : List Node, nodes.length ≤ 17 ∧
        ∀ node, Reaches d p (path.normalize, name) node → node ∈ nodes) →
      ∃ result, ((Project.resolveExport path name).run d p).1 = .ok result ∧
        (∀ found, Search d p [] [(path.normalize, name)] found ↔ found = result) ∧
        (result = none ↔
          ∀ node, Reaches d p (path.normalize, name) node → answer? d node = none)) := by
  rw [Reading.run_eq hp]
  refine ⟨ends_resolveExport path name, fun hreadable ⟨nodes, hfew, hall⟩ => ?_⟩
  obtain ⟨result, hon, hsearch, hnone⟩ :=
    on_resolveExport_short hreadable (short_of_few hfew hall)
  refine ⟨result, hon, fun found => ⟨hsearch.unique, ?_⟩, hnone⟩
  rintro rfl
  exact hsearch

/-- Modules with names behind star exports and others, in a circle. -/
def circleDisk : Disk :=
  { entries := [(["core"], .directory),
      (["core", "a.ts"], .file (.text "export * from './b'")),
      (["core", "b.ts"], .file (.text "export * from './a'\nexport \x7bx as y\x7d from './c'")),
      (["core", "c.ts"], .file (.text "export let x"))] }

theorem resolveExport_search_circle :
    ∃ result, ((Project.resolveExport ⟨"/core/a.ts"⟩ "y").run circleDisk ⟨⟨"/core"⟩, []⟩).1 =
        .ok result ∧ result = some ⟨⟨"/core/c.ts"⟩, some "x", .variable⟩ ∧
      ∀ found, Search circleDisk ⟨⟨"/core"⟩, []⟩ [] [(⟨"/core/a.ts"⟩, "y")] found ↔
        found = result := by
  have htext : ∀ file ∈ circleDisk.files, ∃ text, file.2 = .text text := by
    simp [circleDisk, Disk.files]
  have hnormal : Path.normalize ⟨"/core/a.ts"⟩ = ⟨"/core/a.ts"⟩ := by decide +kernel
  have hclosed : ∀ node ∈ [((⟨"/core/a.ts"⟩ : Path), "y"), (⟨"/core/b.ts"⟩, "y"), (⟨"/core/c.ts"⟩, "x")],
      successors circleDisk ⟨⟨"/core"⟩, []⟩ node ⊆
        [(⟨"/core/a.ts"⟩, "y"), (⟨"/core/b.ts"⟩, "y"), (⟨"/core/c.ts"⟩, "x")] := by
    decide +kernel
  have hsearch := (resolveExport_search (d := circleDisk) (p := ⟨⟨"/core"⟩, []⟩)
    (fun _ _ h => by cases h) ⟨"/core/a.ts"⟩ "y").2
  rw [hnormal] at hsearch
  obtain ⟨result, hon, hfound, -⟩ := hsearch (fun node _ => readModule_of_text htext node.1)
    ⟨_, by decide, fun node => mem_of_reaches List.mem_cons_self hclosed⟩
  refine ⟨result, hon, ?_, hfound⟩
  have hresult : ((Project.resolveExport ⟨"/core/a.ts"⟩ "y").run circleDisk ⟨⟨"/core"⟩, []⟩).1 =
      .ok (some ⟨⟨"/core/c.ts"⟩, some "x", .variable⟩) := by decide +kernel
  exact Except.ok.inj (hon.symm.trans hresult)

end ScreenHooks.Sdk
