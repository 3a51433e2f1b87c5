/-
Which interfaces the documentation publishes.

The index is walked with a stack. What the stack holds stands for the walk that is still to
come: each of its nodes in turn, a parent before its children. So the names are those of the
recursive walk from the root, whatever the nodes are, and the stack is empty after one turn
for each node of that walk.

* **`visit_eq`**, **`turns_visit`** — what a stack comes to, and when it is empty;
* **`mem_preorder_iff`** — the walk reaches what is reachable;
* **`ofIndex_exact`** — the published names, their number and their order.
-/
import Mathlib.Data.Set.Card
import Mathlib.Logic.Function.Iterate
import Mathlib.Logic.Relation
import ScreenHooks.Proofs.Names
import ScreenHooks.Screen.AllowList

namespace ScreenHooks

/-! ### Views of values -/

namespace Json

theorem asNat?_eq_some_iff {value : Json} {n : Nat} :
    value.asNat? = some n ↔ value = .number (.integer n) := by
  constructor
  · intro h
    unfold asNat? at h
    split at h
    · rw [Option.some.inj h]
      rfl
    · cases h
  · rintro rfl
    rfl

theorem asString?_eq_some_iff {value : Json} {text : String} :
    value.asString? = some text ↔ value = .string text := by
  cases value <;> simp [asString?]

end Json

namespace Screen.AllowList

/-! ### The walk -/

/-- Whether a node stands in the `children` array of another. -/
def Below (parent child : Json) : Prop :=
  ∃ items, parent.get? "children" = some (.array items) ∧ child ∈ items

/-- Whether a node is reached from the root through `children` arrays. -/
def Reachable (root node : Json) : Prop := Relation.ReflTransGen Below root node

theorem mem_children_iff {node child : Json} : child ∈ children node ↔ Below node child := by
  unfold children Below
  cases hvalue : node.get? "children" with
  | none => simp
  | some value => cases value <;> simp [Json.asArray?]

theorem sizeOf_child {node child : Json} (h : child ∈ children node) : sizeOf child < sizeOf node :=
  Nat.lt_of_lt_of_le (List.sizeOf_lt_of_mem h) (sizeOf_children node)

/-- A node and what is below it, parents first, and the children of a node in their order. -/
def preorder (node : Json) : List Json :=
  node :: (children node).attach.flatMap fun child => preorder child.1
termination_by sizeOf node
decreasing_by exact sizeOf_child child.2

theorem preorder_eq (node : Json) :
    preorder node = node :: (children node).flatMap preorder := by
  rw [preorder, List.flatMap_subtype fun _ _ => rfl, List.unattach_attach]

/-- The walk reaches what is reachable. -/
theorem mem_preorder_iff {root node : Json} : node ∈ preorder root ↔ Reachable root node := by
  induction root using preorder.induct with
  | case1 root ih =>
    rw [preorder_eq, List.mem_cons, List.mem_flatMap, Reachable,
      Relation.ReflTransGen.cases_head_iff, eq_comm]
    refine or_congr_right (exists_congr fun child => ?_)
    rw [mem_children_iff]
    exact and_congr_right fun hchild => ih ⟨child, mem_children_iff.2 hchild⟩

/-! ### The stack -/

/-- The walk that a stack stands for. -/
def pending (stack : List Json) : List Json := stack.flatMap preorder

theorem pending_cons (node : Json) (stack : List Json) :
    pending (node :: stack) = node :: pending (children node ++ stack) := by
  rw [pending, pending, List.flatMap_cons, preorder_eq, List.flatMap_append, List.cons_append]

/-- A stack comes to the names of the walk that it stands for. -/
theorem visit_eq (kind : Nat) (stack : List Json) (names : Names) :
    visit kind stack names = names.insertAll ((pending stack).filterMap (ownName? kind)) := by
  induction stack, names using visit.induct kind with
  | case1 names => rw [visit]; rfl
  | case2 node stack names ih =>
    have hfirst : (node :: pending (children node ++ stack)).filterMap (ownName? kind) =
        (ownName? kind node).toList ++
          (pending (children node ++ stack)).filterMap (ownName? kind) := by
      rw [List.filterMap_cons]
      cases ownName? kind node <;> rfl
    rw [visit, ih, ← Names.insertAll_append, pending_cons, hfirst]

/-- One turn of the visit: the uppermost node leaves its name, and its children are put in its
place. -/
def turn (kind : Nat) : List Json × Names → List Json × Names
  | ([], names) => ([], names)
  | (node :: stack, names) =>
    (children node ++ stack, names.insertAll (ownName? kind node).toList)

/-- A stack is empty after a turn for each node that it stands for. -/
theorem turns_visit (kind : Nat) (stack : List Json) (names : Names) :
    (turn kind)^[(pending stack).length] (stack, names) = ([], visit kind stack names) := by
  induction stack, names using visit.induct kind with
  | case1 names => rw [visit]; rfl
  | case2 node stack names ih =>
    rw [pending_cons, List.length_cons, Function.iterate_succ_apply, visit]
    exact ih

/-! ### The published names -/

/-- Whether a node publishes a name: its `kind` is the number of interfaces, and its `name` a
text. -/
structure Publishes (kind : Nat) (name : String) (node : Json) : Prop where
  kind : node.get? "kind" = some (.number (.integer kind))
  name : node.get? "name" = some (.string name)

theorem ownName?_eq_some_iff {kind : Nat} {name : String} {node : Json} :
    ownName? kind node = some name ↔ Publishes kind name node := by
  unfold ownName?
  constructor
  · intro h
    split at h
    next hkind =>
      obtain ⟨value, hvalue, hnumber⟩ := Option.bind_eq_some_iff.1 hkind
      obtain ⟨text, htext, hname⟩ := Option.bind_eq_some_iff.1 h
      exact ⟨by rw [hvalue, Json.asNat?_eq_some_iff.1 hnumber],
        by rw [htext, Json.asString?_eq_some_iff.1 hname]⟩
    next => cases h
  · rintro ⟨hkind, hname⟩
    rw [hkind, hname]
    exact if_pos rfl

theorem names_ofIndex (index : Json) (kind : Nat) :
    (ofIndex index kind).names = Names.ofList ((preorder index).filterMap (ownName? kind)) := by
  have hindex : pending [index] = preorder index := by
    rw [pending, List.flatMap_cons, List.flatMap_nil, List.append_nil]
  rw [ofIndex, visit_eq, hindex]
  rfl

theorem contains_ofIndex_iff {index : Json} {kind : Nat} {name : String} :
    (ofIndex index kind).contains name = true ↔
      ∃ node, Reachable index node ∧ Publishes kind name node := by
  rw [contains, names_ofIndex, Names.contains, List.contains_iff_mem, ← Names.mem_def,
    Names.mem_ofList, List.mem_filterMap]
  simp only [mem_preorder_iff, ownName?_eq_some_iff]

/-- The names are as many as there are published ones. -/
theorem size_ofIndex (index : Json) (kind : Nat) :
    (ofIndex index kind).names.size =
      {name | ∃ node, Reachable index node ∧ Publishes kind name node}.ncard := by
  have hset : {name | ∃ node, Reachable index node ∧ Publishes kind name node} =
      ((ofIndex index kind).names.toList.toFinset : Set String) := by
    ext name
    rw [Set.mem_ofPred_eq, ← contains_ofIndex_iff, contains, Names.contains,
      List.contains_iff_mem, Finset.mem_coe, List.mem_toFinset]
  rw [hset, Set.ncard_coe_finset, List.toFinset_card_of_nodup (ofIndex index kind).names.nodup]
  rfl

/-- The visit of an index ends; a name is published exactly if a reachable node publishes it,
the names are counted once each, and stand in the order of the recursive walk. -/
theorem ofIndex_exact (index : Json) (kind : Nat) :
    (turn kind)^[(preorder index).length] ([index], .empty) = ([], (ofIndex index kind).names) ∧
      (∀ name, (ofIndex index kind).contains name = true ↔
        ∃ node, Reachable index node ∧ Publishes kind name node) ∧
      (ofIndex index kind).names.size =
        {name | ∃ node, Reachable index node ∧ Publishes kind name node}.ncard ∧
      (ofIndex index kind).names.toList =
        ((preorder index).filterMap (ownName? kind)).eraseDups := by
  refine ⟨?_, fun name => contains_ofIndex_iff, size_ofIndex index kind, ?_⟩
  · have hturns := turns_visit kind [index] .empty
    rwa [pending, List.flatMap_cons, List.flatMap_nil, List.append_nil] at hturns
  · rw [names_ofIndex, Names.toList_ofList]

end Screen.AllowList

end ScreenHooks
