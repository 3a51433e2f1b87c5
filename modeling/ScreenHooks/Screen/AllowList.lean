/-
The interfaces that the documentation publishes.

The documentation index is a tree of JSON objects joined by `children` arrays.
A node publishes its `name` if its `kind` is the number of interfaces. The tree
is visited with a stack of the nodes that are still to be seen; a node is larger
than what it has below, so the visit ends.

* **`sizeOf_children`** — what is below a node is not larger than the node.
-/
import ScreenHooks.Json.Basic
import ScreenHooks.Names

namespace ScreenHooks.Screen

/-- The published interface names, in document order. -/
structure AllowList where
  names : Names

/-- The number by which a documentation index marks interfaces. -/
def defaultInterfaceKind : Nat := 256

namespace AllowList

/-- No interfaces. -/
def empty : AllowList := ⟨.empty⟩

/-- Whether a name is published. -/
def contains (allow : AllowList) (name : String) : Bool := allow.names.contains name

/-- The name of a node, if it has the wanted kind. -/
def ownName? (kind : Nat) (node : Json) : Option String :=
  if (node.get? "kind").bind Json.asNat? = some kind then (node.get? "name").bind Json.asString?
  else none

/-- The nodes right below a node. -/
def children (node : Json) : List Json := ((node.get? "children").bind Json.asArray?).getD []

theorem children_cases (node : Json) : children node = [] ∨
    ∃ members, node = .object members ∧ ("children", .array (children node)) ∈ members := by
  cases node with
  | object members =>
    have hlookup : children (.object members) =
        ((members.lookup "children").bind Json.asArray?).getD [] := rfl
    cases hvalue : members.lookup "children" with
    | none => exact .inl (by rw [hlookup, hvalue]; rfl)
    | some value =>
      cases value with
      | array items =>
        have hitems : children (.object members) = items := by rw [hlookup, hvalue]; rfl
        obtain ⟨before, after, hmembers, -⟩ := List.lookup_eq_some_iff.1 hvalue
        exact .inr ⟨members, rfl, by rw [hitems, hmembers]; simp⟩
      | _ => exact .inl (by rw [hlookup, hvalue]; rfl)
  | _ => exact .inl rfl

/-- All that is below a node is not larger than the node. -/
theorem sizeOf_children (node : Json) : sizeOf (children node) ≤ sizeOf node := by
  rcases children_cases node with hnone | ⟨members, hnode, hmember⟩
  · rw [hnone]
    cases node <;> simp
  · have hsize := List.sizeOf_lt_of_mem hmember
    generalize children node = items at hsize
    rw [hnode]
    simp at hsize ⊢
    omega

/-- A stack is as large as its parts, apart from its end. -/
theorem sizeOf_stack (above below : List Json) :
    sizeOf (above ++ below) + 1 = sizeOf above + sizeOf below := by
  induction above with
  | nil => simp [Nat.add_comm]
  | cons node rest ih =>
    simp only [List.cons_append, List.cons.sizeOf_spec]
    omega

/-- The names of the nodes on a stack and of all those below them, after the names so far.
The children of a node go on top of the stack, the first of them uppermost. -/
def visit (kind : Nat) : List Json → Names → Names
  | [], names => names
  | node :: stack, names =>
    visit kind (children node ++ stack) (names.insertAll (ownName? kind node).toList)
termination_by stack => sizeOf stack
decreasing_by
  have hstack := sizeOf_stack (children node) stack
  have hnode := sizeOf_children node
  simp only [List.cons.sizeOf_spec]
  omega

/-- The interfaces of a documentation index. -/
def ofIndex (index : Json) (kind : Nat) : AllowList := ⟨visit kind [index] .empty⟩

/-- The list of the given names. -/
def ofNames (names : List String) : AllowList := ⟨Names.ofList names⟩

end AllowList

end ScreenHooks.Screen
