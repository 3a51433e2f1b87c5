/-
Where paths lead by their text.

A name descends, and a climb undoes the name before it. What a path leads to is then
told by its start, the climbs that nothing undoes and the names after them; at the root
a climb leads nowhere else. The normal form of a path has its start and its names, but
of its climbs it only keeps whether they are odd: a climb undoes a climb there. So
paths that lead to one place have one normal form, unless they climb above the root.

* **`normalize_eq_iff`** — paths that lead to one place;
* **`normalize_of_climbsKept`** — paths that lead where their normal form leads.
-/
import ScreenHooks.Proofs.Path.Normal

namespace ScreenHooks.Path

/-! ### Locations -/

/-- Where a path leads by its text: whether from the root, and over which names. The
climbs that nothing undoes stand in front of them, except at the root. -/
structure Location where
  root : Bool
  names : List String
  deriving DecidableEq

/-- Where a path leads. -/
def location (p : Path) : Location :=
  ⟨p.isAbsolute, if p.isAbsolute then p.below else p.collapsed⟩

/-- The path that leads to a location without detours; it is empty where a relative path
starts. -/
def Location.path (place : Location) : Path :=
  ⟨(if place.root then "/" else "") ++ String.intercalate "/" place.names⟩

/-! ### Normal forms -/

/-- The normal form has a climb where they are odd. -/
theorem isOdd_iff (p : Path) : isOdd p.overshoot = true ↔ .up ∈ p.normalize.components := by
  obtain ⟨hnormal, -, hproper⟩ := normalize_eq p
  rw [hnormal, components_spelled hproper]
  cases p.isAbsolute <;> cases isOdd p.overshoot <;> simp

/-- Paths that lead to one location have one normal form, unless they are absolute and
one climbs above the root an odd number of times. -/
theorem normalize_eq_iff {p q : Path} (h : p.location = q.location) :
    p.normalize = q.normalize ↔
      (p.isAbsolute = true → isOdd p.overshoot = isOdd q.overshoot) := by
  obtain ⟨habs, hnames⟩ := Location.mk.inj h
  refine ⟨fun hnormal _ => ?_, fun hodd => ?_⟩
  · rw [Bool.eq_iff_iff, isOdd_iff, isOdd_iff, hnormal]
  · rw [(normalize_eq p).1, (normalize_eq q).1, ← habs]
    rw [← habs] at hnames
    cases hroot : p.isAbsolute with
    | true =>
      rw [hroot, if_pos rfl, if_pos rfl] at hnames
      rw [hodd hroot, hnames]
    | false =>
      rw [hroot, if_neg (by decide), if_neg (by decide)] at hnames
      rw [overshoot, overshoot, below, below, hnames]

/-- Whether a path has no more climbs that nothing undoes than its normal form keeps:
at the root an even number of them can go. -/
def ClimbsKept (p : Path) : Prop :=
  if p.isAbsolute then isOdd p.overshoot = false else p.overshoot ≤ 1

instance (p : Path) : Decidable p.ClimbsKept := by
  unfold ClimbsKept
  infer_instance

/-- A path whose climbs are kept leads where its normal form leads. -/
theorem normalize_of_climbsKept {p : Path} (h : p.ClimbsKept) :
    p.normalize = p.location.path := by
  obtain ⟨hnormal, hcollapsed, -⟩ := normalize_eq p
  have htext := spelled_text p.isAbsolute (isOdd p.overshoot) p.below
  rw [← hnormal] at htext
  suffices hlegs : legs (isOdd p.overshoot) p.below = p.location.names by
    rw [hlegs] at htext
    exact congrArg Path.mk htext
  rw [ClimbsKept] at h
  rw [location]
  cases hroot : p.isAbsolute with
  | true =>
    rw [hroot, if_pos rfl] at h
    simp [legs, h]
  | false =>
    rw [hroot, if_neg (by decide)] at h
    simp only [Bool.false_eq_true, if_false]
    rw [hcollapsed]
    -- of more than one climb the normal form keeps at most one
    obtain hnone | hone : p.overshoot = 0 ∨ p.overshoot = 1 := by omega
    · rw [hnone]
      rfl
    · rw [hone]
      rfl

end ScreenHooks.Path
