/-
Walks along paths.

A walk takes the steps of a path in turn: a name descends, a climb undoes the last name.
Without a name to undo, a climb stays at the root, or goes up one level from where a relative
path starts. The normal form of an absolute path ends where the path ends, also where it
keeps a climb at the root. From the start of a relative path it keeps at most one climb,
since a climb undoes the climb before it there, and so it ends elsewhere than the path does
after two.

* **`finish_eq`** — where a path ends, by its climbs and names;
* **`components_normalize`**, **`finish_normalize`** — the steps of a normal form, and where
  it ends;
* **`normalize_ends_iff`** — paths that end where their normal forms end.
-/
import ScreenHooks.Proofs.Path.Normal

namespace ScreenHooks.Path

/-- A stop of a walk: whether the walk is below the root or relative, how many levels it is
above its start, and the names that lead down from there, last first. -/
structure Stop where
  root : Bool
  above : Nat
  names : List String
  deriving DecidableEq

/-- The next stop of a walk. -/
def Stop.step (stop : Stop) : Component → Stop
  | .root => ⟨true, 0, []⟩
  | .here => stop
  | .name text => { stop with names := text :: stop.names }
  | .up =>
    match stop.names with
    | _ :: rest => { stop with names := rest }
    | [] => if stop.root then stop else { stop with above := stop.above + 1 }

/-- Where a path ends. -/
def finish (p : Path) : Stop := p.components.foldl Stop.step ⟨false, 0, []⟩

/-! ### Climbs and names -/

/-- A stop below the root, or so many levels above the start of a relative path. -/
def stopAt (root : Bool) (climbs : Nat) (names : List String) : Stop :=
  ⟨root, if root then 0 else climbs, names⟩

/-- At the root a climb that nothing undoes makes no difference to a walk. -/
theorem follows_step (root : Bool) : Follows Stop.step (stopAt root) where
  here _ := rfl
  name _ _ _ := rfl
  undone _ _ _ := rfl
  kept climbs := by cases root <;> rfl

/-- Where a path ends is told by its climbs that nothing undoes and its names. -/
theorem finish_eq (p : Path) : p.finish = stopAt p.isAbsolute p.overshoot p.below.reverse := by
  have hstart : (if p.isAbsolute then [Component.root] else []).foldl Stop.step ⟨false, 0, []⟩ =
      stopAt p.isAbsolute 0 [] := by
    cases p.isAbsolute <;> rfl
  exact ((follows_step p.isAbsolute).leads hstart).1

/-! ### Normal forms -/

/-- A normal form is a root or none, a climb if there is an odd number of them, and the names
of the path. -/
theorem components_normalize (p : Path) :
    p.normalize.components = (if p.isAbsolute then [.root] else []) ++
      (List.replicate (p.overshoot % 2) .up ++ p.finish.names.reverse.map .name) := by
  obtain ⟨hnormal, -, hproper⟩ := normalize_eq p
  rw [hnormal, components_spelled hproper, replicate_odd, finish_eq, stopAt, List.reverse_reverse]

/-- Of the levels that a path is above its start, its normal form keeps whether they are odd. -/
theorem finish_normalize (p : Path) :
    p.normalize.finish = { p.finish with above := p.finish.above % 2 } := by
  obtain ⟨habs, hovershoot, hbelow⟩ := normalize_leads p
  rw [finish_eq, finish_eq, habs, hovershoot, hbelow]
  cases p.isAbsolute <;> rfl

theorem above_of_absolute {p : Path} (h : p.isAbsolute = true) : p.finish.above = 0 := by
  rw [finish_eq, stopAt, h]
  rfl

/-- The normal form of a path ends where the path ends exactly if the path is absolute or at
most one level above its start; it keeps one climb of an odd number, also at the root. A
normal form is its own. -/
theorem normalize_ends_iff (p : Path) :
    (p.normalize.finish = p.finish ↔ p.isAbsolute = true ∨ p.finish.above ≤ 1) ∧
      p.normalize.finish = { p.finish with above := p.finish.above % 2 } ∧
      p.normalize.components = (if p.isAbsolute then [.root] else []) ++
        (List.replicate (p.overshoot % 2) .up ++ p.finish.names.reverse.map .name) ∧
      p.normalize.normalize = p.normalize := by
  refine ⟨?_, finish_normalize p, components_normalize p, normalize_normalize p⟩
  rw [finish_normalize]
  constructor
  · intro hends
    have habove : p.finish.above % 2 = p.finish.above := congrArg Stop.above hends
    exact .inr (by omega)
  · intro hstart
    have habove : p.finish.above % 2 = p.finish.above := by
      rcases hstart with habs | hfew
      · rw [above_of_absolute habs]
      · exact Nat.mod_eq_of_lt (by omega)
    rw [habove]

/-- Two climbs from the start of a relative path are gone from its normal form; one climb at
the root is kept there, and two are not. -/
theorem climbs_undone :
    (normalize ⟨"../../b"⟩ = ⟨"b"⟩ ∧ finish ⟨"b"⟩ ≠ finish ⟨"../../b"⟩) ∧
    (finish ⟨"/../b"⟩ = finish ⟨"/b"⟩ ∧ normalize ⟨"/../b"⟩ = ⟨"/../b"⟩) ∧
      finish ⟨"/../../b"⟩ = finish ⟨"/b"⟩ ∧ normalize ⟨"/../../b"⟩ = ⟨"/b"⟩ := by
  decide +kernel

end ScreenHooks.Path
