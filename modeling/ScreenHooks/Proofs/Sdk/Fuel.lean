/-
How deep star exports go.

The modules that are being expanded inside each other are files, each with its
own path in normal form, and a disk has at most four such paths for a file. So
a fuel above this bound is never used up, and more of it changes neither what a
reading asks nor what it ends with.

* **`Agree.bind`** — inquiries in sequence;
* **`namesFrom_enough`** — star exports, expanded with enough fuel;
* **`alike_congruence`** — readings with enough fuel;
* **`Reading.on_same`** — readings on two disks.
-/
import ScreenHooks.Proofs.Path.Normal
import ScreenHooks.Proofs.Sdk.Readings

namespace ScreenHooks.Sdk

open Script

variable {α β : Type} {d : Disk}

/-! ### Inquiries that agree -/

/-- Whether two inquiries ask the same on a disk and end with the same. -/
def Agree (d : Disk) (x y : Inquiry α) : Prop := x.on d = y.on d ∧ x.asked d = y.asked d

theorem Agree.bind {x y : Inquiry α} {f g : α → Inquiry β} (hx : Agree d x y)
    (hf : Agree d (f (x.on d)) (g (x.on d))) : Agree d (x >>= f) (y >>= g) := by
  obtain ⟨hon, hasked⟩ := hx
  refine ⟨?_, ?_⟩
  · rw [Inquiry.on_bind, Inquiry.on_bind, ← hon]
    exact hf.1
  · rw [Inquiry.asked_bind, Inquiry.asked_bind, ← hon, ← hasked, hf.2]

/-! ### Readings with enough fuel -/

/-- Whether no expansion of star exports on a disk uses up the fuel. -/
def Scope.Enough (d : Disk) (scope : Scope) : Prop := 4 * d.files.length < scope.fuel

/-- Whether two readings agree on a disk, with any two amounts of fuel that are
enough. -/
def Reading.Alike (d : Disk) (x y : Reading α) : Prop :=
  ∀ s s' : Scope, s.root = s'.root → s.Enough d → s'.Enough d →
    Agree d (x.inquiry s) (y.inquiry s')

theorem Reading.Alike.bind {x y : Reading α} {f g : α → Reading β} (hx : x.Alike d y)
    (hf : ∀ a, (∃ s, (x.inquiry s).on d = .ok a) → (f a).Alike d (g a)) :
    (x >>= f).Alike d (y >>= g) := by
  intro s s' hroot hs hs'
  rw [Reading.inquiry_bind, Reading.inquiry_bind]
  refine (hx s s' hroot hs hs').bind ?_
  cases hon : (x.inquiry s).on d with
  | error e => exact ⟨rfl, rfl⟩
  | ok a => exact hf a ⟨s, hon⟩ s s' hroot hs hs'

theorem Reading.Alike.scope {f g : Scope → Reading α}
    (h : ∀ s s' : Scope, s.root = s'.root → s.Enough d → s'.Enough d → (f s).Alike d (g s')) :
    (read >>= f : Reading α).Alike d (read >>= g) := by
  intro s s' hroot hs hs'
  rw [Reading.inquiry_read, Reading.inquiry_read]
  exact h s s' hroot hs hs' s s' hroot hs hs'

theorem alike_congruence (d : Disk) : Congruence fun _ x y => Reading.Alike d x y where
  pure a := fun _ _ _ _ _ => ⟨rfl, rfl⟩
  throw e := fun _ _ _ _ _ => ⟨rfl, rfl⟩
  bind hx hf := hx.bind fun a _ => hf a
  root h := by
    refine Reading.Alike.scope fun s s' hroot _ _ => ?_
    rw [← hroot]
    exact h s.root
  isFile path _ := fun _ _ _ _ _ => ⟨rfl, rfl⟩
  load path := fun _ _ _ _ _ => ⟨rfl, rfl⟩

/-! ### Star exports -/

/-- A path in normal form that holds a module names a file. -/
theorem isFile_of_load {p : Path} {scope : Scope} {module : Module}
    (h : ((Project.load p.normalize).inquiry scope).on d = .ok (some module)) :
    d.isFile p.normalize = true := by
  change readModule d p.normalize.normalize = .ok (some module) at h
  rw [Path.normalize_normalize, readModule] at h
  by_contra hfile
  rw [if_neg hfile] at h
  cases h

/-- Star exports are the same with any two amounts of fuel that cannot be used
up below the modules that are being expanded. -/
theorem namesFrom_enough (root : Path) (typesToo : Bool) (fuel fuel' : Nat) (onPath : List Path)
    (names : Names) (path : Path) (hdistinct : onPath.Nodup)
    (hfiles : ∀ key ∈ onPath, (∃ p : Path, key = p.normalize) ∧ d.isFile key = true)
    (hfuel : 4 * d.files.length < onPath.length + fuel)
    (hfuel' : 4 * d.files.length < onPath.length + fuel') :
    (namesFrom (Project.modules root) typesToo fuel onPath names path).Alike d
      (namesFrom (Project.modules root) typesToo fuel' onPath names path) := by
  have hR := alike_congruence d
  have hbound := Disk.keys_bounded d hdistinct hfiles
  induction fuel generalizing fuel' onPath names path with
  | zero => omega
  | succ fuel ih =>
    cases fuel' with
    | zero => omega
    | succ fuel' =>
      unfold namesFrom
      simp only []
      split
      · exact hR.pure names
      next hnew =>
        refine (hR.load _).bind fun found hfound => ?_
        cases found with
        | none => exact hR.pure names
        | some module =>
          -- the module is a file that is not being expanded yet
          obtain ⟨scope, hload⟩ := hfound
          have hdistinct' : (path.normalize :: onPath).Nodup := List.nodup_cons.2 ⟨hnew, hdistinct⟩
          have hfiles' : ∀ key ∈ path.normalize :: onPath,
              (∃ p : Path, key = p.normalize) ∧ d.isFile key = true := by
            intro key hkey
            rcases List.mem_cons.1 hkey with rfl | hkey
            · exact ⟨⟨path, rfl⟩, isFile_of_load hload⟩
            · exact hfiles key hkey
          have hbound' := Disk.keys_bounded d hdistinct' hfiles'
          have hlength : (path.normalize :: onPath).length = onPath.length + 1 := rfl
          refine hR.foldlM _ _ fun names item => ?_
          split
          · exact hR.pure names
          · split
            next source =>
              refine hR.bind (hR.target? _ _ _) fun target => ?_
              cases target with
              | none => exact hR.pure names
              | some target =>
                exact ih fuel' _ names target hdistinct' hfiles' (by omega) (by omega) hbound'
            next => exact hR.pure names
            next => exact hR.pure _

/-- The exported names of a module do not depend on the fuel. -/
theorem exportedNames_alike (path : Path) (typesToo : Bool) :
    (Project.exportedNames path typesToo).Alike d (Project.exportedNames path typesToo) := by
  refine Reading.Alike.scope fun s s' hroot hs hs' => ?_
  rw [← hroot]
  have hnone : ∀ key ∈ ([] : List Path),
      (∃ p : Path, key = p.normalize) ∧ d.isFile key = true := by simp
  refine namesFrom_enough s.root typesToo s.fuel s'.fuel [] .empty path List.nodup_nil hnone ?_ ?_
  · rw [List.length_nil, Nat.zero_add]
    exact hs
  · rw [List.length_nil, Nat.zero_add]
    exact hs'

/-- A reading ends on another disk as on the first one if both give the same answers
to what is asked, whatever fuel each is given. -/
theorem Reading.on_same {d' : Disk} {x : Reading α} (halike : ∀ e, x.Alike e x) {s s' : Scope}
    (hroot : s.root = s'.root) (hs : s.Enough d) (hs' : s'.Enough d')
    (hsame : ∀ q ∈ (x.inquiry s).asked d, q.Same d d') :
    (x.inquiry s').on d' = (x.inquiry s).on d ∧
      (x.inquiry s').asked d' = (x.inquiry s).asked d := by
  -- with as much fuel as both disks need, only the answers matter
  let ample : Scope := ⟨s.root, s.fuel + s'.fuel⟩
  have hample : ample.Enough d := Nat.lt_of_lt_of_le hs (Nat.le_add_right _ _)
  have hample' : ample.Enough d' := Nat.lt_of_lt_of_le hs' (Nat.le_add_left _ _)
  obtain ⟨hon, hasked⟩ := halike d s ample rfl hs hample
  obtain ⟨hon', hasked'⟩ := halike d' ample s' hroot hample' hs'
  rw [hasked] at hsame
  obtain ⟨hboth, haskedBoth⟩ := Inquiry.on_congr hsame
  exact ⟨by rw [← hon', hboth, hon], by rw [← hasked', haskedBoth, hasked]⟩

/-- What a project knows before it reads is enough. -/
theorem Project.scope_enough (d : Disk) (p : Project) : (p.scope d).Enough d := by
  show 4 * d.files.length < 4 * d.files.length + p.known.length + 1
  omega

end ScreenHooks.Sdk
