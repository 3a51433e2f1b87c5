/-
What a reading ends with on a disk.

A reading that is put together from others ends with what its parts end with in
turn; a project that remembers nothing wrong ends its readings so, too.

* **`Reading.on_bind`** — readings in sequence;
* **`on_load`**, **`on_target?`** — the basic readings;
* **`run_eq`** — readings of a project;
* **`readModule_of_text`** — modules that can be read.
-/
import ScreenHooks.Proofs.Path.Normal
import ScreenHooks.Proofs.Sdk.Readings

namespace ScreenHooks.Sdk

open Script

variable {α β : Type} {d : Disk} {scope : Scope}

/-- What a reading ends with on a disk. -/
def Reading.on (d : Disk) (scope : Scope) (x : Reading α) : Except Failure α :=
  (x.inquiry scope).on d

namespace Reading

theorem on_bind {x : Reading α} {a : α} (h : x.on d scope = .ok a) (f : α → Reading β) :
    (x >>= f).on d scope = (f a).on d scope := by
  unfold on at h ⊢
  rw [inquiry_bind, Inquiry.on_bind, h]

theorem on_bind_error {x : Reading α} {e : Failure} (h : x.on d scope = .error e)
    (f : α → Reading β) : (x >>= f).on d scope = .error e := by
  unfold on at h ⊢
  rw [inquiry_bind, Inquiry.on_bind, h]
  rfl

theorem on_bind_ok {x : Reading α} {f : α → Reading β} {b : β} :
    (x >>= f).on d scope = .ok b ↔ ∃ a, x.on d scope = .ok a ∧ (f a).on d scope = .ok b := by
  cases hx : x.on d scope with
  | ok a => simp [on_bind hx]
  | error e => simp [on_bind_error hx]

theorem on_read (f : Scope → Reading β) :
    (read >>= f : Reading β).on d scope = (f scope).on d scope := rfl

/-- The first of a list for which a reading holds. -/
theorem on_findM? {q : α → Reading Bool} {holds : α → Bool}
    (h : ∀ a, (q a).on d scope = .ok (holds a)) (l : List α) :
    (l.findM? q).on d scope = .ok (l.find? holds) := by
  induction l with
  | nil => rfl
  | cons a rest ih =>
    rw [List.findM?, on_bind (h a), List.find?]
    cases holds a with
    | true => rfl
    | false => exact ih

/-- What is made of the items of a list, of those of which something is made. -/
theorem mem_filterMapM_iff {f : α → Reading (Option β)} {l : List α} {found : List β}
    (h : (l.filterMapM f).on d scope = .ok found) {b : β} :
    b ∈ found ↔ ∃ a ∈ l, (f a).on d scope = .ok (some b) := by
  induction l generalizing found with
  | nil =>
    rw [← Except.ok.inj h]
    simp
  | cons a rest ih =>
    rw [List.filterMapM_cons] at h
    obtain ⟨first, hfirst, h⟩ := on_bind_ok.1 h
    cases first with
    | none => simp [ih h, hfirst]
    | some c =>
      obtain ⟨more, hmore, h⟩ := on_bind_ok.1 h
      rw [← Except.ok.inj h]
      simp [ih hmore, hfirst, eq_comm]

/-- Steps that end alike can replace each other. -/
theorem on_foldlM_congr {f g : β → α → Reading β} {l : List α} (init : β)
    (h : ∀ acc, ∀ a ∈ l, (f acc a).on d scope = (g acc a).on d scope) :
    (l.foldlM f init).on d scope = (l.foldlM g init).on d scope := by
  induction l generalizing init with
  | nil => rfl
  | cons a rest ih =>
    have hfirst := h init a List.mem_cons_self
    rw [List.foldlM_cons, List.foldlM_cons]
    cases hf : (f init a).on d scope with
    | error e => rw [on_bind_error hf, on_bind_error (hfirst ▸ hf)]
    | ok acc =>
      rw [on_bind hf, on_bind (hfirst ▸ hf)]
      exact ih acc fun acc b hb => h acc b (List.mem_cons_of_mem _ hb)

/-- Steps that change nothing. -/
theorem on_foldlM_fixed {f : β → α → Reading β} {l : List α} {init : β}
    (h : ∀ a ∈ l, (f init a).on d scope = .ok init) : (l.foldlM f init).on d scope = .ok init := by
  induction l with
  | nil => rfl
  | cons a rest ih =>
    rw [List.foldlM_cons, on_bind (h a List.mem_cons_self)]
    exact ih fun b hb => h b (List.mem_cons_of_mem _ hb)

/-- A project that remembers what the disk holds ends a reading as the disk does. -/
theorem run_eq {p : Project} (hp : Inquiry.Sound d p) (x : Reading α) :
    (x.run d p).1 = x.on d (p.scope d) := (Inquiry.answer_on hp).1

end Reading

/-! ### Failures -/

/-- Whether a reading ends with an outcome, or as the reading of a module that
failed. -/
def Reading.Ends (d : Disk) (scope : Scope) (x : Reading α) : Prop :=
  (∃ a, x.on d scope = .ok a) ∨ ∃ key e, readModule d key = .error e ∧ x.on d scope = .error e

theorem Reading.Ends.pure (a : α) : (Pure.pure a : Reading α).Ends d scope := .inl ⟨a, rfl⟩

theorem Reading.Ends.bind {x : Reading α} {f : α → Reading β} (hx : x.Ends d scope)
    (hf : ∀ a, (f a).Ends d scope) : (x >>= f).Ends d scope := by
  rcases hx with ⟨a, ha⟩ | ⟨key, e, hread, he⟩
  · unfold Reading.Ends
    rw [Reading.on_bind ha]
    exact hf a
  · exact .inr ⟨key, e, hread, Reading.on_bind_error he f⟩

theorem Reading.Ends.foldlM {f : β → α → Reading β} (l : List α) (init : β)
    (h : ∀ acc a, (f acc a).Ends d scope) : (l.foldlM f init).Ends d scope := by
  induction l generalizing init with
  | nil => exact .pure init
  | cons a rest ih =>
    rw [List.foldlM_cons]
    exact (h init a).bind ih

theorem Reading.Ends.filterMapM {f : α → Reading (Option β)} (l : List α)
    (h : ∀ a, (f a).Ends d scope) : (l.filterMapM f).Ends d scope := by
  induction l with
  | nil => exact .pure []
  | cons a rest ih =>
    rw [List.filterMapM_cons]
    refine (h a).bind fun found => ?_
    cases found with
    | none => exact ih
    | some b => exact ih.bind fun more => .pure (b :: more)

/-- Where all modules can be read, a reading of this kind does not fail. -/
theorem Reading.Ends.ok {x : Reading α} (h : x.Ends d scope)
    (hreadable : ∀ key, ∃ found, readModule d key = .ok found) : ∃ a, x.on d scope = .ok a := by
  rcases h with hok | ⟨key, e, hread, -⟩
  · exact hok
  · obtain ⟨found, hfound⟩ := hreadable key
    rw [hread] at hfound
    cases hfound

/-! ### Modules and specifiers -/

theorem on_load (path : Path) : (Project.load path).on d scope = readModule d path.normalize := rfl

theorem on_target? (p : Project) (importer : Path) (specifier : String) :
    ((Project.modules p.root).target? importer specifier).on d scope =
      .ok (p.specifier? d importer specifier) :=
  Reading.on_findM? (fun _ => rfl) _

theorem ends_load (path : Path) : (Project.load path).Ends d scope := by
  cases hread : readModule d path.normalize with
  | ok found => exact .inl ⟨found, (on_load path).trans hread⟩
  | error e => exact .inr ⟨_, e, hread, (on_load path).trans hread⟩

theorem ends_target? (p : Project) (importer : Path) (specifier : String) :
    ((Project.modules p.root).target? importer specifier).Ends d scope :=
  .inl ⟨_, on_target? p importer specifier⟩

/-- Modules can be read where all files hold text. -/
theorem readModule_of_text (h : ∀ file ∈ d.files, ∃ text, file.2 = .text text) (key : Path) :
    ∃ found, readModule d key = .ok found := by
  rw [readModule]
  by_cases hfile : d.isFile key = true
  · rw [if_pos hfile]
    obtain ⟨hvalid, hdirs, contents, hat⟩ := Disk.isFile_iff.1 hfile
    obtain ⟨text, rfl⟩ := h _ (Disk.mem_files hat)
    rw [Disk.readText_ok_iff.2 ⟨hvalid, hdirs, hat⟩]
    exact ⟨_, rfl⟩
  · rw [if_neg hfile]
    exact ⟨none, rfl⟩

end ScreenHooks.Sdk
