/-
What an inquiry is told.

A disk alone answers an inquiry, and the questions that are put on the way are
its trace. What a project remembers of a disk changes none of the answers, and
two disks lead to the same end if they agree on the questions that are put on
one of them.

* **`answer_on`** — a project answers as its disk does;
* **`on_congr`** — only the answers to what is asked count;
* **`Strict.error`** — a computation that gives up where a module cannot be
  read.
-/
import ScreenHooks.Sdk.Project

namespace ScreenHooks.Sdk

open Script

theorem exists_ok {ε α : Type} {x : Except ε α} (h : x.isOk = true) : ∃ a, x = .ok a := by
  cases x with
  | ok a => exact ⟨a, rfl⟩
  | error e => cases h

theorem exists_ok_and {ε α : Type} {p : α → Prop} [DecidablePred p] {x : Except ε α}
    (h : x.toOption.any (p ·) = true) : ∃ a, x = .ok a ∧ p a := by
  cases x with
  | ok a => exact ⟨a, rfl, of_decide_eq_true h⟩
  | error e => cases h

theorem exists_error {ε α : Type} {x : Except ε α} (h : x.isOk = false) : ∃ e, x = .error e := by
  cases x with
  | ok a => cases h
  | error e => exact ⟨e, rfl⟩

/-- A question of an inquiry. -/
inductive Question where
  | file (path : Path)
  | module (key : Path)
  deriving DecidableEq

/-- Whether two disks give one answer to a question. -/
def Question.Same (d d' : Disk) : Question → Prop
  | file path => d'.isFile path = d.isFile path
  | module key => readModule d' key = readModule d key

namespace Inquiry

variable {α β : Type} {d d' : Disk}

/-- What an inquiry ends with on a disk. -/
def on (d : Disk) : Inquiry α → α
  | done result => result
  | askFile path next => (next (d.isFile path)).on d
  | askModule key next => (next (readModule d key)).on d

/-- The questions of an inquiry on a disk. -/
def asked (d : Disk) : Inquiry α → List Question
  | done _ => []
  | askFile path next => .file path :: (next (d.isFile path)).asked d
  | askModule key next => .module key :: (next (readModule d key)).asked d

theorem on_bind (x : Inquiry α) (f : α → Inquiry β) : (x >>= f).on d = (f (x.on d)).on d := by
  induction x with
  | done result => rfl
  | askFile path next ih => exact ih _
  | askModule key next ih => exact ih _

theorem asked_bind (x : Inquiry α) (f : α → Inquiry β) :
    (x >>= f).asked d = x.asked d ++ (f (x.on d)).asked d := by
  induction x with
  | done result => rfl
  | askFile path next ih => exact congrArg (.file path :: ·) (ih _)
  | askModule key next ih => exact congrArg (.module key :: ·) (ih _)

/-! ### Two disks -/

/-- Disks that agree on what is asked on one of them lead to the same end, by the
same questions. -/
theorem on_congr {x : Inquiry α} (h : ∀ q ∈ x.asked d, q.Same d d') :
    x.on d' = x.on d ∧ x.asked d' = x.asked d := by
  induction x with
  | done result => exact ⟨rfl, rfl⟩
  | askFile path next ih =>
    have hsame : d'.isFile path = d.isFile path := h _ List.mem_cons_self
    obtain ⟨hon, hasked⟩ := ih (d.isFile path) fun q hq => h q (List.mem_cons_of_mem _ hq)
    rw [on, on, asked, asked, hsame, hon, hasked]
    exact ⟨rfl, rfl⟩
  | askModule key next ih =>
    have hsame : readModule d' key = readModule d key := h _ List.mem_cons_self
    obtain ⟨hon, hasked⟩ := ih (readModule d key) fun q hq => h q (List.mem_cons_of_mem _ hq)
    rw [on, on, asked, asked, hsame, hon, hasked]
    exact ⟨rfl, rfl⟩

/-- The first question that two disks answer differently is put on both. -/
theorem differ_asked {x : Inquiry α} (h : ∃ q ∈ x.asked d, ¬ q.Same d d') :
    ∃ q ∈ x.asked d', q ∈ x.asked d ∧ ¬ q.Same d d' := by
  -- up to that question the inquiry goes the same way on both disks
  induction x with
  | done result =>
    obtain ⟨q, hq, -⟩ := h
    cases hq
  | askFile path next ih =>
    by_cases hsame : d'.isFile path = d.isFile path
    · have hlater : ∃ q ∈ (next (d.isFile path)).asked d, ¬ q.Same d d' := by
        simpa [asked, Question.Same, hsame] using h
      obtain ⟨r, hr, hrd, hdiffer⟩ := ih _ hlater
      refine ⟨r, ?_, List.mem_cons_of_mem _ hrd, hdiffer⟩
      rw [asked, hsame]
      exact List.mem_cons_of_mem _ hr
    · exact ⟨_, List.mem_cons_self, List.mem_cons_self, hsame⟩
  | askModule key next ih =>
    by_cases hsame : readModule d' key = readModule d key
    · have hlater : ∃ q ∈ (next (readModule d key)).asked d, ¬ q.Same d d' := by
        simpa [asked, Question.Same, hsame] using h
      obtain ⟨r, hr, hrd, hdiffer⟩ := ih _ hlater
      refine ⟨r, ?_, List.mem_cons_of_mem _ hrd, hdiffer⟩
      rw [asked, hsame]
      exact List.mem_cons_of_mem _ hr
    · exact ⟨_, List.mem_cons_self, List.mem_cons_self, hsame⟩

/-! ### Memory -/

/-- Whether what a project remembers is what a disk holds. -/
def Sound (d : Disk) (p : Project) : Prop :=
  ∀ key found, p.known.lookup key = some found → readModule d key = .ok found

/-- A project remembers what it has read. -/
theorem Sound.put {p : Project} (hp : Sound d p) {key : Path} {found : Option Module}
    (hread : readModule d key = .ok found) :
    Sound d { p with known := Table.put p.known key found } := by
  intro other value hvalue
  by_cases hother : other = key
  · subst hother
    rw [Table.lookup_put] at hvalue
    rw [hread, Option.some.inj hvalue]
  · rw [Table.lookup_put_of_ne _ _ hother] at hvalue
    exact hp other value hvalue

/-- A project that remembers what the disk holds answers as the disk does. -/
theorem answer_on {x : Inquiry α} {p : Project} (hp : Sound d p) :
    (x.answer d p).1 = x.on d ∧ Sound d (x.answer d p).2 ∧ (x.answer d p).2.root = p.root := by
  induction x generalizing p with
  | done result => exact ⟨rfl, hp, rfl⟩
  | askFile path next ih => exact ih _ hp
  | askModule key next ih =>
    rw [answer, on]
    cases hknown : p.known.lookup key with
    | some found =>
      rw [hp key found hknown]
      exact ih _ hp
    | none =>
      cases hread : readModule d key with
      | error e => exact ih _ hp
      | ok found => exact ih _ (hp.put hread)

theorem answer_bind (x : Inquiry α) (f : α → Inquiry β) (p : Project) :
    (x >>= f).answer d p = (f (x.answer d p).1).answer d (x.answer d p).2 := by
  induction x generalizing p with
  | done result => rfl
  | askFile path next ih => exact ih _ p
  | askModule key next ih =>
    show ((Inquiry.askModule key next).bind f).answer d p = _
    rw [Inquiry.bind, answer, answer]
    cases p.known.lookup key with
    | some found => exact ih _ p
    | none =>
      cases readModule d key with
      | ok found => exact ih _ _
      | error e => exact ih _ p

/-- What is remembered afterwards was remembered before or has been asked. -/
theorem known_of_answer {x : Inquiry α} {p : Project} (hp : Sound d p) {key : Path}
    {found : Option Module} (h : (x.answer d p).2.known.lookup key = some found) :
    p.known.lookup key = some found ∨ .module key ∈ x.asked d := by
  induction x generalizing p with
  | done result => exact .inl h
  | askFile path next ih =>
    rcases ih _ hp h with h | h
    · exact .inl h
    · exact .inr (List.mem_cons_of_mem _ h)
  | askModule asked next ih =>
    rw [answer] at h
    rw [Inquiry.asked]
    cases hknown : p.known.lookup asked with
    | some found =>
      rw [hknown] at h
      rw [hp asked found hknown]
      rcases ih _ hp h with h | h
      · exact .inl h
      · exact .inr (List.mem_cons_of_mem _ h)
    | none =>
      rw [hknown] at h
      cases hread : readModule d asked with
      | error e =>
        rw [hread] at h
        rcases ih _ hp h with h | h
        · exact .inl h
        · exact .inr (List.mem_cons_of_mem _ h)
      | ok value =>
        rw [hread] at h
        -- what has just been read is remembered, and was asked for
        by_cases hkey : key = asked
        · subst hkey
          exact .inr List.mem_cons_self
        · rcases ih _ (hp.put hread) h with h | h
          · rw [Table.lookup_put_of_ne _ _ hkey] at h
            exact .inl h
          · exact .inr (List.mem_cons_of_mem _ h)

/-! ### Giving up -/

/-- Whether an inquiry ends with the error as soon as a module cannot be read. -/
inductive Strict : Inquiry (Except Failure α) → Prop where
  | done (result : Except Failure α) : Strict (done result)
  | askFile (path : Path) (next : Bool → Inquiry (Except Failure α))
      (hnext : ∀ found, Strict (next found)) : Strict (askFile path next)
  | askModule (key : Path) (next : Except Failure (Option Module) → Inquiry (Except Failure α))
      (hnext : ∀ found, Strict (next (.ok found)))
      (herror : ∀ e, next (.error e) = .done (.error e)) : Strict (askModule key next)

/-- A strict inquiry ends with an error if a module that it asks for cannot be
read. -/
theorem Strict.error {x : Inquiry (Except Failure α)} (hx : Strict x)
    (h : ∃ key e, .module key ∈ x.asked d ∧ readModule d key = .error e) :
    ∃ e, x.on d = .error e := by
  obtain ⟨key, e, hkey, hread⟩ := h
  induction hx with
  | done result => cases hkey
  | askFile path next _ ih =>
    rcases List.mem_cons.1 hkey with heq | hkey
    · cases heq
    · exact ih _ hkey
  | askModule other next _ herror ih =>
    rw [on]
    cases hother : readModule d other with
    | error e' => exact ⟨e', by rw [herror]; rfl⟩
    | ok found =>
      rw [asked, hother] at hkey
      rcases List.mem_cons.1 hkey with heq | hkey
      · cases heq
        rw [hread] at hother
        cases hother
      · exact ih found hkey

end Inquiry

end ScreenHooks.Sdk
