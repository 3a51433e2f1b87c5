/-
Authored companions under any sequence of writes and runs.

A file that an author has taken over, and that is only ever written as a
companion, keeps its text and is reported as preserved as long as every write
that succeeds reaches it through directories that are there. A write through a
directory that is still missing takes the file for absent: it makes the
directory and then writes over the file.

* **`write_authored`** — one write that reaches an authored companion;
* **`authored_kept_iff`** — any sequence of writes and runs;
* **`authored_lost`** — the loss through a missing directory.
-/
import ScreenHooks.Proofs.Run.Passage

namespace ScreenHooks.Run

open Disk Output

/-! ### Steps -/

/-- A single write, or a whole run. -/
inductive Step where
  | write (w : Writer) (artifact : Artifact)
  | run (g : Generator) (options : Options)

namespace Step

/-- The marker by which a step knows placeholders. -/
def sentinel : Step → String
  | write w _ => w.sentinel
  | run g _ => g.config.generation.sentinel

/-- The disk after a step. -/
def after : Step → Disk → Disk
  | write w artifact, d => ((w.write artifact).apply d).2
  | run g options, d => (g.run options d).disk

/-- What a step tries to write. -/
def attempts : Step → Disk → List Attempt
  | write w artifact, d => [⟨w, d, artifact, ((w.write artifact).apply d).1⟩]
  | run g options, d => g.attempts options d

end Step

/-- The disk after a sequence of steps. -/
def afterAll (steps : List Step) (d : Disk) : Disk := steps.foldl (fun d step => step.after d) d

/-- What a sequence of steps tries to write. -/
def history : List Step → Disk → List Attempt
  | [], _ => []
  | step :: rest, d => step.attempts d ++ history rest (step.after d)

theorem afterAll_cons (step : Step) (rest : List Step) (d : Disk) :
    afterAll (step :: rest) d = afterAll rest (step.after d) := List.foldl_cons

theorem history_cons (step : Step) (rest : List Step) (d : Disk) :
    history (step :: rest) d = step.attempts d ++ history rest (step.after d) := rfl

/-! ### Authored files -/

/-- Whether a file with the given contents belongs to its authors. -/
def Authored (sentinel : String) : Contents → Prop
  | .text text => Text.contains text sentinel = false
  | .binary _ => True

instance (sentinel : String) (contents : Contents) : Decidable (Authored sentinel contents) :=
  match contents with
  | .text _ => inferInstanceAs (Decidable (_ = _))
  | .binary _ => isTrue trivial

/-- Whether an attempt spares the authored file at its place: it reports it as
preserved, or cannot read it, or its path does not lead to it. -/
def Spares (contents : Contents) (t : Attempt) : Prop :=
  (t.before.Reaches t.target → t.outcome = match contents with
    | .text _ => .ok .preserved
    | .binary _ => .error ⟨.readFile, t.target, .notText⟩) ∧
  (¬ t.before.Reaches t.target → ∃ e, t.outcome = .error e)

/-- A companion write that succeeds only where it reaches an authored file
spares that file. -/
theorem write_authored {w : Writer} {a : Artifact} {d : Disk} {contents : Contents}
    (hfile : d.at? (d.spot (w.target a)) = some (.file contents))
    (hauthored : Authored w.sentinel contents) (hpolicy : a.policy = .ifPlaceholder)
    (hreach : (∃ o, ((w.write a).apply d).1 = .ok o) → d.Reaches (w.target a)) :
    ((w.write a).apply d).2.at? (d.spot (w.target a)) = some (.file contents) ∧
      Spares contents ⟨w, d, a, ((w.write a).apply d).1⟩ := by
  have heffect := write_effect w a d
  by_cases hreaches : d.Reaches (w.target a)
  · have hread := readText_of_reaches hreaches
    rw [hfile] at hread
    cases contents with
    | binary bytes =>
      have herror : d.readIfExists (w.target a) = .error ⟨.readFile, w.target a, .notText⟩ := by
        rw [readIfExists, hread]
      have hwrite : (w.write a).apply d = (.error ⟨.readFile, w.target a, .notText⟩, d) := by
        generalize (w.write a).apply d = r at heffect
        cases heffect with
        | unread e he =>
          rw [herror] at he
          rw [← Except.error.inj he]
        | kept _ he => rw [herror] at he; cases he
        | failed _ he => rw [herror] at he; cases he
        | replaced _ he => rw [herror] at he; cases he
      rw [hwrite]
      exact ⟨hfile, fun _ => rfl, fun h => absurd hreaches h⟩
    | text text =>
      have hfound : d.readIfExists (w.target a) = .ok (some text) := by
        rw [readIfExists, hread]
      have houtcome := Writer.outcome_preserved w a text hpolicy hauthored
      have hwrite : (w.write a).apply d = (.ok .preserved, d) := by
        generalize (w.write a).apply d = r at heffect
        cases heffect with
        | unread e he => rw [hfound] at he; cases he
        | kept existing he =>
          rw [hfound] at he
          rw [← Except.ok.inj he, houtcome]
        | failed existing he hchanges =>
          rw [hfound] at he
          rw [← Except.ok.inj he, houtcome] at hchanges
          cases hchanges
        | replaced existing he hchanges =>
          rw [hfound] at he
          rw [← Except.ok.inj he, houtcome] at hchanges
          cases hchanges
      rw [hwrite]
      exact ⟨hfile, fun _ => rfl, fun h => absurd hreaches h⟩
  · -- such a write fails, and a write that fails leaves files alone
    cases houtcome : ((w.write a).apply d).1 with
    | ok o => exact absurd (hreach ⟨o, houtcome⟩) hreaches
    | error e =>
      refine ⟨(heffect.paved_of_error houtcome).keeps hfile, fun h => absurd h hreaches, fun _ => ?_⟩
      exact ⟨e, rfl⟩

/-- Whether every attempt at a place that succeeds reaches it. -/
def Direct (place : Place) (attempts : List Attempt) : Prop :=
  ∀ t ∈ attempts, t.spot = place → t.Succeeds → t.before.Reaches t.target

/-- Whether a place is only ever written as a companion. -/
def OnlyCompanions (place : Place) (attempts : List Attempt) : Prop :=
  ∀ t ∈ attempts, t.spot = place → t.artifact.policy = .ifPlaceholder

instance (place : Place) (attempts : List Attempt) : Decidable (OnlyCompanions place attempts) :=
  inferInstanceAs (Decidable (∀ t ∈ attempts, t.spot = place → t.artifact.policy = .ifPlaceholder))

/-- Attempts in turn keep an authored companion if they reach it. -/
theorem trail_authored {d last : Disk} {ts : List Attempt} (h : Trail d ts last)
    {sentinel : String} {place : Place} {contents : Contents}
    (hsentinel : ∀ t ∈ ts, t.writer.sentinel = sentinel)
    (hfile : d.at? place = some (.file contents)) (hauthored : Authored sentinel contents)
    (hcompanion : OnlyCompanions place ts) (hdirect : Direct place ts) :
    last.at? place = some (.file contents) ∧ ∀ t ∈ ts, t.spot = place → Spares contents t := by
  induction h with
  | nil => exact ⟨hfile, by simp⟩
  | cons w a d last rest hrest ih =>
    -- the invariant: the file is where it was
    have hone : ((w.write a).apply d).2.at? place = some (.file contents) ∧
        (d.spot (w.target a) = place → Spares contents ⟨w, d, a, ((w.write a).apply d).1⟩) := by
      by_cases hspot : d.spot (w.target a) = place
      · have hw : w.sentinel = sentinel := hsentinel _ List.mem_cons_self
        have hpolicy := hcompanion _ List.mem_cons_self hspot
        have hreach := hdirect _ List.mem_cons_self hspot
        rw [← hspot] at hfile ⊢
        obtain ⟨hkept, hspares⟩ := write_authored hfile (hw ▸ hauthored) hpolicy hreach
        exact ⟨hkept, fun _ => hspares⟩
      · exact ⟨((write_effect w a d).file_elsewhere (Ne.symm hspot)).2 hfile,
          fun h => absurd h hspot⟩
    obtain ⟨hlast, hspares⟩ := ih (fun t ht => hsentinel t (List.mem_cons_of_mem _ ht)) hone.1
      (fun t ht => hcompanion t (List.mem_cons_of_mem _ ht))
      fun t ht => hdirect t (List.mem_cons_of_mem _ ht)
    refine ⟨hlast, fun t ht => ?_⟩
    rcases List.mem_cons.1 ht with rfl | ht
    · exact hone.2
    · exact hspares t ht

/-- The attempts of a step follow each other. -/
theorem Step.trail (step : Step) (d : Disk) : Trail d (step.attempts d) (step.after d) := by
  cases step with
  | write w artifact => exact .cons w artifact d _ [] (.nil _)
  | run g options => exact g.run_trail options d

theorem Step.writer_sentinel {step : Step} {d : Disk} {t : Attempt} (h : t ∈ step.attempts d) :
    t.writer.sentinel = step.sentinel := by
  cases step with
  | write w artifact =>
    rw [List.mem_singleton.1 h]
    rfl
  | run g options =>
    rw [Plan.writer_eq h]
    rfl

/-- Over any sequence of steps that writes an authored file as a companion only,
the file keeps its contents and every attempt spares it, exactly if the attempts
that succeed reach the file through directories that are there. -/
theorem authored_kept_iff {sentinel : String} {place : Place} {contents : Contents} {d : Disk}
    {steps : List Step} (hsentinel : ∀ step ∈ steps, step.sentinel = sentinel)
    (hfile : d.at? place = some (.file contents)) (hauthored : Authored sentinel contents)
    (hcompanion : OnlyCompanions place (history steps d)) :
    ((∀ n, (afterAll (steps.take n) d).at? place = some (.file contents)) ∧
        ∀ t ∈ history steps d, t.spot = place → Spares contents t) ↔
      Direct place (history steps d) := by
  constructor
  · rintro ⟨-, hspares⟩ t ht hspot ⟨o, ho⟩
    by_contra hreach
    obtain ⟨e, he⟩ := (hspares t ht hspot).2 hreach
    rw [ho] at he
    cases he
  · intro hdirect
    induction steps generalizing d with
    | nil => exact ⟨fun n => by rw [List.take_nil]; exact hfile, by simp [history]⟩
    | cons step rest ih =>
      rw [history_cons] at hcompanion hdirect ⊢
      have hfirst : ∀ t ∈ step.attempts d, t.writer.sentinel = sentinel := fun t ht =>
        (Step.writer_sentinel ht).trans (hsentinel step List.mem_cons_self)
      -- the file is still the authored one when the other steps begin
      obtain ⟨hafter, hspares⟩ := trail_authored (step.trail d) hfirst hfile hauthored
        (fun t ht => hcompanion t (List.mem_append_left _ ht))
        fun t ht => hdirect t (List.mem_append_left _ ht)
      obtain ⟨hkept, hrest⟩ := ih (fun s hs => hsentinel s (List.mem_cons_of_mem _ hs)) hafter
        (fun t ht => hcompanion t (List.mem_append_right _ ht))
        fun t ht => hdirect t (List.mem_append_right _ ht)
      refine ⟨fun n => ?_, fun t ht => ?_⟩
      · cases n with
        | zero => exact hfile
        | succ n =>
          rw [List.take_succ_cons, afterAll_cons]
          exact hkept n
      · rcases List.mem_append.1 ht with ht | ht
        · exact hspares t ht
        · exact hrest t ht

/-- A disk with one authored module. -/
def authoredDisk : Disk :=
  { entries := [(["out"], .directory),
      (["out", "common.ts"], .file (.text "export const mine = 1;\n"))] }

/-- The write of a placeholder for that module, below the given root. -/
def placeholderStep (root : String) : Step :=
  .write ⟨⟨root⟩, "@hookgen-placeholder", false⟩
    (.companion ⟨"common.ts"⟩ "// @hookgen-placeholder\n")

theorem authored_kept_twice :
    ((∀ n, (afterAll ([placeholderStep "out", placeholderStep "./out/"].take n) authoredDisk).at?
        ["out", "common.ts"] = some (.file (.text "export const mine = 1;\n"))) ∧
      ∀ t ∈ history [placeholderStep "out", placeholderStep "./out/"] authoredDisk,
        t.spot = ["out", "common.ts"] → Spares (.text "export const mine = 1;\n") t) ↔
      Direct ["out", "common.ts"]
        (history [placeholderStep "out", placeholderStep "./out/"] authoredDisk) := by
  have hsentinel : ∀ step ∈ [placeholderStep "out", placeholderStep "./out/"],
      step.sentinel = "@hookgen-placeholder" := by decide
  exact authored_kept_iff hsentinel (by decide) (by decide +kernel) (by decide +kernel)

/-- The second write goes through a directory that is missing, takes the module
for absent, and writes over it. -/
theorem authored_lost :
    (∀ step ∈ [placeholderStep "out", placeholderStep "new/../out"],
      step.sentinel = "@hookgen-placeholder") ∧
    Authored "@hookgen-placeholder" (.text "export const mine = 1;\n") ∧
    OnlyCompanions ["out", "common.ts"]
      (history [placeholderStep "out", placeholderStep "new/../out"] authoredDisk) ∧
    (afterAll [placeholderStep "out"] authoredDisk).at? ["out", "common.ts"] =
      some (.file (.text "export const mine = 1;\n")) ∧
    (afterAll [placeholderStep "out", placeholderStep "new/../out"] authoredDisk).at?
      ["out", "common.ts"] = some (.file (.text "// @hookgen-placeholder\n")) := by
  decide +kernel

end ScreenHooks.Run
