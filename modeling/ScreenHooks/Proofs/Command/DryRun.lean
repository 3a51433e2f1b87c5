/-
Dry runs.

Wherever the flag of a dry run stands in a command line, the command that is started knows
of it, unless the flag is an operand: then the command is one on names, and writes nothing
anyway. Each of the other commands asks for the flag before its first change of the disk,
or writes with a writer that does.

* **`Invocation.dryRun_of_read`** — the flag reaches the command;
* **`Invocation.keeps_of_dry`** — a command that knows of it keeps the disk;
* **`run_dry`** — a command line with the flag keeps the disk.
-/
import ScreenHooks.Command.Execute
import ScreenHooks.Proofs.Command.Arguments
import ScreenHooks.Proofs.Run.Passage

namespace ScreenHooks

open Disk

/-! ### Changes that keep the disk -/

/-- Whether a change leaves every disk as it was. -/
def Disk.Keeps {ε α : Type} (x : Change ε α) : Prop := ∀ d, (x.apply d).2 = d

namespace Disk.Keeps

variable {ε α β : Type}

theorem pure (a : α) : Keeps (Pure.pure a : Change ε α) := fun _ => rfl

theorem throw (e : ε) : Keeps (MonadExcept.throw e : Change ε α) := fun _ => rfl

theorem get : Keeps (MonadState.get : Change ε Disk) := fun _ => rfl

theorem outcome (x : Except ε α) : Keeps (Disk.outcome x) := fun _ => rfl

theorem bind {x : Change ε α} {f : α → Change ε β} (hx : Keeps x) (hf : ∀ a, Keeps (f a)) :
    Keeps (x >>= f) := by
  intro d
  have hfirst := hx d
  rw [apply_bind]
  generalize x.apply d = result at hfirst ⊢
  obtain ⟨_ | a, after⟩ := result
  · exact hfirst
  · exact (hf a after).trans hfirst

end Disk.Keeps

namespace Run.Generator

open Output

/-- A dry run of the generator keeps the disk. -/
theorem run_disk_of_dry (g : Generator) {options : Options} (hdry : options.dryRun = true)
    (d : Disk) : (g.run options d).disk = d :=
  ((g.run_trail options d).of_dry fun t ht => by rw [Plan.writer_eq ht]; exact hdry).1

end Run.Generator

namespace Command

open Output Run

/-! ### The flag -/

theorem ofText_dryRun : Argument.ofText "--dry-run" = .long "dry-run" none := by rfl

/-- A command takes no words of other commands, and knows the flag of a dry run. -/
theorem Name.level_dryRun (name : Name) :
    (Name.level name).commands = [] ∧ "dry-run" ∈ (Name.level name).flags := by
  cases name <;> exact ⟨rfl, by decide⟩

/-- An operand that is spelled like the flag is a name for the commands on names; no other
command starts with it. -/
theorem Name.request_operand {name : Name} {given : Given} {request : Request}
    (h : name.request? given = some request) (hoperand : "--dry-run" ∈ given.operands)
    (hlimit : ∀ limit, (Name.level name).limit = some limit → given.operands.length ≤ limit) :
    ∃ names, request = .kebab names ∨ request = .pascal names := by
  have hsome : given.operands.length ≠ 0 := by
    intro hnone
    rw [List.length_eq_zero_iff.1 hnone] at hoperand
    cases hoperand
  cases name with
  | generate => exact absurd (Nat.le_zero.1 (hlimit 0 rfl)) hsome
  | discover => exact absurd (Nat.le_zero.1 (hlimit 0 rfl)) hsome
  | init => exact absurd (Nat.le_zero.1 (hlimit 0 rfl)) hsome
  | kebab =>
    simp only [Name.request?] at h
    split at h
    · cases h
    · exact ⟨_, .inl (Option.some.inj h).symm⟩
  | pascal =>
    simp only [Name.request?] at h
    split at h
    · cases h
    · exact ⟨_, .inr (Option.some.inj h).symm⟩
  | completions =>
    simp only [Name.request?] at h
    split at h
    next word hword =>
      -- the flag is the name of no shell
      rw [hword, List.mem_singleton] at hoperand
      have hshell : Shell.ofText? word = none := by
        rw [← hoperand]
        decide
      rw [hshell] at h
      split at h <;> cases h
    next => cases h

/-- The flag reaches the command, unless it is an operand of a command on names. -/
theorem Invocation.dryRun_of_read {arguments : List String} {invocation : Invocation}
    (h : Invocation.read arguments = .ok invocation) (hflag : "--dry-run" ∈ arguments) :
    invocation.globals.dryRun = true ∨
      ∃ names, invocation.request = .kebab names ∨ invocation.request = .pascal names := by
  obtain ⟨outer, word, rest, name, inner, descent, houter, hinner, hrequest, hglobals⟩ :=
    Invocation.read_ok h
  obtain ⟨hcommands, hknown⟩ := Name.level_dryRun name
  have hglobal : invocation.globals.dryRun = (outer.has "dry-run" || inner.has "dry-run") := by
    rw [hglobals]
    rfl
  have hnoOperand : outer.operands = [] := by
    have hlimit : topLevel.limit = some 0 := rfl
    have hlength := houter.length_operands hlimit (Nat.le_refl 0)
    exact List.length_eq_zero_iff.1 (Nat.le_zero.1 hlength)
  -- the first level takes the flag or leaves it for the command
  rcases houter.noted ofText_dryRun (by decide) (by decide) (.inr hflag) with
    (hhas | hoperand) | ⟨word, after, hdescent, hafter⟩
  · exact .inl (by rw [hglobal, hhas]; rfl)
  · rw [hnoOperand] at hoperand
    cases hoperand
  · cases hdescent
    rcases hinner.noted ofText_dryRun hknown (by rw [hcommands]; exact List.not_mem_nil)
      (.inr hafter) with (hhas | hoperand) | ⟨word, after, hdescent, -⟩
    · exact .inl (by rw [hglobal, hhas, Bool.or_true])
    -- only a command on names takes operands, and the flag may be one of them
    · refine .inr (Name.request_operand hrequest hoperand fun limit hlimit => ?_)
      exact hinner.length_operands hlimit (Nat.zero_le _)
    · have hword := hinner.word_mem hdescent
      rw [hcommands] at hword
      cases hword

/-! ### The commands -/

theorem keeps_effectiveConfig (environment : Environment) (globals : Globals)
    (core out : Option Path) : Keeps (effectiveConfig environment globals core out) :=
  .bind .get fun _ => .bind (.outcome _) fun _ => .pure _

theorem keeps_openGenerator (environment : Environment) (globals : Globals)
    (core out : Option Path) : Keeps (openGenerator environment globals core out) :=
  .bind (keeps_effectiveConfig environment globals core out) fun _ =>
    .bind .get fun _ => .outcome _

theorem keeps_generate (environment : Environment) {globals : Globals}
    (hdry : globals.dryRun = true) (core out : Option Path) (noExamples json : Bool) :
    Keeps (generate environment globals core out noExamples json) := by
  refine .bind (keeps_openGenerator environment globals core out) fun g d => ?_
  rw [apply_bind, apply_get]
  dsimp only
  rw [apply_bind, apply_set, g.run_disk_of_dry hdry]
  exact Keeps.bind (.outcome _) (fun _ => .pure _) d

theorem keeps_discover (environment : Environment) (globals : Globals) (core : Option Path)
    (json : Bool) : Keeps (discover environment globals core json) :=
  .bind (keeps_openGenerator environment globals core none) fun _ =>
    .bind .get fun _ => .bind (.outcome _) fun _ => .pure _

theorem keeps_kebab (environment : Environment) (globals : Globals) (names : List String) :
    Keeps (kebab environment globals names) :=
  .bind (keeps_effectiveConfig environment globals none none) fun _ => .pure _

theorem keeps_init {globals : Globals} (hdry : globals.dryRun = true) (directory : Path)
    (force : Bool) : Keeps (init globals directory force) := by
  unfold init
  refine .bind .get fun d => ?_
  simp only [hdry, if_true]
  split
  · exact .bind (.throw _) fun _ => .pure _
  · exact .pure _

theorem keeps_completions {globals : Globals} (hdry : globals.dryRun = true) (shell : Shell)
    (directory : Option Path) (print : Bool) :
    Keeps (completions globals shell directory print) := by
  unfold completions
  simp only [hdry, if_true]
  split
  · exact .pure _
  · split
    · exact .throw _
    · exact .pure _

/-- A command that knows of a dry run keeps the disk, and so do the commands on names. -/
theorem Invocation.keeps_of_dry (environment : Environment) {invocation : Invocation}
    (h : invocation.globals.dryRun = true ∨
      ∃ names, invocation.request = .kebab names ∨ invocation.request = .pascal names) :
    Keeps (invocation.execute environment) := by
  obtain ⟨globals, request⟩ := invocation
  cases request with
  | kebab names => exact keeps_kebab environment globals names
  | pascal names => exact .pure _
  | discover core json => exact keeps_discover environment globals core json
  | generate core out noExamples json =>
    obtain hdry | ⟨names, hnames | hnames⟩ := h
    · exact keeps_generate environment hdry core out noExamples json
    · cases hnames
    · cases hnames
  | init directory force =>
    obtain hdry | ⟨names, hnames | hnames⟩ := h
    · exact keeps_init hdry directory force
    · cases hnames
    · cases hnames
  | completions shell directory print =>
    obtain hdry | ⟨names, hnames | hnames⟩ := h
    · exact keeps_completions hdry shell directory print
    · cases hnames
    · cases hnames

/-! ### The program -/

/-- A command line with the flag of a dry run leaves everything as it was, whether it succeeds
or not. -/
theorem run_dry (environment : Environment) (arguments : List String) (d : Disk)
    (h : "--dry-run" ∈ arguments) : (run environment arguments d).disk = d := by
  cases hread : Invocation.read arguments with
  | error stop => exact run_stop environment arguments d stop hread
  | ok invocation =>
    have hkeeps := Invocation.keeps_of_dry environment (Invocation.dryRun_of_read hread h) d
    unfold run
    rw [hread]
    dsimp only
    generalize (invocation.execute environment).apply d = result at hkeeps ⊢
    obtain ⟨_ | printed, after⟩ := result
    · exact hkeeps
    · exact hkeeps

/-- Without the flag the command replaces the configuration file; with the flag it says so and
leaves the file. -/
theorem run_dry_init : "--dry-run" ∈ ["--quiet", "init", "--dry-run", "--force"] ∧
    (let d : Disk := { entries := [(["hookgen.toml"], .file (.text "old"))] };
      (run [] ["--quiet", "init", "--dry-run", "--force"] d).disk = d ∧
        (run [] ["--quiet", "init", "--force"] d).disk.readText ⟨"hookgen.toml"⟩ ≠ .ok "old") :=
  ⟨by decide, run_dry _ _ _ (by decide), by decide +kernel⟩

end Command

end ScreenHooks
