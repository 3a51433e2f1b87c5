/-
Where the arguments of a command line go.

A level that is read to its end has taken every argument before that end: as a flag, as an
option with its value, or as an operand. So a flag that the level knows is either given, or
an operand after the separator, or left for the level of the command.

* **`Level.read_reads`** — the ways in which a level is read;
* **`Level.Reads.noted`** — where a flag goes;
* **`Invocation.read_ok`** — the two levels of a command line that is understood.
-/
import ScreenHooks.Command.Arguments

namespace ScreenHooks.Command

/-! ### Levels -/

namespace Level

/-- How a level is read from what it was given to its end, one case for each kind of
argument. -/
inductive Reads (level : Level) : List String → Given → Given → Descent → Prop where
  | nil {given : Given} : Reads level [] given given none
  | separator {text : String} {rest : List String} {given last : Given}
      (htext : Argument.ofText text = .separator)
      (hlast : level.addOperands? given rest = some last) :
      Reads level (text :: rest) given last none
  | command {text word : String} {rest : List String} {given : Given}
      (htext : Argument.ofText text = .operand word) (hword : word ∈ level.commands) :
      Reads level (text :: rest) given given (some (word, rest))
  | operand {text word : String} {rest : List String} {given next last : Given}
      {descent : Descent} (htext : Argument.ofText text = .operand word)
      (hnext : level.addOperands? given [word] = some next)
      (hrest : Reads level rest next last descent) :
      Reads level (text :: rest) given last descent
  | assigned {text name value : String} {rest : List String} {given next last : Given}
      {descent : Descent} (htext : Argument.ofText text = .long name (some value))
      (hnext : addOption? given name value = some next)
      (hrest : Reads level rest next last descent) :
      Reads level (text :: rest) given last descent
  | flag {text name : String} {rest : List String} {given next last : Given}
      {descent : Descent} (htext : Argument.ofText text = .long name none)
      (hnext : addFlag? given name = some next)
      (hrest : Reads level rest next last descent) :
      Reads level (text :: rest) given last descent
  | option {text name value : String} {rest : List String} {given next last : Given}
      {descent : Descent} (htext : Argument.ofText text = .long name none)
      (hname : name ∉ level.flags) (hvalue : isDashed value = false)
      (hnext : addOption? given name value = some next)
      (hrest : Reads level rest next last descent) :
      Reads level (text :: value :: rest) given last descent
  /-- The value is refused, but only after the arguments of the command. -/
  | refused {text name value word : String} {rest : List String} {given : Given}
      (htext : Argument.ofText text = .long name none) (hname : name ∉ level.flags)
      (hvalue : isDashed value = false) (hword : word ∈ level.commands) :
      Reads level (text :: value :: word :: rest) given { given with faulty := true }
        (some (word, rest))

/-! ### What is taken -/

theorem addFlag?_some {given next : Given} {name : String} (h : addFlag? given name = some next) :
    next = { given with flags := given.flags ++ [name] } := by
  unfold addFlag? at h
  split at h
  · cases h
  · exact (Option.some.inj h).symm

theorem addOption?_some {given next : Given} {name value : String}
    (h : addOption? given name value = some next) :
    next = { given with options := given.options ++ [(name, value)] } := by
  unfold addOption? at h
  split at h
  · cases h
  · exact (Option.some.inj h).symm

theorem addOperands?_some {level : Level} {given next : Given} {texts : List String}
    (h : level.addOperands? given texts = some next) :
    next = { given with operands := given.operands ++ texts } ∧
      ∀ limit, level.limit = some limit → next.operands.length ≤ limit := by
  simp only [addOperands?] at h
  split at h
  · cases h
  next hlimit =>
    obtain rfl := Option.some.inj h
    refine ⟨rfl, fun limit hlevel => ?_⟩
    rw [hlevel] at hlimit
    simpa using hlimit

theorem continueWith_ok {given : Option Given} {next : Given → Except Stop (Given × Descent)}
    {result : Given × Descent} (h : continueWith given next = .ok result) :
    ∃ taken, given = some taken ∧ next taken = .ok result := by
  cases given with
  | none => cases h
  | some taken => exact ⟨taken, rfl, h⟩

/-- A level that is read to its end is read in one of these ways. -/
theorem read_reads (level : Level) : ∀ (arguments : List String) (given last : Given)
    (descent : Descent), level.read arguments given = .ok (last, descent) →
      level.Reads arguments given last descent
  | [], given, last, descent, h => by
    cases h
    exact .nil
  | text :: rest, given, last, descent, h => by
    rw [read] at h
    cases htext : Argument.ofText text with
    | separator =>
      simp only [htext] at h
      obtain ⟨taken, htaken, hlast⟩ := continueWith_ok h
      cases hlast
      exact .separator htext htaken
    | operand word =>
      simp only [htext] at h
      split at h
      next hword =>
        cases h
        exact .command htext hword
      next =>
        obtain ⟨next, hnext, hrest⟩ := continueWith_ok h
        exact .operand htext hnext (read_reads level rest next last descent hrest)
    | short letters =>
      -- help, the version or an error: no level is read to its end behind them
      simp only [htext] at h
      split at h
      · cases h
      · split at h <;> cases h
    | long name value? =>
      cases value? with
      | some value =>
        simp only [htext] at h
        split at h
        · obtain ⟨next, hnext, hrest⟩ := continueWith_ok h
          exact .assigned htext hnext (read_reads level rest next last descent hrest)
        · cases h
      | none =>
        simp only [htext] at h
        split at h
        · cases h
        split at h
        · cases h
        split at h
        · obtain ⟨next, hnext, hrest⟩ := continueWith_ok h
          exact .flag htext hnext (read_reads level rest next last descent hrest)
        next hflag =>
          split at h
          -- an option takes the next argument, and may refuse it
          · cases rest with
            | nil => cases h
            | cons value rest =>
              simp only at h
              split at h
              · cases h
              next hdashed =>
                have hvalue : isDashed value = false := Bool.eq_false_iff.2 hdashed
                cases hnext : addOption? given name value with
                | some next =>
                  simp only [hnext] at h
                  exact .option htext hflag hvalue hnext
                    (read_reads level rest next last descent h)
                | none =>
                  cases rest with
                  | nil => simp only [hnext] at h; cases h
                  | cons word rest =>
                    simp only [hnext] at h
                    split at h
                    next hword =>
                      cases h
                      exact .refused htext hflag hvalue hword
                    · cases h
          · cases h

/-- A level ends at the word of one of its commands, if at any. -/
theorem Reads.word_mem {level : Level} {arguments rest : List String} {given last : Given}
    {descent : Descent} (h : level.Reads arguments given last descent) {word : String}
    (hdescent : descent = some (word, rest)) : word ∈ level.commands := by
  induction h with
  | nil => cases hdescent
  | separator => cases hdescent
  | command _ hword =>
    cases hdescent
    exact hword
  | operand _ _ _ ih => exact ih hdescent
  | assigned _ _ _ ih => exact ih hdescent
  | flag _ _ _ ih => exact ih hdescent
  | option _ _ _ _ _ ih => exact ih hdescent
  | refused _ _ _ hword =>
    cases hdescent
    exact hword

/-- A level takes no more operands than it may. -/
theorem Reads.length_operands {level : Level} {limit : Nat} (hlimit : level.limit = some limit)
    {arguments : List String} {given last : Given} {descent : Descent}
    (h : level.Reads arguments given last descent) (hgiven : given.operands.length ≤ limit) :
    last.operands.length ≤ limit := by
  induction h with
  | nil => exact hgiven
  | separator _ hlast => exact (addOperands?_some hlast).2 limit hlimit
  | command => exact hgiven
  | operand _ hnext _ ih => exact ih ((addOperands?_some hnext).2 limit hlimit)
  | assigned _ hnext _ ih => exact ih (by rwa [addOption?_some hnext])
  | flag _ hnext _ ih => exact ih (by rwa [addFlag?_some hnext])
  | option _ _ _ hnext _ ih => exact ih (by rwa [addOption?_some hnext])
  | refused => exact hgiven

/-! ### Flags -/

/-- Whether a level has taken a flag, or an operand that is spelled like it. -/
def Took (flag text : String) (given : Given) : Prop :=
  given.has flag = true ∨ text ∈ given.operands

section

variable {level : Level} {flag text : String}

theorem Took.operands {given : Given} (h : Took flag text given) (texts : List String) :
    Took flag text { given with operands := given.operands ++ texts } :=
  h.imp_right (List.mem_append_left _)

theorem Took.flags {given : Given} {name : String} (h : Took flag text given ∨ name = flag) :
    Took flag text { given with flags := given.flags ++ [name] } := by
  rcases h with (h | h) | rfl
  · refine .inl (List.contains_iff_mem.2 (List.mem_append_left _ ?_))
    exact List.contains_iff_mem.1 h
  · exact .inr h
  · exact .inl (List.contains_iff_mem.2 (by simp))

/-- An argument that is no flag is another one. -/
theorem mem_rest {other : String} {argument : Argument} {rest : List String}
    (htext : Argument.ofText text = .long flag none) (hother : Argument.ofText other = argument)
    (hne : argument ≠ .long flag none) (h : text ∈ other :: rest) : text ∈ rest := by
  refine (List.mem_cons.1 h).resolve_left ?_
  rintro rfl
  exact hne (hother.symm.trans htext)

/-- An option that a level takes and its value are no flag of the level. -/
theorem mem_after_value {other name value : String} {rest : List String}
    (htext : Argument.ofText text = .long flag none) (hflag : flag ∈ level.flags)
    (hother : Argument.ofText other = .long name none) (hname : name ∉ level.flags)
    (hvalue : isDashed value = false) (h : text ∈ other :: value :: rest) : text ∈ rest := by
  have hflagged : name ≠ flag := fun hsame => hname (hsame ▸ hflag)
  have hdashed : text ≠ value := by
    rintro rfl
    rw [isDashed, htext] at hvalue
    cases hvalue
  have hrest := mem_rest htext hother (by simpa using hflagged) h
  exact (List.mem_cons.1 hrest).resolve_left hdashed

/-- A flag that a level knows is taken by it, or left for the level of the command. -/
theorem Reads.noted (htext : Argument.ofText text = .long flag none) (hflag : flag ∈ level.flags)
    (hcommand : text ∉ level.commands) {arguments : List String} {given last : Given}
    {descent : Descent} (h : level.Reads arguments given last descent)
    (hgiven : Took flag text given ∨ text ∈ arguments) :
    Took flag text last ∨ ∃ word rest, descent = some (word, rest) ∧ text ∈ rest := by
  -- on the way the flag has been taken or is still to come
  induction h with
  | nil => exact .inl (hgiven.resolve_right List.not_mem_nil)
  | separator hother hlast =>
    rw [(addOperands?_some hlast).1]
    rcases hgiven with htook | hmem
    · exact .inl (htook.operands _)
    · exact .inl (.inr (List.mem_append_right _ (mem_rest htext hother (by simp) hmem)))
  | command hother =>
    refine hgiven.imp_right fun hmem => ⟨_, _, rfl, mem_rest htext hother (by simp) hmem⟩
  | operand hother hnext _ ih =>
    rw [(addOperands?_some hnext).1] at ih
    exact ih (hgiven.imp (·.operands _) (mem_rest htext hother (by simp)))
  | assigned hother hnext _ ih =>
    rw [addOption?_some hnext] at ih
    exact ih (hgiven.imp_right (mem_rest htext hother (by simp)))
  | @flag other name _ _ _ _ _ hother hnext _ ih =>
    rw [addFlag?_some hnext] at ih
    by_cases hname : name = flag
    · exact ih (.inl (Took.flags (.inr hname)))
    · exact ih (hgiven.imp (fun htook => Took.flags (.inl htook))
        (mem_rest htext hother (by simpa using hname)))
  | option hother hname hvalue hnext _ ih =>
    rw [addOption?_some hnext] at ih
    exact ih (hgiven.imp_right (mem_after_value htext hflag hother hname hvalue))
  | refused hother hname hvalue hword =>
    refine hgiven.imp_right fun hmem => ⟨_, _, rfl, ?_⟩
    have hafter := mem_after_value htext hflag hother hname hvalue hmem
    refine (List.mem_cons.1 hafter).resolve_left ?_
    rintro rfl
    exact hcommand hword

end

end Level

/-! ### Command lines -/

theorem bind_ok {ε α β : Type} {x : Except ε α} {f : α → Except ε β} {b : β}
    (h : x >>= f = .ok b) : ∃ a, x = .ok a ∧ f a = .ok b := by
  cases x with
  | error e => cases h
  | ok a => exact ⟨a, rfl, h⟩

/-- A command line that is understood is read on two levels. -/
theorem Invocation.read_ok {arguments : List String} {invocation : Invocation}
    (h : Invocation.read arguments = .ok invocation) :
    ∃ outer word rest name inner descent,
      topLevel.Reads arguments {} outer (some (word, rest)) ∧
      (Name.level name).Reads rest {} inner descent ∧
      name.request? inner = some invocation.request ∧
      invocation.globals = globalsOf outer inner := by
  obtain ⟨⟨outer, descent⟩, htop, h⟩ := bind_ok h
  have houter := Level.read_reads _ _ _ _ _ htop
  -- the first level has to end at the word of a command
  cases descent with
  | none => cases h
  | some after =>
    obtain ⟨word, rest⟩ := after
    cases hname : Name.ofText? word with
    | none => simp only [hname] at h; cases h
    | some name =>
      simp only [hname] at h
      obtain ⟨⟨inner, descent⟩, hlevel, h⟩ := bind_ok h
      have hinner := Level.read_reads _ _ _ _ _ hlevel
      cases hrequest : name.request? inner with
      | none => simp only [hrequest] at h; cases h
      | some request =>
        simp only [hrequest] at h
        split at h
        · cases h
        · cases h
          exact ⟨outer, word, rest, name, inner, descent, houter, hinner, hrequest, rfl⟩

end ScreenHooks.Command
