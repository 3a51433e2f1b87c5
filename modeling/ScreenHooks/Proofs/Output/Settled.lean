/-
What writes leave to be written again.

A write that succeeds leaves a file that the same write would not change any
more: it has the wanted text, or it is one that its authors have taken over.
Writes to other places keep it so. Apart from its targets, a trail of writes
makes directories at most.

* **`settled_of_success`** — the target of one write;
* **`Trail.settled`** — the targets of a trail;
* **`Trail.grown`** — everything else.
-/
import ScreenHooks.Proofs.Disk.Trees
import ScreenHooks.Proofs.Output.Clear

namespace ScreenHooks.Output

open Disk

/-- Whether a file is as a write leaves it: the write would find the wanted text,
or a text that it has to keep. -/
def Settled (w : Writer) (a : Artifact) (text : String) : Prop :=
  w.outcome a (some text) = .unchanged ∨ w.outcome a (some text) = .preserved

theorem Settled.changes {w : Writer} {a : Artifact} {text : String} (h : Settled w a text) :
    Writer.changes (w.outcome a (some text)) = false := by
  rcases h with h | h <;> rw [h] <;> rfl

/-- What a write that changes nothing finds is settled, unless it is a dry run. -/
theorem settled_of_kept {w : Writer} {a : Artifact} {text : String} (hdry : w.dryRun = false)
    (h : Writer.changes (w.outcome a (some text)) = false) : Settled w a text := by
  rcases outcome_some hdry a text with ⟨hpreserved, -⟩ | ⟨hunchanged, -⟩ | ⟨hupdated, -⟩
  · exact .inr hpreserved
  · exact .inl hunchanged
  · rw [hupdated] at h
    cases h

/-- A generated file is left with its own text. -/
theorem Settled.text_eq {w : Writer} {a : Artifact} {text : String} (h : Settled w a text)
    (hpolicy : a.policy = .always) : text = a.content := by
  by_contra hne
  have hsome : some text ≠ some a.content := fun heq => hne (Option.some.inj heq)
  have houtcome : w.outcome a (some text) = if w.dryRun then .dryRun else .updated := by
    rw [Writer.outcome, if_neg (by simp [hpolicy]), if_neg hsome]
    rfl
  rw [Settled, houtcome] at h
  cases hdry : w.dryRun <;> simp [hdry] at h

/-- The wanted text is one that the write leaves alone. -/
theorem settled_content (w : Writer) (a : Artifact) : Settled w a a.content := by
  unfold Settled Writer.outcome
  split
  · exact .inr rfl
  · exact .inl (if_pos rfl)

/-- A write that succeeds, unless it is a dry run, leaves its target settled. -/
theorem settled_of_success {w : Writer} {a : Artifact} {d : Disk} {o : WriteOutcome}
    (hdry : w.dryRun = false) (ho : ((w.write a).apply d).1 = .ok o) :
    ∃ text, ((w.write a).apply d).2.readText (w.target a) = .ok text ∧ Settled w a text := by
  obtain ⟨text, htext, rfl | hkept⟩ := text_left hdry ho
  · exact ⟨_, htext, settled_content w a⟩
  · exact ⟨text, htext, settled_of_kept hdry hkept⟩

/-! ### Trails -/

namespace Trail

variable {d last : Disk} {ts : List Attempt}

/-- A text stays through a trail that is not made at its place. -/
theorem text_kept (h : Trail d ts last) {p : Path} {text : String} (htext : d.readText p = .ok text)
    (hspots : ∀ t ∈ ts, t.spot ≠ d.spot p) : last.readText p = .ok text := by
  induction h with
  | nil => exact htext
  | cons w a d last rest hrest ih =>
    have hhere := (write_effect w a d).here_eq
    have hfirst : d.spot p ≠ d.spot (w.target a) := fun heq =>
      hspots _ List.mem_cons_self heq.symm
    refine ih (text_stays htext (.inl hfirst)) fun t ht => ?_
    rw [spot_congr hhere]
    exact hspots t (List.mem_cons_of_mem _ ht)

/-- After attempts at distinct places that all succeeded, their targets are
settled. -/
theorem settled (h : Trail d ts last) (hdry : ∀ t ∈ ts, t.writer.dryRun = false)
    (hok : ∀ t ∈ ts, t.Succeeds) (hdistinct : (ts.map (·.spot)).Nodup) {t : Attempt} (ht : t ∈ ts) :
    ∃ text, last.readText t.target = .ok text ∧ Settled t.writer t.artifact text := by
  induction h with
  | nil => cases ht
  | cons w a d last rest hrest ih =>
    rw [List.map_cons, List.nodup_cons] at hdistinct
    rcases List.mem_cons.1 ht with rfl | ht
    · obtain ⟨o, ho⟩ := hok _ List.mem_cons_self
      obtain ⟨text, htext, hsettled⟩ := settled_of_success (hdry _ List.mem_cons_self) ho
      refine ⟨text, hrest.text_kept htext fun t ht heq => hdistinct.1 ?_, hsettled⟩
      rw [spot_congr (write_effect w a d).here_eq] at heq
      exact List.mem_map.2 ⟨t, ht, heq⟩
    · exact ih (fun t ht => hdry t (List.mem_cons_of_mem _ ht))
        (fun t ht => hok t (List.mem_cons_of_mem _ ht)) hdistinct.2 ht

/-- A trail changes files at its places only, and removes nothing. -/
theorem grown (h : Trail d ts last) : Grown (ts.map (·.spot)) d last := by
  refine ⟨h.here_eq.1, fun q hq => h.directory_stays hq,
    fun q contents hq => (h.file_stays ⟨contents, hq⟩).1, fun q hq => ?_⟩
  induction h with
  | nil => exact .inl rfl
  | cons w a d last rest hrest ih =>
    rw [List.map_cons, List.mem_cons, not_or] at hq
    rcases (write_effect w a d).elsewhere hq.1 with heq | ⟨hnone, -, hdir⟩
    · rw [← heq]
      exact ih hq.2
    · exact .inr ⟨hnone, hrest.directory_stays hdir⟩

end Trail

end ScreenHooks.Output
