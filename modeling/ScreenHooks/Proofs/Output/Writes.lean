/-
What one write can do, and what a plan can do.

A write reads the file at its target, decides, and then perhaps replaces the
file; `Effect` lists the ways in which this ends. Everything else about writes
follows from these four, and what every write preserves is preserved by every
plan.

* **`write_effect`** — the four ways in which a write ends;
* **`Trail.keeps`** — what each write preserves, a sequence of them preserves.
-/
import ScreenHooks.Output.Plan
import ScreenHooks.Proofs.Disk.Writing

namespace ScreenHooks.Output

open Disk

/-! ### One write -/

/-- How the write of an artifact to a disk may end: its outcome and the disk
afterwards. -/
inductive Effect (w : Writer) (a : Artifact) (d : Disk) :
    Except FileError WriteOutcome × Disk → Prop where
  /-- The file that is there cannot be read. -/
  | unread (e : FileError) (hread : d.readIfExists (w.target a) = .error e) :
      Effect w a d (.error e, d)
  /-- There is nothing to change. -/
  | kept (existing : Option String) (hread : d.readIfExists (w.target a) = .ok existing)
      (hkept : Writer.changes (w.outcome a existing) = false) :
      Effect w a d (.ok (w.outcome a existing), d)
  /-- The file cannot be replaced; directories may have been made. -/
  | failed (existing : Option String) (hread : d.readIfExists (w.target a) = .ok existing)
      (hchanges : Writer.changes (w.outcome a existing) = true) (mid : Disk)
      (hpaved : Paved (d.way (directoryOf (w.target a))) d mid) (e : FileError) :
      Effect w a d (.error e, mid)
  /-- The file is replaced. -/
  | replaced (existing : Option String) (hread : d.readIfExists (w.target a) = .ok existing)
      (hchanges : Writer.changes (w.outcome a existing) = true) (mid : Disk)
      (hpaved : Paved (d.way (directoryOf (w.target a))) d mid)
      (hplace : mid.filePlace (w.target a) = .ok (d.spot (w.target a))) :
      Effect w a d (.ok (w.outcome a existing),
        mid.put (d.spot (w.target a)) (.file (.text a.content)))

theorem write_effect (w : Writer) (a : Artifact) (d : Disk) : Effect w a d ((w.write a).apply d) := by
  unfold Writer.write
  rw [apply_bind, apply_get]
  simp only []
  cases hread : d.readIfExists (w.target a) with
  | error e => exact .unread e hread
  | ok existing =>
    cases hchanges : Writer.changes (w.outcome a existing) with
    | false =>
      simp only [hchanges, Bool.false_eq_true, if_false]
      exact .kept existing hread hchanges
    | true =>
      simp only [hchanges, if_true]
      rw [apply_bind]
      obtain ⟨mid, hpaved, ⟨e, hfail⟩ | ⟨hplace, hput⟩⟩ :=
        replaceFile_cases (w.target a) a.content d
      · rw [hfail]
        exact .failed existing hread hchanges mid hpaved e
      · rw [hput]
        exact .replaced existing hread hchanges mid hpaved hplace

/-- A write that changes nothing. -/
theorem write_kept {w : Writer} {a : Artifact} {d : Disk} {existing : Option String}
    (hread : d.readIfExists (w.target a) = .ok existing)
    (hkept : Writer.changes (w.outcome a existing) = false) :
    (w.write a).apply d = (.ok (w.outcome a existing), d) := by
  unfold Writer.write
  rw [apply_bind, apply_get]
  simp only [hread, hkept, Bool.false_eq_true, if_false]
  rfl

namespace Effect

variable {w : Writer} {a : Artifact} {d : Disk} {r : Except FileError WriteOutcome × Disk}

theorem here_eq (h : Effect w a d r) : r.2.here = d.here := by
  cases h with
  | unread => rfl
  | kept => rfl
  | failed _ _ _ mid hpaved => exact hpaved.here_eq
  | replaced _ _ _ mid hpaved => exact hpaved.here_eq

/-- A write that fails adds directories at most. -/
theorem paved_of_error {e : FileError} (h : Effect w a d r) (he : r.1 = .error e) :
    Paved (d.way (directoryOf (w.target a))) d r.2 := by
  cases h with
  | unread => exact .refl d
  | kept => cases he
  | failed _ _ _ mid hpaved => exact hpaved
  | replaced => cases he

/-- Away from the target a write adds directories at most, and only on the way. -/
theorem elsewhere (h : Effect w a d r) {q : Place} (hq : q ≠ d.spot (w.target a)) :
    r.2.at? q = d.at? q ∨ (d.at? q = none ∧ q ∈ d.way (directoryOf (w.target a)) ∧
      r.2.at? q = some .directory) := by
  cases h with
  | unread => exact .inl rfl
  | kept => exact .inl rfl
  | failed _ _ _ mid hpaved => exact hpaved.entry q
  | replaced _ _ _ mid hpaved =>
    show (mid.put _ _).at? q = _ ∨ _ ∧ _ ∧ (mid.put _ _).at? q = _
    rw [at?_put_of_ne mid _ hq]
    exact hpaved.entry q

/-- A write leaves the files away from the target alone. -/
theorem file_elsewhere (h : Effect w a d r) {q : Place} (hq : q ≠ d.spot (w.target a))
    {contents : Contents} :
    r.2.at? q = some (.file contents) ↔ d.at? q = some (.file contents) := by
  rcases h.elsewhere hq with heq | ⟨hnone, -, hdir⟩
  · rw [heq]
  · rw [hnone, hdir]
    simp

/-- Directories stay. -/
theorem directory_stays (h : Effect w a d r) {q : Place} (hq : d.at? q = some .directory) :
    r.2.at? q = some .directory := by
  cases h with
  | unread => exact hq
  | kept => exact hq
  | failed _ _ _ mid hpaved => exact hpaved.keeps hq
  | replaced _ _ _ mid hpaved hplace =>
    obtain ⟨-, -, -, hfree, -⟩ := filePlace_ok_iff.1 hplace
    have hmid := hpaved.keeps hq
    have hne : q ≠ d.spot (w.target a) := by
      rintro rfl
      rw [spot_congr hpaved.here_eq] at hfree
      exact hfree hmid
    show (mid.put _ _).at? q = _
    rw [at?_put_of_ne mid _ hne]
    exact hmid

/-- Whatever a write changes is a directory that it made, or the file at its target,
which then holds the whole content. -/
theorem changed (h : Effect w a d r) (q : Place) :
    r.2.at? q = d.at? q ∨ (d.at? q = none ∧ r.2.at? q = some .directory) ∨
      ((∃ o, r.1 = .ok o ∧ Writer.changes o = true) ∧ q = d.spot (w.target a) ∧
        r.2.at? q = some (.file (.text a.content))) := by
  cases h with
  | unread => exact .inl rfl
  | kept => exact .inl rfl
  | failed _ _ _ mid hpaved =>
    exact (hpaved.entry q).imp_right fun hmade => .inl ⟨hmade.1, hmade.2.2⟩
  | replaced existing _ hchanges mid hpaved hplace =>
    by_cases hq : q = d.spot (w.target a)
    · refine .inr (.inr ⟨⟨_, rfl, hchanges⟩, hq, ?_⟩)
      rw [hq]
      exact at?_put mid _ _ (spot_named_ne (filePlace_ok_iff.1 hplace).2.2.1 d)
    · show (mid.put _ _).at? q = _ ∨ _ ∧ (mid.put _ _).at? q = _ ∨ _
      rw [at?_put_of_ne mid _ hq]
      exact (hpaved.entry q).imp_right fun hmade => .inl ⟨hmade.1, hmade.2.2⟩

end Effect

/-- A write that succeeds has read its target and decided by what it has found. -/
theorem read_of_success {w : Writer} {a : Artifact} {d : Disk} {o : WriteOutcome}
    (ho : ((w.write a).apply d).1 = .ok o) :
    ∃ existing, d.readIfExists (w.target a) = .ok existing ∧ o = w.outcome a existing := by
  have heffect := write_effect w a d
  generalize (w.write a).apply d = r at heffect ho
  cases heffect with
  | unread => cases ho
  | kept existing hread => exact ⟨existing, hread, (Except.ok.inj ho).symm⟩
  | failed => cases ho
  | replaced existing hread => exact ⟨existing, hread, (Except.ok.inj ho).symm⟩

/-- An absent file is created. -/
theorem outcome_none {w : Writer} (hdry : w.dryRun = false) (a : Artifact) :
    w.outcome a none = .created := by
  simp [Writer.outcome, mayOverwrite, hdry]

/-- What is there decides between the other outcomes. -/
theorem outcome_some {w : Writer} (hdry : w.dryRun = false) (a : Artifact) (text : String) :
    (w.outcome a (some text) = .preserved ∧ Text.contains text w.sentinel = false) ∨
      (w.outcome a (some text) = .unchanged ∧ text = a.content) ∨
      (w.outcome a (some text) = .updated ∧ text ≠ a.content) := by
  by_cases hpolicy : a.policy = .ifPlaceholder ∧ mayOverwrite w.sentinel (some text) = false
  · exact .inl ⟨if_pos hpolicy, hpolicy.2⟩
  · by_cases hsame : text = a.content
    · refine .inr (.inl ⟨?_, hsame⟩)
      rw [Writer.outcome, if_neg hpolicy, if_pos (congrArg some hsame)]
    · refine .inr (.inr ⟨?_, hsame⟩)
      rw [Writer.outcome, if_neg hpolicy, if_neg (by simpa using hsame), hdry]
      rfl

/-- A dry run changes nothing. -/
theorem changes_dry {w : Writer} (hdry : w.dryRun = true) (a : Artifact)
    (existing : Option String) : Writer.changes (w.outcome a existing) = false := by
  unfold Writer.outcome
  split
  · rfl
  · split
    · rfl
    · rfl

theorem disk_of_dry {w : Writer} (hdry : w.dryRun = true) (a : Artifact) (d : Disk) :
    ((w.write a).apply d).2 = d := by
  have heffect := write_effect w a d
  generalize (w.write a).apply d = r at heffect
  cases heffect with
  | unread => rfl
  | kept => rfl
  | failed existing _ hchanges =>
    rw [changes_dry hdry] at hchanges
    cases hchanges
  | replaced existing _ hchanges =>
    rw [changes_dry hdry] at hchanges
    cases hchanges

/-! ### Trails -/

namespace Attempt

/-- The path of the file that is to be written. -/
def target (t : Attempt) : Path := t.writer.target t.artifact

/-- The place of the file that is to be written. -/
def spot (t : Attempt) : Place := t.before.spot t.target

/-- Whether an attempt succeeded. -/
def Succeeds (t : Attempt) : Prop := ∃ o, t.outcome = .ok o

/-- Whether an attempt succeeded and replaced the file. -/
def Replaces (t : Attempt) : Prop := ∃ o, t.outcome = .ok o ∧ Writer.changes o = true

theorem Replaces.succeeds {t : Attempt} (h : t.Replaces) : t.Succeeds := by
  obtain ⟨o, ho, -⟩ := h
  exact ⟨o, ho⟩

end Attempt

/-- Attempts that follow each other: each is what its writer does on the disk
that the one before has left. -/
inductive Trail : Disk → List Attempt → Disk → Prop where
  | nil (d : Disk) : Trail d [] d
  | cons (w : Writer) (a : Artifact) (d last : Disk) (rest : List Attempt)
      (hrest : Trail ((w.write a).apply d).2 rest last) :
      Trail d (⟨w, d, a, ((w.write a).apply d).1⟩ :: rest) last

/-- The attempts of a plan follow each other. -/
theorem Plan.trail {α : Type} (w : Writer) (x : Plan α) (d : Disk) :
    Trail d (x.attempts w d) (x.carryOut w d).2 := by
  induction x generalizing d with
  | done result => exact .nil d
  | write artifact next ih =>
    rw [Plan.attempts_write, Plan.carryOut_write]
    exact .cons w artifact d _ _ (ih _ _)

theorem Plan.writer_eq {α : Type} {w : Writer} {x : Plan α} {d : Disk} {t : Attempt}
    (h : t ∈ x.attempts w d) : t.writer = w := by
  induction x generalizing d with
  | done result => cases h
  | write artifact next ih =>
    rw [Plan.attempts_write] at h
    rcases List.mem_cons.1 h with rfl | h
    · rfl
    · exact ih _ h

namespace Trail

theorem split {d last : Disk} {a b : List Attempt} (h : Trail d (a ++ b) last) :
    ∃ mid, Trail d a mid ∧ Trail mid b last := by
  induction a generalizing d with
  | nil => exact ⟨d, .nil d, h⟩
  | cons t rest ih =>
    cases h with
    | cons w artifact _ _ _ hrest =>
      obtain ⟨mid, ha, hb⟩ := ih hrest
      exact ⟨mid, .cons w artifact d mid rest ha, hb⟩

/-- What every attempt preserves, the trail preserves; it holds before each of
them. -/
theorem keeps (kept : Disk → Prop) (allowed : Attempt → Prop)
    (hstep : ∀ w d a, kept d → allowed ⟨w, d, a, ((w.write a).apply d).1⟩ →
      kept ((w.write a).apply d).2)
    {d last : Disk} {ts : List Attempt} (h : Trail d ts last) (hd : kept d)
    (hallowed : ∀ t ∈ ts, allowed t) : kept last ∧ ∀ t ∈ ts, kept t.before := by
  induction h with
  | nil => exact ⟨hd, by simp⟩
  | cons w a d last rest hrest ih =>
    have hafter := hstep w d a hd (hallowed _ List.mem_cons_self)
    obtain ⟨hlast, hbefore⟩ := ih hafter fun t ht => hallowed t (List.mem_cons_of_mem _ ht)
    refine ⟨hlast, fun t ht => ?_⟩
    rcases List.mem_cons.1 ht with rfl | ht
    · exact hd
    · exact hbefore t ht

/-- An attempt is what its writer does with its artifact. -/
theorem outcome_eq {d last : Disk} {ts : List Attempt} (h : Trail d ts last) {t : Attempt}
    (ht : t ∈ ts) : t.outcome = ((t.writer.write t.artifact).apply t.before).1 := by
  induction h with
  | nil => cases ht
  | cons w a d last rest hrest ih =>
    rcases List.mem_cons.1 ht with rfl | ht
    · rfl
    · exact ih ht

theorem here_eq {d last : Disk} {ts : List Attempt} (h : Trail d ts last) :
    last.here = d.here ∧ ∀ t ∈ ts, t.before.here = d.here :=
  h.keeps (fun e => e.here = d.here) (fun _ => True)
    (fun w e a he _ => (write_effect w a e).here_eq.trans he) rfl fun _ _ => trivial

/-- Every attempt of a dry run is made on the first disk. -/
theorem of_dry {d last : Disk} {ts : List Attempt} (h : Trail d ts last)
    (hdry : ∀ t ∈ ts, t.writer.dryRun = true) : last = d ∧ ∀ t ∈ ts, t.before = d :=
  h.keeps (· = d) (·.writer.dryRun = true)
    (fun _ e a he hw => (disk_of_dry hw a e).trans he) rfl hdry

theorem directory_stays {d last : Disk} {ts : List Attempt} (h : Trail d ts last) {q : Place}
    (hq : d.at? q = some .directory) : last.at? q = some .directory :=
  (h.keeps (fun e => e.at? q = some .directory) (fun _ => True)
    (fun w e a he _ => (write_effect w a e).directory_stays he) hq fun _ _ => trivial).1

/-- Whatever a trail changes is a directory that was made, or a file that holds the
whole content of an attempt that replaced it. -/
theorem changed {d last : Disk} {ts : List Attempt} (h : Trail d ts last) (q : Place) :
    last.at? q = d.at? q ∨ (d.at? q = none ∧ last.at? q = some .directory) ∨
      ∃ t ∈ ts, t.Replaces ∧ q = d.spot t.target ∧
        last.at? q = some (.file (.text t.artifact.content)) := by
  induction h with
  | nil => exact .inl rfl
  | cons w a d last rest hrest ih =>
    have hfirst := (write_effect w a d).changed q
    have hhere := (write_effect w a d).here_eq
    rcases ih with hsame | ⟨hnone, hmade⟩ | ⟨t, ht, hreplaces, hspot, hat⟩
    · rw [hsame]
      rcases hfirst with hfirst | hfirst | ⟨ho, hspot, hat⟩
      · exact .inl hfirst
      · exact .inr (.inl hfirst)
      · exact .inr (.inr ⟨_, List.mem_cons_self, ho, hspot, hat⟩)
    · rcases hfirst with hfirst | ⟨-, hdirectory⟩ | ⟨-, -, hat⟩
      · exact .inr (.inl ⟨hfirst ▸ hnone, hmade⟩)
      · rw [hnone] at hdirectory
        cases hdirectory
      · rw [hnone] at hat
        cases hat
    · rw [spot_congr hhere] at hspot
      exact .inr (.inr ⟨t, List.mem_cons_of_mem _ ht, hreplaces, hspot, hat⟩)

end Trail

/-! ### What stands after a write -/

/-- A write that changes the file leaves it with the wanted text. -/
theorem text_of_change {w : Writer} {a : Artifact} {d : Disk} {o : WriteOutcome}
    (ho : ((w.write a).apply d).1 = .ok o) (hchanges : Writer.changes o = true) :
    ((w.write a).apply d).2.readText (w.target a) = .ok a.content := by
  have heffect := write_effect w a d
  generalize (w.write a).apply d = r at heffect ho
  cases heffect with
  | unread => cases ho
  | failed => cases ho
  | kept existing hread hkept =>
    rw [Except.ok.inj ho, hchanges] at hkept
    cases hkept
  | replaced existing hread _ mid hpaved hplace =>
    rw [← spot_congr hpaved.here_eq] at hplace ⊢
    exact readText_put hplace

/-- A write that succeeds, unless it is a dry run, leaves the wanted text or one that it
would not change. -/
theorem text_left {w : Writer} {a : Artifact} {d : Disk} {o : WriteOutcome}
    (hdry : w.dryRun = false) (ho : ((w.write a).apply d).1 = .ok o) :
    ∃ text, ((w.write a).apply d).2.readText (w.target a) = .ok text ∧
      (text = a.content ∨ Writer.changes (w.outcome a (some text)) = false) := by
  obtain ⟨existing, hread, rfl⟩ := read_of_success ho
  cases hchanges : Writer.changes (w.outcome a existing) with
  | true => exact ⟨a.content, text_of_change ho hchanges, .inl rfl⟩
  | false =>
    cases existing with
    | none =>
      rw [outcome_none hdry] at hchanges
      cases hchanges
    | some text =>
      obtain ⟨hreach, hat⟩ := readIfExists_some_iff.1 hread
      rw [write_kept hread hchanges]
      exact ⟨text, readText_ok_iff.2 ⟨hreach.1, hreach.2, hat⟩, .inr hchanges⟩

/-- A successful write of a generated file, unless it is a dry run, leaves the
file with the wanted text. -/
theorem text_of_success {w : Writer} {a : Artifact} {d : Disk} {o : WriteOutcome}
    (hdry : w.dryRun = false) (hpolicy : a.policy = .always)
    (ho : ((w.write a).apply d).1 = .ok o) :
    ((w.write a).apply d).2.readText (w.target a) = .ok a.content := by
  obtain ⟨text, htext, hleft⟩ := text_left hdry ho
  have hsame : text = a.content := by
    by_contra hne
    -- a generated file is only left alone where it has the text already
    have houtcome : w.outcome a (some text) = .updated := by
      rw [Writer.outcome, if_neg (by simp [hpolicy]), if_neg (by simpa using hne), hdry]
      rfl
    rcases hleft with hsame | hkept
    · exact hne hsame
    · rw [houtcome] at hkept
      cases hkept
  rw [htext, hsame]

/-- A text that can be read stays so through a write to another place, and
through a write that fails. -/
theorem text_stays {w : Writer} {a : Artifact} {d : Disk} {p : Path} {text : String}
    (htext : d.readText p = .ok text)
    (h : d.spot p ≠ d.spot (w.target a) ∨ ∃ e, ((w.write a).apply d).1 = .error e) :
    ((w.write a).apply d).2.readText p = .ok text := by
  have heffect := write_effect w a d
  obtain ⟨hvalid, hdirs, hat⟩ := readText_ok_iff.1 htext
  refine readText_ok_iff.2 ⟨hvalid, fun c hc => ?_, ?_⟩
  · rw [route_congr heffect.here_eq] at hc
    exact heffect.directory_stays (hdirs c hc)
  · rw [spot_congr heffect.here_eq]
    rcases h with hne | ⟨e, he⟩
    · exact (heffect.file_elsewhere hne).2 hat
    · exact (heffect.paved_of_error he).keeps hat

/-- A successful write to the place of a path that leads there is read back from
that path. -/
theorem text_of_alias {w : Writer} {a : Artifact} {d : Disk} {p : Path} {text : String}
    {o : WriteOutcome} (htext : d.readText p = .ok text) (hdry : w.dryRun = false)
    (hpolicy : a.policy = .always) (hspot : d.spot p = d.spot (w.target a))
    (ho : ((w.write a).apply d).1 = .ok o) :
    ((w.write a).apply d).2.readText p = .ok a.content := by
  have heffect := write_effect w a d
  obtain ⟨hvalid, hdirs, -⟩ := readText_ok_iff.1 htext
  obtain ⟨-, -, hat⟩ := readText_ok_iff.1 (text_of_success hdry hpolicy ho)
  refine readText_ok_iff.2 ⟨hvalid, fun c hc => ?_, ?_⟩
  · rw [route_congr heffect.here_eq] at hc
    exact heffect.directory_stays (hdirs c hc)
  · rw [spot_congr heffect.here_eq] at hat ⊢
    rw [hspot]
    exact hat

namespace Trail

variable {d last : Disk} {ts : List Attempt} {p : Path}

/-- What a path reads after a trail of generated files is what it read before,
or the content of a successful attempt at its place. -/
theorem text_after (h : Trail d ts last) (hdry : ∀ t ∈ ts, t.writer.dryRun = false)
    (halways : ∀ t ∈ ts, t.spot = d.spot p → t.artifact.policy = .always) {text : String}
    (htext : d.readText p = .ok text) :
    ∃ final, last.readText p = .ok final ∧ (final = text ∨
      ∃ u ∈ ts, u.spot = d.spot p ∧ u.Succeeds ∧ u.artifact.content = final) := by
  induction h generalizing text with
  | nil => exact ⟨text, htext, .inl rfl⟩
  | cons w a d last rest hrest ih =>
    have hhere := (write_effect w a d).here_eq
    have hdryRest : ∀ t ∈ rest, t.writer.dryRun = false :=
      fun t ht => hdry t (List.mem_cons_of_mem _ ht)
    have halwaysRest : ∀ t ∈ rest, t.spot = ((w.write a).apply d).2.spot p →
        t.artifact.policy = .always := by
      intro t ht hspot
      rw [spot_congr hhere] at hspot
      exact halways t (List.mem_cons_of_mem _ ht) hspot
    by_cases hkept : d.spot p ≠ d.spot (w.target a) ∨ ∃ e, ((w.write a).apply d).1 = .error e
    · obtain ⟨final, hfinal, hsource⟩ := ih hdryRest halwaysRest (text_stays htext hkept)
      refine ⟨final, hfinal, ?_⟩
      rcases hsource with hsource | ⟨u, hu, hspot, hsource⟩
      · exact .inl hsource
      · rw [spot_congr hhere] at hspot
        exact .inr ⟨u, List.mem_cons_of_mem _ hu, hspot, hsource⟩
    · -- the attempt replaces the text
      rw [not_or, not_not] at hkept
      obtain ⟨hspot, hsucceeds⟩ := hkept
      cases ho : ((w.write a).apply d).1 with
      | error e => exact absurd ⟨e, ho⟩ hsucceeds
      | ok o =>
        have hpolicy := halways _ List.mem_cons_self hspot.symm
        have hafter := text_of_alias htext (hdry _ List.mem_cons_self) hpolicy hspot ho
        obtain ⟨final, hfinal, hsource⟩ := ih hdryRest halwaysRest hafter
        refine ⟨final, hfinal, .inr ?_⟩
        rcases hsource with rfl | ⟨u, hu, hspotRest, hsource⟩
        · exact ⟨_, List.mem_cons_self, hspot.symm, ⟨o, rfl⟩, rfl⟩
        · rw [spot_congr hhere] at hspotRest
          exact ⟨u, List.mem_cons_of_mem _ hu, hspotRest, hsource⟩

/-- After a trail of generated files, a path that was written to reads the
content of some successful attempt at its place. -/
theorem text_written (h : Trail d ts last) (hdry : ∀ t ∈ ts, t.writer.dryRun = false)
    (halways : ∀ t ∈ ts, t.spot = d.spot p → t.artifact.policy = .always)
    (hwritten : ∃ t ∈ ts, t.target = p ∧ t.Succeeds) :
    ∃ u ∈ ts, u.spot = d.spot p ∧ u.Succeeds ∧ last.readText p = .ok u.artifact.content := by
  obtain ⟨t, ht, htarget, o, ho⟩ := hwritten
  -- right after this attempt the path reads its content; the rest of the trail goes on from there
  obtain ⟨earlier, later, rfl⟩ := List.append_of_mem ht
  obtain ⟨mid, hearlier, hlater⟩ := h.split
  cases hlater with
  | cons w a _ _ _ hrest =>
    have htarget : w.target a = p := htarget
    have hmid : mid.here = d.here := hearlier.here_eq.1
    have hhere := (write_effect w a mid).here_eq.trans hmid
    have hspot : mid.spot (w.target a) = d.spot p := by rw [htarget, spot_congr hmid]
    have hafter := text_of_success (hdry _ ht) (halways _ ht hspot) ho
    rw [htarget] at hafter
    have hmem : ∀ {u}, u ∈ later → u ∈ earlier ++ ⟨w, mid, a, ((w.write a).apply mid).1⟩ :: later :=
      fun hu => List.mem_append_right _ (List.mem_cons_of_mem _ hu)
    obtain ⟨final, hfinal, hsource⟩ := hrest.text_after (fun u hu => hdry u (hmem hu))
      (fun u hu hplace => halways u (hmem hu) (by rw [hplace, spot_congr hhere])) hafter
    rcases hsource with rfl | ⟨u, hu, hplace, hsucceeds, rfl⟩
    · exact ⟨_, ht, hspot, ⟨o, ho⟩, hfinal⟩
    · rw [spot_congr hhere] at hplace
      exact ⟨u, hmem hu, hplace, hsucceeds, hfinal⟩

end Trail

end ScreenHooks.Output
