/-
What writing does to a disk.

Writing a file makes directories where nothing stood, on the way to the file,
and then puts the file at the place that its path spells. Nothing else
changes, whether the operation succeeds or not.

* **`makeDirectories_paved`** — directories are only added, and only on the way;
* **`makeDirectories_ok`** — they are made if no file stands in the way;
* **`replaceFile_cases`** — all that replacing a file can do.
-/
import ScreenHooks.Proofs.Disk.Places

namespace ScreenHooks.Disk

variable {ε δ α β : Type}

/-! ### Changes in sequence -/

@[simp] theorem apply_pure (a : α) (d : Disk) : (pure a : Change ε α).apply d = (.ok a, d) := rfl

@[simp] theorem apply_throw (e : ε) (d : Disk) :
    (throw e : Change ε α).apply d = (.error e, d) := rfl

@[simp] theorem apply_get (d : Disk) : (get : Change ε Disk).apply d = (.ok d, d) := rfl

@[simp] theorem apply_set (next d : Disk) :
    (set next : Change ε PUnit).apply d = (.ok (), next) := rfl

@[simp] theorem apply_outcome (x : Except ε α) (d : Disk) : (outcome x).apply d = (x, d) := rfl

@[simp] theorem apply_attempt (x : Change ε α) (d : Disk) :
    (attempt x : Change δ (Except ε α)).apply d = (.ok (x.apply d).1, (x.apply d).2) := rfl

theorem apply_bind (x : Change ε α) (f : α → Change ε β) (d : Disk) :
    (x >>= f).apply d = match x.apply d with
      | (.ok a, after) => (f a).apply after
      | (.error e, after) => (.error e, after) := by
  show Id.run (StateT.run (ExceptT.run (x >>= f)) d) = _
  have hx : x.apply d = Id.run (StateT.run (ExceptT.run x) d) := rfl
  rw [hx, ExceptT.run_bind, StateT.run_bind]
  cases hrun : StateT.run (ExceptT.run x) d with
  | mk outcome after => cases outcome <;> rfl

theorem apply_adapt (g : ε → δ) (x : Change ε α) (d : Disk) :
    Change.apply (ExceptT.adapt g x) d = ((x.apply d).1.mapError g, (x.apply d).2) := rfl

/-! ### One directory -/

theorem solid_append (p : Path) :
    ∃ blank, p.segments = solid p ++ blank ∧ ∀ s ∈ blank, Path.isIdle s = true := by
  refine ⟨(p.segments.reverse.takeWhile (· = "")).reverse, ?_, ?_⟩
  · rw [solid, ← List.reverse_append, List.takeWhile_append_dropWhile, List.reverse_reverse]
  · intro s hs
    have := List.mem_takeWhile_imp (List.mem_reverse.1 hs)
    simp only [decide_eq_true_eq] at this
    subst this
    rfl

/-- Empty segments at the end lead nowhere else. -/
theorem spell_solid (d : Disk) (p : Path) : spell (d.start p) (solid p) = d.spot p := by
  obtain ⟨blank, hsegments, hblank⟩ := solid_append p
  rw [spot, hsegments, spell_append, spell_idle hblank]

/-- One directory is made where nothing is, or nothing happens. -/
theorem makeDirectory_apply (p : Path) (d : Disk) :
    (makeDirectory p).apply d =
      match d.directoryPlace p with
      | .error e => (.error e, d)
      | .ok place =>
        if (d.at? place).isSome then (.error .alreadyExists, d)
        else (.ok (), d.put place .directory) := by
  unfold makeDirectory
  rw [apply_bind, apply_get]
  show ((outcome (d.directoryPlace p)) >>= _ : Change DiskError Unit).apply d = _
  rw [apply_bind, apply_outcome]
  cases d.directoryPlace p with
  | error e => rfl
  | ok place =>
    by_cases h : (d.at? place).isSome = true
    · simp [h]
    · simp [h]

theorem directoryPlace_eq (p : Path) (d : Disk) :
    d.directoryPlace p = match check p with
      | .error e => .error e
      | .ok _ => d.walk (d.start p) (solid p) := by
  unfold directoryPlace
  cases check p <;> rfl

theorem directoryPlace_ok_iff {p : Path} {d : Disk} {place : Place} :
    d.directoryPlace p = .ok place ↔
      check p = .ok () ∧ (∀ s ∈ solid p, Fits s) ∧
        (∀ c ∈ crossed (d.start p) (solid p), d.at? c = some .directory) ∧ place = d.spot p := by
  rw [directoryPlace_eq, ← spell_solid d p, ← walk_ok_iff]
  cases check p with
  | error e => simp
  | ok u => simp

/-! ### Added directories -/

/-- A disk with directories at some of the given places where an earlier one
has nothing. -/
structure Paved (places : List Place) (old new : Disk) : Prop where
  here_eq : new.here = old.here
  entry : ∀ q, new.at? q = old.at? q ∨
    (old.at? q = none ∧ q ∈ places ∧ new.at? q = some .directory)

namespace Paved

variable {places : List Place} {a b c : Disk}

theorem refl (d : Disk) : Paved places d d := ⟨rfl, fun _ => .inl rfl⟩

theorem trans (hab : Paved places a b) (hbc : Paved places b c) : Paved places a c := by
  refine ⟨hbc.here_eq.trans hab.here_eq, fun q => ?_⟩
  rcases hab.entry q with hb | ⟨hnone, hq, hdir⟩
  · rcases hbc.entry q with hc | ⟨hnone, hq, hdir⟩
    · exact .inl (hc.trans hb)
    · exact .inr ⟨hb ▸ hnone, hq, hdir⟩
  · rcases hbc.entry q with hc | ⟨hgone, -, -⟩
    · exact .inr ⟨hnone, hq, hc.trans hdir⟩
    · rw [hdir] at hgone
      cases hgone

theorem mono {more : List Place} (h : Paved places a b) (hsub : ∀ q ∈ places, q ∈ more) :
    Paved more a b := by
  refine ⟨h.here_eq, fun q => ?_⟩
  rcases h.entry q with hq | ⟨hnone, hq, hdir⟩
  · exact .inl hq
  · exact .inr ⟨hnone, hsub q hq, hdir⟩

/-- What is there stays. -/
theorem keeps (h : Paved places a b) {q : Place} {entry : Entry} (hq : a.at? q = some entry) :
    b.at? q = some entry := by
  rcases h.entry q with hb | ⟨hnone, -, -⟩
  · rw [hb, hq]
  · rw [hq] at hnone
    cases hnone

/-- No file is added. -/
theorem file_iff (h : Paved places a b) {q : Place} {contents : Contents} :
    b.at? q = some (.file contents) ↔ a.at? q = some (.file contents) := by
  rcases h.entry q with hb | ⟨hnone, -, hdir⟩
  · rw [hb]
  · rw [hnone, hdir]
    simp

end Paved

theorem makeDirectory_paved (p : Path) (d : Disk) :
    Paved [d.spot p] d ((makeDirectory p).apply d).2 := by
  rw [makeDirectory_apply]
  cases hplace : d.directoryPlace p with
  | error e => exact .refl d
  | ok place =>
    obtain ⟨-, -, -, rfl⟩ := directoryPlace_ok_iff.1 hplace
    show Paved _ d (if (d.at? (d.spot p)).isSome then _ else _ : Except DiskError Unit × Disk).2
    by_cases h : (d.at? (d.spot p)).isSome = true
    · rw [if_pos h]
      exact .refl d
    · rw [if_neg h]
      have hnone : d.at? (d.spot p) = none := by simpa using h
      have hroot : d.spot p ≠ [] := by
        intro hnil
        rw [hnil, at?_root] at hnone
        cases hnone
      refine ⟨rfl, fun q => ?_⟩
      by_cases hq : q = d.spot p
      · subst hq
        exact .inr ⟨hnone, List.mem_cons_self, at?_put d _ _ hroot⟩
      · exact .inl (at?_put_of_ne d _ hq)

theorem start_above {p q : Path} (h : Path.Above p q) (d : Disk) : d.start q = d.start p := by
  unfold start
  rw [h.absolute_eq]

/-- The way to a parent is part of the way to a path. -/
theorem route_above {p q : Path} (h : Path.Above p q) (d : Disk) (c : Place) :
    c ∈ d.way q ↔ c ∈ crossed (d.start p) (h.before ++ (h.idle ++ [h.last])) := by
  have hstart := start_above h d
  have hcrossed : crossed (d.start p) (h.before ++ (h.idle ++ [h.last])) =
      crossed (d.start p) h.before ++ (crossed (spell (d.start p) h.before) h.idle ++
        [spell (d.start p) h.before]) := by
    rw [crossed_append, crossed_append, spell_idle h.idle_idle]
    rfl
  -- idle segments stay where they are
  have hmem : c ∈ crossed (d.start p) (h.before ++ (h.idle ++ [h.last])) ↔
      c ∈ crossed (d.start p) h.before ∨ c = spell (d.start p) h.before := by
    rw [hcrossed, List.mem_append, List.mem_append, List.mem_singleton]
    constructor
    · rintro (hc | hc | hc)
      · exact .inl hc
      · exact .inr (mem_crossed_idle h.idle_idle hc)
      · exact .inr hc
    · rintro (hc | hc)
      · exact .inl hc
      · exact .inr (.inr hc)
  rw [hmem, way, route, spot, hstart, List.mem_append, List.mem_singleton]
  rcases h.parent_eq with hq | ⟨rfl, hbefore⟩
  · rw [hq]
  · -- the segments of the root are empty, so both ways stay at the start
    have hroot : d.start p = [] := by
      rw [← hstart]
      rfl
    have hsegments : Path.segments ⟨"/"⟩ = ["", ""] := by decide
    rw [hsegments, hbefore, hroot]
    simp [crossed, spell, advance, Path.isIdle]

theorem way_parent {p q : Path} (h : Path.Above p q) {d : Disk} {c : Place} (hc : c ∈ d.way q) :
    c ∈ d.route p := by
  rw [route_above h] at hc
  have hsplit : p.segments = (h.before ++ (h.idle ++ [h.last])) ++ h.after := by
    rw [h.segments_eq]
    simp
  rw [route, hsplit, crossed_append]
  exact List.mem_append_left _ hc

theorem way_eq_route {p q : Path} (h : Path.Above p q) (hafter : h.after = []) (d : Disk)
    (c : Place) : c ∈ d.way q ↔ c ∈ d.route p := by
  rw [route_above h, route, h.segments_eq, hafter]

/-- A path on whose way there is more than the start has a parent that leads on
from it. -/
theorem parent_of_route {p : Path} {d : Disk} {c : Place} (htidy : Path.Tidy p)
    (hc : c ∈ d.route p) (hgone : c ≠ d.start p) :
    ∃ q, p.parent? = some q ∧ Nonempty (Path.Above p q) := by
  cases hparent : p.parent? with
  | none => exact absurd (mem_crossed_idle (Path.idle_of_no_parent hparent) hc) hgone
  | some q =>
    rcases Path.parent_above hparent with ⟨-, first, rest, hsegments, htrim⟩ | habove
    · have hsingle : p.segments = [first] := by
        rcases htidy with rfl | ⟨_, _, htwo, hkept⟩
        · cases hparent
        · rw [hsegments] at htwo
          obtain ⟨-, rfl⟩ := List.cons.inj htwo
          rw [hsegments, ← hkept, htrim]
      rw [route, hsingle] at hc
      exact absurd (List.mem_singleton.1 hc) hgone
    · exact ⟨q, rfl, habove⟩

/-- A parent has fewer segments, unless it is the root. -/
theorem length_above {p q : Path} {fuel : Nat} (h : Path.Above p q)
    (hfuel : p.segments.length ≤ fuel + 1) :
    q = ⟨"/"⟩ ∧ 0 < fuel ∨ q.segments.length ≤ fuel := by
  have hlength := congrArg List.length h.segments_eq
  have hbefore := List.length_pos_iff.2 h.before_ne
  simp only [List.length_append, List.length_cons] at hlength
  rcases h.parent_eq with hsegments | ⟨hroot, -⟩
  · rw [hsegments]
    omega
  · exact .inl ⟨hroot, by omega⟩

/-! ### Directories on the way -/

/-- Fails with a cause unless a path names a directory. -/
theorem requireDirectory_apply (p : Path) (cause : DiskError) (d : Disk) :
    (requireDirectory p cause).apply d =
      (if d.isDirectory p then .ok () else .error cause, d) := by
  unfold requireDirectory
  rw [apply_bind, apply_get]
  cases h : d.isDirectory p <;> simp [h]

theorem makeOrFind_apply (p : Path) (d : Disk) :
    (makeOrFind p).apply d =
      match (makeDirectory p).apply d with
      | (.ok (), after) => (.ok (), after)
      | (.error cause, after) =>
        (if after.isDirectory p then .ok () else .error cause, after) := by
  unfold makeOrFind
  rw [apply_bind, apply_attempt]
  cases (makeDirectory p).apply d with
  | mk outcome after =>
    cases outcome with
    | ok u => rfl
    | error cause => exact requireDirectory_apply p cause after

theorem makeDirectoriesFrom_apply (fuel : Nat) (p : Path) (d : Disk) (hp : p.text ≠ "") :
    (makeDirectoriesFrom (fuel + 1) p).apply d =
      match (makeDirectory p).apply d with
      | (.ok (), after) => (.ok (), after)
      | (.error .notFound, after) =>
        match p.parent? with
        | none => (.error .notFound, after)
        | some parent =>
          match (makeDirectoriesFrom fuel parent).apply after with
          | (.error cause, above) => (.error cause, above)
          | (.ok (), above) => (makeOrFind p).apply above
      | (.error cause, after) =>
        (if after.isDirectory p then .ok () else .error cause, after) := by
  rw [makeDirectoriesFrom, if_neg hp, apply_bind, apply_attempt]
  cases (makeDirectory p).apply d with
  | mk outcome after =>
    cases outcome with
    | ok u => rfl
    | error cause =>
      cases cause with
      | notFound =>
        cases p.parent? with
        | none => rfl
        | some parent =>
          show (makeDirectoriesFrom fuel parent >>= _ : Change DiskError Unit).apply after = _
          rw [apply_bind]
          simp only []
          cases (makeDirectoriesFrom fuel parent).apply after with
          | mk outcome above => cases outcome <;> rfl
      | _ => exact requireDirectory_apply p _ after

/-- Directories are only added where nothing is, and only on the way. -/
theorem makeDirectoriesFrom_paved (fuel : Nat) (p : Path) (d : Disk) :
    Paved (d.way p) d ((makeDirectoriesFrom fuel p).apply d).2 := by
  induction fuel generalizing p d with
  | zero => exact .refl d
  | succ fuel ih =>
    by_cases hp : p.text = ""
    · rw [makeDirectoriesFrom, if_pos hp]
      exact .refl d
    -- the directory itself is tried before its parents are made, and after
    · have hone : ∀ e : Disk, e.here = d.here → Paved (d.way p) e ((makeDirectory p).apply e).2 := by
        intro e hhere
        refine (makeDirectory_paved p e).mono fun q hq => ?_
        rw [List.mem_singleton.1 hq, spot_congr hhere]
        exact List.mem_append_right _ List.mem_cons_self
      have hfirst := hone d rfl
      rw [makeDirectoriesFrom_apply fuel p d hp]
      cases hmake : (makeDirectory p).apply d with
      | mk outcome after =>
        rw [hmake] at hfirst
        cases outcome with
        | ok u => exact hfirst
        | error cause =>
          cases cause with
          | notFound =>
            cases hparent : p.parent? with
            | none => exact hfirst
            | some parent =>
              -- the parents lie on the way to the directory
              have habove : Paved (d.way p) after ((makeDirectoriesFrom fuel parent).apply after).2 := by
                rcases Path.parent_above hparent with ⟨hempty, -⟩ | ⟨⟨h⟩⟩
                · cases fuel with
                  | zero => exact .refl after
                  | succ fuel =>
                    rw [makeDirectoriesFrom, if_pos hempty]
                    exact .refl after
                · refine (ih parent after).mono fun q hq => ?_
                  rw [way_congr hfirst.here_eq] at hq
                  exact List.mem_append_left _ (way_parent h hq)
              have hboth := hfirst.trans habove
              simp only []
              cases hrest : (makeDirectoriesFrom fuel parent).apply after with
              | mk outcome above =>
                rw [hrest] at hboth
                cases outcome with
                | error cause => exact hboth
                | ok u =>
                  have hall := hboth.trans (hone above hboth.here_eq)
                  simp only [makeOrFind_apply]
                  cases hagain : (makeDirectory p).apply above with
                  | mk outcome last =>
                    rw [hagain] at hall
                    cases outcome <;> exact hall
          | _ => exact hfirst

theorem makeDirectories_paved (p : Path) (d : Disk) :
    Paved (d.way p) d ((makeDirectories p).apply d).2 := makeDirectoriesFrom_paved _ p d

/-- The way to a path without the empty segments at its end is the same. -/
theorem mem_way_solid {d : Disk} {p : Path} {c : Place} (hc : c ∈ d.way p) :
    c ∈ crossed (d.start p) (solid p) ∨ c = d.spot p := by
  obtain ⟨blank, hsegments, hblank⟩ := solid_append p
  rw [way, route, hsegments, crossed_append, spell_solid, List.mem_append, List.mem_append] at hc
  rcases hc with (hc | hc) | hc
  · exact .inl hc
  · exact .inr (mem_crossed_idle hblank hc)
  · exact .inr (List.mem_singleton.1 hc)

theorem mem_route_solid {d : Disk} {p : Path} {c : Place}
    (hc : c ∈ crossed (d.start p) (solid p)) : c ∈ d.route p := by
  obtain ⟨blank, hsegments, -⟩ := solid_append p
  rw [route, hsegments, crossed_append]
  exact List.mem_append_left _ hc

theorem fits_solid {p : Path} (h : Valid p) : ∀ s ∈ solid p, Fits s := by
  intro s hs
  obtain ⟨blank, hsegments, -⟩ := solid_append p
  refine h.2 s ?_
  rw [hsegments]
  exact List.mem_append_left _ hs

/-- Where the directories above are there and no file is in the place, a
directory is made or found. -/
theorem make_or_found {p : Path} {d : Disk} (hvalid : Valid p)
    (hdirs : ∀ c ∈ crossed (d.start p) (solid p), d.at? c = some .directory)
    (hspot : ∀ contents, d.at? (d.spot p) ≠ some (.file contents)) :
    ((makeDirectory p).apply d).2.isDirectory p = true ∧
      (((makeDirectory p).apply d).1 = .ok () ∨
        ((makeDirectory p).apply d).1 = .error .alreadyExists) ∧
      ((makeOrFind p).apply d).1 = .ok () ∧ ((makeOrFind p).apply d).2.isDirectory p = true := by
  have hplace := directoryPlace_ok_iff.2 ⟨hvalid.1, fits_solid hvalid, hdirs, rfl⟩
  have hpaved := makeDirectory_paved p d
  -- the directory itself is there afterwards
  have hmade : ((makeDirectory p).apply d).2.at? (d.spot p) = some .directory ∧
      (((makeDirectory p).apply d).1 = .ok () ∨
        ((makeDirectory p).apply d).1 = .error .alreadyExists) := by
    rw [makeDirectory_apply, hplace]
    simp only []
    cases hat : d.at? (d.spot p) with
    | none =>
      have hroot : d.spot p ≠ [] := by
        intro hnil
        rw [hnil, at?_root] at hat
        cases hat
      exact ⟨at?_put d _ _ hroot, .inl rfl⟩
    | some entry =>
      cases entry with
      | file contents => exact absurd hat (hspot contents)
      | directory => exact ⟨hat, .inr rfl⟩
  have hfound : ((makeDirectory p).apply d).2.isDirectory p = true := by
    refine isDirectory_iff.2 ⟨hvalid, fun c hc => ?_⟩
    rw [way_congr hpaved.here_eq] at hc
    rcases mem_way_solid hc with hc | rfl
    · exact hpaved.keeps (hdirs c hc)
    · exact hmade.1
  refine ⟨hfound, hmade.2, ?_⟩
  rw [makeOrFind_apply]
  cases hmake : (makeDirectory p).apply d with
  | mk outcome after =>
    rw [hmake] at hfound
    cases outcome with
    | ok u => exact ⟨rfl, hfound⟩
    | error cause =>
      simp only at hfound
      simp [hfound]

/-- Directories are made where no file stands in the way. -/
theorem makeDirectoriesFrom_ok (fuel : Nat) {p : Path} {d : Disk} (hvalid : Valid p)
    (htidy : Path.Tidy p) (hfuel : p = ⟨"/"⟩ ∧ 0 < fuel ∨ p.segments.length ≤ fuel)
    (hstart : d.at? (d.start p) = some .directory)
    (hclear : ∀ c ∈ d.way p, ∀ contents, d.at? c ≠ some (.file contents)) :
    ((makeDirectoriesFrom fuel p).apply d).1 = .ok () ∧
      ((makeDirectoriesFrom fuel p).apply d).2.isDirectory p = true := by
  induction fuel generalizing p d with
  | zero =>
    rcases hfuel with ⟨-, h⟩ | h
    · omega
    · exact absurd (List.length_eq_zero_iff.1 (by omega)) (Path.segments_ne_nil p)
  | succ fuel ih =>
    have hp : p.text ≠ "" := ((check_ok_iff p).1 hvalid.1).2
    have hspot : ∀ contents, d.at? (d.spot p) ≠ some (.file contents) :=
      hclear _ (List.mem_append_right _ List.mem_cons_self)
    rw [makeDirectoriesFrom_apply fuel p d hp]
    have habove : ∀ c ∈ crossed (d.start p) (solid p), ∀ contents,
        d.at? c ≠ some (.file contents) :=
      fun c hc => hclear c (List.mem_append_left _ (mem_route_solid hc))
    rcases walk_clear (fits_solid hvalid) habove with hwalk | ⟨hwalk, hgap⟩
    · -- all directories above are there
      obtain ⟨hfound, hone, -⟩ := make_or_found hvalid (walk_ok_iff.1 hwalk).2.1 hspot
      cases hmake : (makeDirectory p).apply d with
      | mk outcome after =>
        rw [hmake] at hfound hone
        rcases hone with hone | hone
        · simp only at hone
          subst hone
          exact ⟨rfl, hfound⟩
        · simp only at hone hfound
          subst hone
          simp only [hfound, if_true]
          exact ⟨trivial, trivial⟩
    · -- one is missing, and is made first
      have hplace : d.directoryPlace p = .error .notFound := by
        rw [directoryPlace_eq, hvalid.1]
        exact hwalk
      have hmake : (makeDirectory p).apply d = (.error .notFound, d) := by
        rw [makeDirectory_apply, hplace]
      obtain ⟨c, hc, hnone⟩ := hgap
      have hgone : c ≠ d.start p := by
        rintro rfl
        rw [hstart] at hnone
        cases hnone
      obtain ⟨parent, hparent, ⟨h⟩⟩ := parent_of_route htidy (mem_route_solid hc) hgone
      have hway := way_eq_route h (h.after_nil htidy) d
      have hlength : parent = ⟨"/"⟩ ∧ 0 < fuel ∨ parent.segments.length ≤ fuel := by
        rcases hfuel with ⟨rfl, -⟩ | hfuel
        · cases hparent
        · exact length_above h hfuel
      rw [← start_above h] at hstart
      obtain ⟨hok, hfound⟩ := ih (hvalid.above h) h.tidy hlength hstart
        fun q hq => hclear q (List.mem_append_left _ ((hway q).1 hq))
      have hpaved := makeDirectoriesFrom_paved fuel parent d
      simp only [hmake, hparent]
      cases habove : (makeDirectoriesFrom fuel parent).apply d with
      | mk outcome above =>
        rw [habove] at hok hfound hpaved
        simp only at hok hfound hpaved
        subst hok
        have hdirs : ∀ c ∈ crossed (above.start p) (solid p), above.at? c = some .directory := by
          intro c hc
          refine (isDirectory_iff.1 hfound).2 c ?_
          rw [way_congr hpaved.here_eq]
          rw [start_congr hpaved.here_eq] at hc
          exact (hway c).2 (mem_route_solid hc)
        have hkept : ∀ contents, above.at? (above.spot p) ≠ some (.file contents) := by
          intro contents hat
          rw [spot_congr hpaved.here_eq] at hat
          exact hspot contents (hpaved.file_iff.1 hat)
        exact (make_or_found hvalid hdirs hkept).2.2

/-! ### Files -/

/-- The place of a path that ends with a name ends with it. -/
theorem spot_named {p : Path} (h : Path.Named p) (d : Disk) :
    d.spot p = spell (d.start p) p.segments.dropLast ++ [p.leaf] := by
  have hsegments := Path.segments_leaf p
  have hlast : advance (spell (d.start p) p.segments.dropLast) (p.leaf) =
      spell (d.start p) p.segments.dropLast ++ [p.leaf] := by
    rw [advance, if_neg (by rw [h.1]; simp), if_neg h.2]
  rw [spot, hsegments, spell_append, ← hsegments]
  exact hlast

theorem spot_named_ne {p : Path} (h : Path.Named p) (d : Disk) : d.spot p ≠ [] := by
  rw [spot_named h d]
  simp

theorem filePlace_eq (p : Path) (d : Disk) :
    d.filePlace p = match check p with
      | .error e => .error e
      | .ok _ => match d.walk (d.start p) p.segments with
        | .error e => .error e
        | .ok place =>
          if p.leaf = "" then .error .notDirectory
          else if p.leaf = "." ∨ p.leaf = ".." then .error .busy
          else if d.at? place = some .directory then .error .isDirectory
          else .ok place := by
  -- the last segment is one more step of the walk
  have hwalk : d.walk (d.start p) p.segments =
      d.walk (d.start p) p.segments.dropLast >>= fun base => d.step base (p.leaf) := by
    conv_lhs => rw [Path.segments_leaf p]
    unfold walk
    rw [List.foldlM_append]
    congr 1
    funext base
    rw [List.foldlM_cons]
    cases d.step base (p.leaf) <;> rfl
  unfold filePlace
  rw [hwalk]
  cases check p with
  | error e => rfl
  | ok u =>
    show (d.walk (d.start p) p.segments.dropLast >>= _ : Except DiskError Place) = _
    cases d.walk (d.start p) p.segments.dropLast with
    | error e => rfl
    | ok base =>
      show (d.step base (p.leaf) >>= _ : Except DiskError Place) =
        match d.step base (p.leaf) with
        | .error e => _
        | .ok place => _
      cases d.step base (p.leaf) <;> rfl

/-- A file is put at the place that its path spells, if the last segment is a
name and no directory is there. -/
theorem filePlace_ok_iff {p : Path} {d : Disk} {place : Place} :
    d.filePlace p = .ok place ↔
      Valid p ∧ (∀ c ∈ d.route p, d.at? c = some .directory) ∧ Path.Named p ∧
        d.at? (d.spot p) ≠ some .directory ∧ place = d.spot p := by
  rw [filePlace_eq]
  constructor
  · intro h
    cases hcheck : check p with
    | error e =>
      rw [hcheck] at h
      cases h
    | ok u =>
      cases hwalk : d.walk (d.start p) p.segments with
      | error e =>
        rw [hcheck, hwalk] at h
        cases h
      | ok found =>
        obtain ⟨hfits, hdirs, rfl⟩ := walk_ok_iff.1 hwalk
        rw [hcheck, hwalk] at h
        simp only [] at h
        -- the three ways in which the last segment is refused
        split at h
        · cases h
        next hblank =>
          split at h
          · cases h
          next hdots =>
            split at h
            · cases h
            next hdir =>
              rw [not_or] at hdots
              refine ⟨⟨hcheck, hfits⟩, hdirs, ⟨?_, hdots.2⟩, hdir, (Except.ok.inj h).symm⟩
              simp [Path.isIdle, hblank, hdots.1]
  · rintro ⟨⟨hcheck, hfits⟩, hdirs, hnamed, hdir, rfl⟩
    have hwalk : d.walk (d.start p) p.segments = .ok (d.spot p) :=
      walk_ok_iff.2 ⟨hfits, hdirs, rfl⟩
    have hidle := hnamed.1
    simp only [Path.isIdle, Bool.or_eq_false_iff, decide_eq_false_iff_not] at hidle
    rw [hcheck, hwalk]
    simp only []
    rw [if_neg hidle.1, if_neg (by rw [not_or]; exact ⟨hidle.2, hnamed.2⟩), if_neg hdir]

/-- A file is put at its place once the directories above it are made. -/
theorem replaceFile_made {p : Path} {d mid : Disk} (text : String)
    (hmake : (makeDirectories (directoryOf p)).apply d = (.ok (), mid)) :
    (replaceFile p text).apply d =
      match mid.filePlace p with
      | .ok place => (.ok (), mid.put place (.file (.text text)))
      | .error cause => (.error ⟨.replaceFile, p, cause⟩, mid) := by
  unfold replaceFile
  rw [apply_bind, apply_adapt, hmake]
  simp only [Except.mapError]
  rw [apply_bind, apply_get]
  simp only []
  cases mid.filePlace p with
  | ok place => rfl
  | error cause => rfl

/-- Replacing a file adds directories on the way to its directory; then it
fails, or puts the file at the place that its path spells. -/
theorem replaceFile_cases (p : Path) (text : String) (d : Disk) :
    ∃ mid, Paved (d.way (directoryOf p)) d mid ∧
      ((∃ e, (replaceFile p text).apply d = (.error e, mid)) ∨
        (mid.filePlace p = .ok (d.spot p) ∧
          (replaceFile p text).apply d = (.ok (), mid.put (d.spot p) (.file (.text text))))) := by
  refine ⟨((makeDirectories (directoryOf p)).apply d).2, makeDirectories_paved _ d, ?_⟩
  have hpaved := makeDirectories_paved (directoryOf p) d
  cases hmake : (makeDirectories (directoryOf p)).apply d with
  | mk outcome mid =>
    rw [hmake] at hpaved
    cases outcome with
    | error e =>
      refine .inl ⟨⟨.createDirectory, directoryOf p, e⟩, ?_⟩
      unfold replaceFile
      rw [apply_bind, apply_adapt, hmake]
      rfl
    | ok u =>
      rw [replaceFile_made text hmake]
      cases hplace : mid.filePlace p with
      | error cause => exact .inl ⟨_, rfl⟩
      | ok place =>
        obtain ⟨-, -, -, -, rfl⟩ := filePlace_ok_iff.1 hplace
        rw [spot_congr hpaved.here_eq] at hplace ⊢
        exact .inr ⟨rfl, rfl⟩

/-- What was put at the place of a path is read back from the path. -/
theorem readText_put {p : Path} {d : Disk} {text : String} (h : d.filePlace p = .ok (d.spot p)) :
    (d.put (d.spot p) (.file (.text text))).readText p = .ok text := by
  obtain ⟨hvalid, hdirs, hnamed, hdir, -⟩ := filePlace_ok_iff.1 h
  refine readText_ok_iff.2 ⟨hvalid, fun c hc => ?_, at?_put d _ _ (spot_named_ne hnamed d)⟩
  have hne : c ≠ d.spot p := by
    rintro rfl
    exact hdir (hdirs _ hc)
  rw [at?_put_of_ne d _ hne]
  exact hdirs c hc

/-- A path of a single segment leads on from where `.` leads. -/
theorem dot_of_single {p : Path} {first : String} (hsingle : p.segments = [first]) :
    Path.Tidy ⟨"."⟩ ∧ Valid ⟨"."⟩ ∧ (∀ d : Disk, d.start ⟨"."⟩ = d.start p) ∧
      ∀ (d : Disk) c, c ∈ d.way ⟨"."⟩ ↔ c ∈ d.route p := by
  have hrelative : p.isAbsolute = false := by
    rw [Bool.eq_false_iff]
    intro habs
    obtain ⟨tail, htail, heq⟩ := (Path.isAbsolute_iff p).1 habs
    rw [hsingle] at heq
    exact htail (List.cons.inj heq).2.symm
  have hdot : Path.segments ⟨"."⟩ = ["."] := by decide
  have hstart : ∀ d : Disk, d.start ⟨"."⟩ = d.start p := by
    intro d
    rw [start, start, hrelative]
    rfl
  refine ⟨.inr ⟨".", [], hdot, rfl⟩, ⟨by decide, fun s hs => ?_⟩, hstart, fun d c => ?_⟩
  · rw [hdot, List.mem_singleton] at hs
    exact .inl (by rw [hs]; rfl)
  · rw [way, route, spot, route, hdot, hsingle, hstart d]
    simp [crossed, spell, advance, Path.isIdle]

/-- The directory that a named path is written into is the one before its last
segment. -/
theorem directoryOf_named {p : Path} (h : Path.Named p) :
    Path.Tidy (directoryOf p) ∧ (Valid p → Valid (directoryOf p)) ∧
      (∀ d : Disk, d.start (directoryOf p) = d.start p) ∧
      ∀ (d : Disk) c, c ∈ d.way (directoryOf p) ↔ c ∈ d.route p := by
  cases hparent : p.parent? with
  | none => exact absurd hparent h.parent_ne
  | some q =>
    rcases Path.parent_above hparent with ⟨hempty, first, rest, hsegments, htrim⟩ | ⟨⟨habove⟩⟩
    · have hdirectory : directoryOf p = ⟨"."⟩ := by
        rw [directoryOf, hparent]
        exact if_pos hempty
      obtain ⟨htidy, hvalid, hstart, hway⟩ := dot_of_single (h.single hsegments htrim)
      rw [hdirectory]
      exact ⟨htidy, fun _ => hvalid, hstart, hway⟩
    · have hdirectory : directoryOf p = q := by
        rw [directoryOf, hparent]
        exact if_neg habove.text_ne
      rw [hdirectory]
      exact ⟨habove.tidy, fun hvalid => hvalid.above habove, start_above habove,
        way_eq_route habove (habove.after_of_named h)⟩

/-- A file is replaced where no file stands on the way and no directory in its
place. -/
theorem replaceFile_ok {p : Path} {d : Disk} (text : String) (hvalid : Valid p) (hnamed : Path.Named p)
    (hstart : d.at? (d.start p) = some .directory)
    (hclear : ∀ c ∈ d.route p, ∀ contents, d.at? c ≠ some (.file contents))
    (hspot : d.at? (d.spot p) ≠ some .directory) (haside : d.spot p ∉ d.route p) :
    ∃ mid, Paved (d.way (directoryOf p)) d mid ∧
      (replaceFile p text).apply d = (.ok (), mid.put (d.spot p) (.file (.text text))) := by
  obtain ⟨htidy, hvalidDirectory, hstarts, hway⟩ := directoryOf_named hnamed
  rw [← hstarts d] at hstart
  have hlength : directoryOf p = ⟨"/"⟩ ∧ 0 < (directoryOf p).segments.length + 1 ∨
      (directoryOf p).segments.length ≤ (directoryOf p).segments.length + 1 := .inr (by omega)
  obtain ⟨hok, hfound⟩ := makeDirectoriesFrom_ok _ (hvalidDirectory hvalid) htidy hlength hstart
    fun c hc => hclear c ((hway d c).1 hc)
  have hpaved := makeDirectories_paved (directoryOf p) d
  refine ⟨((makeDirectories (directoryOf p)).apply d).2, hpaved, ?_⟩
  cases hmake : (makeDirectories (directoryOf p)).apply d with
  | mk outcome mid =>
    rw [hmake] at hpaved
    have hfrom := hmake
    rw [makeDirectories] at hfrom
    rw [hfrom] at hok hfound
    simp only at hok hfound
    subst hok
    have hdirs : ∀ c ∈ mid.route p, mid.at? c = some .directory := by
      intro c hc
      refine (isDirectory_iff.1 hfound).2 c ?_
      rw [hway]
      exact hc
    -- no directory was added in the place of the file, which does not lie on its own way
    have hfree : mid.at? (mid.spot p) ≠ some .directory := by
      rw [spot_congr hpaved.here_eq]
      rcases hpaved.entry (d.spot p) with heq | ⟨-, hmem, -⟩
      · rw [heq]
        exact hspot
      · exact absurd ((hway d _).1 hmem) haside
    have hplace := filePlace_ok_iff.2 ⟨hvalid, hdirs, hnamed, hfree, rfl⟩
    rw [spot_congr hpaved.here_eq] at hplace
    rw [replaceFile_made text hmake, hplace]

end ScreenHooks.Disk
