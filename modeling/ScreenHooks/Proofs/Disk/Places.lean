/-
The places that a path passes.

There are no links, so a path that leads anywhere leads to the place that its
text spells. What an operation on a path does then depends on the entries at
the places that it passes, and on nothing else.

* **`walk_ok_iff`** — when segments lead somewhere, and where;
* **`locate_ok_iff`** — which entry a path names;
* **`locate_congr`** — only the places on the way count.
-/
import ScreenHooks.Disk.Access
import ScreenHooks.Proofs.Path.Segments

namespace ScreenHooks.Disk

/-! ### Places by text alone -/

/-- The place that a segment leads to, by its text alone. -/
def advance (place : Place) (segment : String) : Place :=
  if Path.isIdle segment then place
  else if segment = ".." then place.dropLast
  else place ++ [segment]

/-- The place that segments lead to, by their text alone. -/
def spell (place : Place) (segments : List String) : Place := segments.foldl advance place

/-- The places that segments lead from, in their order. -/
def crossed (place : Place) : List String → List Place
  | [] => []
  | segment :: rest => place :: crossed (advance place segment) rest

/-- The place that a path spells. -/
def spot (d : Disk) (p : Path) : Place := spell (d.start p) p.segments

/-- The places that a path leads through, its own apart. -/
def route (d : Disk) (p : Path) : List Place := crossed (d.start p) p.segments

/-- The places that a path leads through, with its own. -/
def way (d : Disk) (p : Path) : List Place := d.route p ++ [d.spot p]

theorem spell_append (place : Place) (a b : List String) :
    spell place (a ++ b) = spell (spell place a) b := List.foldl_append

theorem crossed_append (place : Place) (a b : List String) :
    crossed place (a ++ b) = crossed place a ++ crossed (spell place a) b := by
  induction a generalizing place with
  | nil => rfl
  | cons segment rest ih =>
    rw [List.cons_append, crossed, crossed, ih]
    rfl

theorem advance_idle {segment : String} (h : Path.isIdle segment = true) (place : Place) :
    advance place segment = place := if_pos h

/-- Idle segments lead nowhere else. -/
theorem spell_idle {segments : List String} (h : ∀ s ∈ segments, Path.isIdle s = true)
    (place : Place) : spell place segments = place := by
  induction segments with
  | nil => rfl
  | cons segment rest ih =>
    have hfirst := advance_idle (h segment List.mem_cons_self) place
    show spell (advance place segment) rest = place
    rw [hfirst]
    exact ih fun s hs => h s (List.mem_cons_of_mem _ hs)

theorem mem_crossed_idle {segments : List String} (h : ∀ s ∈ segments, Path.isIdle s = true)
    {place q : Place} (hq : q ∈ crossed place segments) : q = place := by
  induction segments with
  | nil => cases hq
  | cons segment rest ih =>
    rw [crossed, advance_idle (h segment List.mem_cons_self)] at hq
    rcases List.mem_cons.1 hq with rfl | hq
    · rfl
    · exact ih (fun s hs => h s (List.mem_cons_of_mem _ hs)) hq

/-! ### Steps and walks -/

/-- Whether a segment is no name that is too long. -/
def Fits (segment : String) : Prop :=
  Path.isIdle segment = true ∨ segment = ".." ∨ segment.utf8ByteSize ≤ maxNameSize

instance instDecidableFits (segment : String) : Decidable (Fits segment) :=
  inferInstanceAs (Decidable (_ ∨ _ ∨ _))

theorem step_eq {d : Disk} {place : Place} {segment : String}
    (hplace : d.at? place = some .directory) (hfits : Fits segment) :
    d.step place segment = .ok (advance place segment) := by
  simp only [step, hplace, advance]
  split
  · rfl
  next hidle =>
    split
    · rfl
    next hup =>
      rw [if_neg]
      rcases hfits with h | h | h
      · exact absurd h hidle
      · exact absurd h hup
      · omega

/-- A step leads from a directory to the place that it spells. -/
theorem step_ok {d : Disk} {place next : Place} {segment : String}
    (h : d.step place segment = .ok next) :
    d.at? place = some .directory ∧ Fits segment ∧ next = advance place segment := by
  have hplace := step_ok_iff d place next segment h
  simp only [step, hplace] at h
  by_cases hidle : Path.isIdle segment = true
  · rw [if_pos hidle] at h
    refine ⟨hplace, .inl hidle, ?_⟩
    rw [advance, if_pos hidle]
    exact (Except.ok.inj h).symm
  · rw [if_neg hidle] at h
    by_cases hup : segment = ".."
    · rw [if_pos hup] at h
      refine ⟨hplace, .inr (.inl hup), ?_⟩
      rw [advance, if_neg hidle, if_pos hup]
      exact (Except.ok.inj h).symm
    · rw [if_neg hup] at h
      split at h
      · cases h
      next hsize =>
        refine ⟨hplace, .inr (.inr (by omega)), ?_⟩
        rw [advance, if_neg hidle, if_neg hup]
        exact (Except.ok.inj h).symm

theorem walk_cons (d : Disk) (place : Place) (segment : String) (rest : List String) :
    d.walk place (segment :: rest) = d.step place segment >>= fun next => d.walk next rest := rfl

/-- Segments lead somewhere if the places on the way are directories and no
name is too long; they lead to the place that they spell. -/
theorem walk_ok_iff {d : Disk} {place q : Place} {segments : List String} :
    d.walk place segments = .ok q ↔
      (∀ s ∈ segments, Fits s) ∧ (∀ c ∈ crossed place segments, d.at? c = some .directory) ∧
        q = spell place segments := by
  -- each step needs a directory to start from and a name that fits
  induction segments generalizing place with
  | nil =>
    constructor
    · intro h
      exact ⟨by simp, by simp [crossed], (Except.ok.inj h).symm⟩
    · rintro ⟨-, -, rfl⟩
      rfl
  | cons segment rest ih =>
    rw [walk_cons]
    constructor
    · intro h
      cases hstep : d.step place segment with
      | error e => rw [hstep] at h; cases h
      | ok next =>
        rw [hstep] at h
        obtain ⟨hplace, hfits, rfl⟩ := step_ok hstep
        obtain ⟨hall, hdirs, hq⟩ := ih.1 h
        refine ⟨?_, ?_, hq⟩
        · intro s hs
          rcases List.mem_cons.1 hs with rfl | hs
          · exact hfits
          · exact hall s hs
        · intro c hc
          rcases List.mem_cons.1 hc with rfl | hc
          · exact hplace
          · exact hdirs c hc
    · rintro ⟨hall, hdirs, hq⟩
      rw [step_eq (hdirs place List.mem_cons_self) (hall segment List.mem_cons_self)]
      exact ih.2 ⟨fun s hs => hall s (List.mem_cons_of_mem _ hs),
        fun c hc => hdirs c (List.mem_cons_of_mem _ hc), hq⟩

/-- Where no file stands in the way and no name is too long, segments lead
somewhere or a directory is missing. -/
theorem walk_clear {d : Disk} {place : Place} {segments : List String}
    (hfits : ∀ s ∈ segments, Fits s)
    (hclear : ∀ c ∈ crossed place segments, ∀ contents, d.at? c ≠ some (.file contents)) :
    d.walk place segments = .ok (spell place segments) ∨
      (d.walk place segments = .error .notFound ∧ ∃ c ∈ crossed place segments, d.at? c = none) := by
  induction segments generalizing place with
  | nil => exact .inl rfl
  | cons segment rest ih =>
    have hplace := hclear place List.mem_cons_self
    rw [walk_cons]
    cases hat : d.at? place with
    | none =>
      have hstep : d.step place segment = .error .notFound := by simp only [step, hat]
      rw [hstep]
      exact .inr ⟨rfl, place, List.mem_cons_self, hat⟩
    | some entry =>
      cases entry with
      | file contents => exact absurd hat (hplace contents)
      | directory =>
        rw [step_eq hat (hfits segment List.mem_cons_self)]
        rcases ih (fun s hs => hfits s (List.mem_cons_of_mem _ hs))
          (fun c hc => hclear c (List.mem_cons_of_mem _ hc)) with h | ⟨h, c, hc, hnone⟩
        · exact .inl h
        · exact .inr ⟨h, c, List.mem_cons_of_mem _ hc, hnone⟩

/-! ### Entries that paths name -/

theorem check_ok_iff (p : Path) :
    check p = .ok () ↔ '\x00' ∉ p.text.toList ∧ p.text ≠ "" := by
  unfold check
  split
  next h => simp_all
  next h => split <;> simp_all

/-- Whether a system call takes a path: it is not empty, has no NUL, and no
name in it is too long. -/
def Valid (p : Path) : Prop := check p = .ok () ∧ ∀ s ∈ p.segments, Fits s

instance instDecidableValid (p : Path) : Decidable (Valid p) :=
  inferInstanceAs (Decidable (_ ∧ ∀ s ∈ p.segments, Fits s))

/-- A path that goes on from a valid parent leaves the parent valid. -/
theorem Valid.above {p q : Path} (hp : Valid p) (h : Path.Above p q) : Valid q := by
  obtain ⟨hcheck, hfits⟩ := hp
  have hnul := ((check_ok_iff p).1 hcheck).1
  have hslash : '\x00' ≠ '/' := by decide
  refine ⟨(check_ok_iff q).2 ⟨?_, h.text_ne⟩, ?_⟩
  · intro hq
    obtain ⟨s, hs, hc⟩ := (Path.mem_segments_iff hslash q).2 hq
    rcases h.mem_segments hs with hs | rfl
    · exact hnul ((Path.mem_segments_iff hslash p).1 ⟨s, hs, hc⟩)
    · simp at hc
  · intro s hs
    rcases h.mem_segments hs with hs | rfl
    · exact hfits s hs
    · exact .inl rfl

/-- A path names an entry if all before it are directories. -/
theorem locate_ok_iff {d : Disk} {p : Path} {q : Place} {entry : Entry} :
    d.locate p = .ok (q, entry) ↔
      Valid p ∧ (∀ c ∈ d.route p, d.at? c = some .directory) ∧ q = d.spot p ∧
        d.at? q = some entry := by
  constructor
  · intro h
    unfold locate at h
    cases hcheck : check p with
    | error e =>
      rw [hcheck] at h
      cases h
    | ok u =>
      cases hwalk : d.walk (d.start p) p.segments with
      | error e =>
        rw [hcheck, hwalk] at h
        cases h
      | ok place =>
        obtain ⟨hfits, hdirs, hplace⟩ := walk_ok_iff.1 hwalk
        rw [hcheck, hwalk] at h
        cases hat : d.at? place with
        | none => simp [bind, Except.bind, hat] at h
        | some found =>
          simp only [bind, Except.bind, hat, Except.ok.injEq, Prod.mk.injEq] at h
          obtain ⟨rfl, rfl⟩ := h
          exact ⟨⟨hcheck, hfits⟩, hdirs, hplace, hat⟩
  · rintro ⟨⟨hcheck, hfits⟩, hdirs, rfl, hat⟩
    have hwalk : d.walk (d.start p) p.segments = .ok (d.spot p) :=
      walk_ok_iff.2 ⟨hfits, hdirs, rfl⟩
    unfold locate
    rw [hcheck, hwalk]
    simp [bind, Except.bind, hat]

theorem isFile_iff {d : Disk} {p : Path} :
    d.isFile p = true ↔
      Valid p ∧ (∀ c ∈ d.route p, d.at? c = some .directory) ∧
        ∃ contents, d.at? (d.spot p) = some (.file contents) := by
  constructor
  · intro h
    unfold isFile at h
    split at h
    next q contents hlocate =>
      obtain ⟨hvalid, hdirs, rfl, hat⟩ := locate_ok_iff.1 hlocate
      exact ⟨hvalid, hdirs, contents, hat⟩
    next => cases h
  · rintro ⟨hvalid, hdirs, contents, hat⟩
    have hlocate := locate_ok_iff.2 ⟨hvalid, hdirs, rfl, hat⟩
    simp [isFile, hlocate]

theorem isDirectory_iff {d : Disk} {p : Path} :
    d.isDirectory p = true ↔ Valid p ∧ ∀ c ∈ d.way p, d.at? c = some .directory := by
  unfold way
  constructor
  · intro h
    unfold isDirectory at h
    split at h
    next q hlocate =>
      obtain ⟨hvalid, hdirs, rfl, hat⟩ := locate_ok_iff.1 hlocate
      refine ⟨hvalid, fun c hc => ?_⟩
      rcases List.mem_append.1 hc with hc | hc
      · exact hdirs c hc
      · rw [List.mem_singleton.1 hc]
        exact hat
    next => cases h
  · rintro ⟨hvalid, hdirs⟩
    have hlocate := locate_ok_iff.2 ⟨hvalid, fun c hc => hdirs c (List.mem_append_left _ hc), rfl,
      hdirs _ (List.mem_append_right _ List.mem_cons_self)⟩
    simp [isDirectory, hlocate]

theorem readText_ok_iff {d : Disk} {p : Path} {text : String} :
    d.readText p = .ok text ↔
      Valid p ∧ (∀ c ∈ d.route p, d.at? c = some .directory) ∧
        d.at? (d.spot p) = some (.file (.text text)) := by
  constructor
  · intro h
    unfold readText at h
    cases hlocate : d.locate p with
    | error e =>
      rw [hlocate] at h
      cases h
    | ok found =>
      obtain ⟨q, entry⟩ := found
      obtain ⟨hvalid, hdirs, rfl, hat⟩ := locate_ok_iff.1 hlocate
      rw [hlocate] at h
      refine ⟨hvalid, hdirs, ?_⟩
      rw [hat]
      cases entry with
      | directory => cases h
      | file contents =>
        cases contents with
        | text found => rw [show found = text from Except.ok.inj h]
        | binary bytes => cases h
  · rintro ⟨hvalid, hdirs, hat⟩
    have hlocate := locate_ok_iff.2 ⟨hvalid, hdirs, rfl, hat⟩
    simp [readText, hlocate, bind, Except.bind]

/-- Whether a path leads to its place: it is valid, and all before its place are
directories. -/
def Reaches (d : Disk) (p : Path) : Prop :=
  Valid p ∧ ∀ c ∈ d.route p, d.at? c = some .directory

instance instDecidableReaches (d : Disk) (p : Path) : Decidable (d.Reaches p) :=
  inferInstanceAs (Decidable (_ ∧ ∀ c ∈ d.route p, d.at? c = some .directory))

theorem readText_of_reaches {d : Disk} {p : Path} (h : d.Reaches p) :
    d.readText p = match d.at? (d.spot p) with
      | none => .error .notFound
      | some .directory => .error .isDirectory
      | some (.file (.text text)) => .ok text
      | some (.file (.binary _)) => .error .notText := by
  cases hat : d.at? (d.spot p) with
  | none =>
    have hwalk : d.walk (d.start p) p.segments = .ok (d.spot p) :=
      walk_ok_iff.2 ⟨h.1.2, h.2, rfl⟩
    unfold readText locate
    rw [h.1.1, hwalk]
    simp [bind, Except.bind, hat]
  | some entry =>
    have hlocate := locate_ok_iff.2 ⟨h.1, h.2, rfl, hat⟩
    cases entry with
    | directory => simp [readText, hlocate, bind, Except.bind]
    | file contents => cases contents <;> simp [readText, hlocate, bind, Except.bind]

theorem readIfExists_some_iff {d : Disk} {p : Path} {text : String} :
    d.readIfExists p = .ok (some text) ↔
      d.Reaches p ∧ d.at? (d.spot p) = some (.file (.text text)) := by
  unfold readIfExists Reaches
  rw [and_assoc, ← readText_ok_iff]
  split
  next found hread => simp [hread]
  next hread => simp [hread]
  next hread => simp [hread]

/-! ### Disks that look alike on the way -/

/-- Both entries are files, both are directories, or there is none. -/
inductive SameKind : Option Entry → Option Entry → Prop where
  | absent : SameKind none none
  | directory : SameKind (some .directory) (some .directory)
  | file (a b : Contents) : SameKind (some (.file a)) (some (.file b))

theorem SameKind.refl (a : Option Entry) : SameKind a a := by
  cases a with
  | none => exact .absent
  | some entry =>
    cases entry with
    | directory => exact .directory
    | file contents => exact .file contents contents

theorem SameKind.symm {a b : Option Entry} (h : SameKind a b) : SameKind b a := by
  cases h with
  | absent => exact .absent
  | directory => exact .directory
  | file a b => exact .file b a

theorem SameKind.directory_eq {a : Option Entry} (h : SameKind a (some .directory)) :
    a = some .directory := by
  cases h
  rfl

theorem step_congr {d d' : Disk} {place : Place} (h : SameKind (d.at? place) (d'.at? place))
    (segment : String) : d.step place segment = d'.step place segment := by
  unfold step
  cases hd : d.at? place with
  | none =>
    rw [hd] at h
    generalize d'.at? place = found at h
    cases h
    rfl
  | some entry =>
    rw [hd] at h
    generalize d'.at? place = found at h
    cases h <;> rfl

theorem walk_congr {d d' : Disk} {place : Place} {segments : List String}
    (h : ∀ c ∈ crossed place segments, SameKind (d.at? c) (d'.at? c)) :
    d.walk place segments = d'.walk place segments := by
  induction segments generalizing place with
  | nil => rfl
  | cons segment rest ih =>
    rw [walk_cons, walk_cons, step_congr (h place List.mem_cons_self)]
    cases hstep : d'.step place segment with
    | error e => rfl
    | ok next =>
      obtain ⟨-, -, rfl⟩ := step_ok hstep
      exact ih fun c hc => h c (List.mem_cons_of_mem _ hc)

theorem start_congr {d d' : Disk} (hhere : d.here = d'.here) (p : Path) :
    d.start p = d'.start p := by
  unfold start
  rw [hhere]

theorem spot_congr {d d' : Disk} (hhere : d.here = d'.here) (p : Path) : d.spot p = d'.spot p := by
  unfold spot
  rw [start_congr hhere]

theorem route_congr {d d' : Disk} (hhere : d.here = d'.here) (p : Path) :
    d.route p = d'.route p := by
  unfold route
  rw [start_congr hhere]

theorem way_congr {d d' : Disk} (hhere : d.here = d'.here) (p : Path) : d.way p = d'.way p := by
  unfold way
  rw [route_congr hhere, spot_congr hhere]

/-- What a path names depends on the kinds of the entries before it and on its
own entry. -/
theorem locate_congr {d d' : Disk} {p : Path} (hhere : d.here = d'.here)
    (hroute : ∀ c ∈ d.route p, SameKind (d.at? c) (d'.at? c))
    (hspot : d.at? (d.spot p) = d'.at? (d.spot p)) : d.locate p = d'.locate p := by
  unfold locate
  rw [← start_congr hhere, walk_congr hroute]
  cases check p with
  | error e => rfl
  | ok u =>
    cases hwalk : d'.walk (d.start p) p.segments with
    | error e => rfl
    | ok place =>
      obtain ⟨-, -, rfl⟩ := walk_ok_iff.1 hwalk
      rw [spot] at hspot
      simp only [bind, Except.bind]
      rw [hspot]

/-- Whether a path names a file depends on the kinds of the entries on its
way. -/
theorem isFile_congr {d d' : Disk} {p : Path} (hhere : d.here = d'.here)
    (hway : ∀ c ∈ d.way p, SameKind (d.at? c) (d'.at? c)) : d.isFile p = d'.isFile p := by
  -- one direction for any two disks
  have key : ∀ {a b : Disk}, a.here = b.here →
      (∀ c ∈ a.way p, SameKind (a.at? c) (b.at? c)) → a.isFile p = true → b.isFile p = true := by
    intro a b hhere hway h
    obtain ⟨hvalid, hdirs, contents, hat⟩ := isFile_iff.1 h
    refine isFile_iff.2 ⟨hvalid, ?_, ?_⟩
    · intro c hc
      rw [← route_congr hhere] at hc
      have hkind := (hway c (List.mem_append_left _ hc)).symm
      rw [hdirs c hc] at hkind
      exact hkind.directory_eq
    · have hkind := hway _ (List.mem_append_right _ List.mem_cons_self)
      rw [hat] at hkind
      rw [← spot_congr hhere]
      generalize b.at? (a.spot p) = found at hkind
      cases hkind with
      | file _ other => exact ⟨other, rfl⟩
  apply Bool.eq_iff_iff.2
  constructor
  · exact key hhere hway
  · refine key hhere.symm fun c hc => (hway c ?_).symm
    rw [way_congr hhere]
    exact hc

theorem readText_congr {d d' : Disk} {p : Path} (hhere : d.here = d'.here)
    (hroute : ∀ c ∈ d.route p, SameKind (d.at? c) (d'.at? c))
    (hspot : d.at? (d.spot p) = d'.at? (d.spot p)) : d.readText p = d'.readText p := by
  unfold readText
  rw [locate_congr hhere hroute hspot]

theorem readIfExists_congr {d d' : Disk} {p : Path} (hhere : d.here = d'.here)
    (hroute : ∀ c ∈ d.route p, SameKind (d.at? c) (d'.at? c))
    (hspot : d.at? (d.spot p) = d'.at? (d.spot p)) : d.readIfExists p = d'.readIfExists p := by
  unfold readIfExists
  rw [readText_congr hhere hroute hspot]

end ScreenHooks.Disk
