/-
Documents, written and read back.

A value whose numbers are integers of 64 bits and whose objects have one member
for each key is read back from its pretty text, as long as no more containers
lie inside each other than the reader allows. Every value that is read is of
this kind, doubles apart.

* **`readValue_prettyAt`** — a value is read back, whatever follows it;
* **`read_pretty`** — documents are read back;
* **`legible_of_document`** — what is read can be written and read again.
-/
import ScreenHooks.Proofs.Json.Tokens
import ScreenHooks.Proofs.Table

namespace ScreenHooks.Json

/-! ### Values that can be read back -/

mutual

/-- Whether all numbers of a value are integers. -/
def isIntegral : Json → Bool
  | .null | .bool _ | .string _ | .number (.integer _) => true
  | .number (.double _) => false
  | .array items => itemsIntegral items
  | .object members => membersIntegral members

/-- Whether all numbers of items are integers. -/
def itemsIntegral : List Json → Bool
  | [] => true
  | item :: items => isIntegral item && itemsIntegral items

/-- Whether all numbers of members are integers. -/
def membersIntegral : List (String × Json) → Bool
  | [] => true
  | (_, value) :: members => isIntegral value && membersIntegral members

end

theorem itemsIntegral_iff {items : List Json} :
    itemsIntegral items = true ↔ ∀ item ∈ items, isIntegral item = true := by
  induction items with
  | nil => simp [itemsIntegral]
  | cons item rest ih => rw [itemsIntegral, Bool.and_eq_true, ih, List.forall_mem_cons]

theorem membersIntegral_iff {members : List (String × Json)} :
    membersIntegral members = true ↔ ∀ member ∈ members, isIntegral member.2 = true := by
  induction members with
  | nil => simp [membersIntegral]
  | cons member rest ih => rw [membersIntegral, Bool.and_eq_true, ih, List.forall_mem_cons]

/-- Values that can be read back from their text where the given number of
containers may still be opened inside each other. -/
inductive Legible : Nat → Json → Prop where
  | null (depth : Nat) : Legible depth .null
  | bool (depth : Nat) (value : Bool) : Legible depth (.bool value)
  | integer (depth : Nat) (z : Int) (hz : Word z) : Legible depth (.number (.integer z))
  | string (depth : Nat) (s : String) : Legible depth (.string s)
  | array (depth : Nat) (items : List Json) (hitems : ∀ item ∈ items, Legible depth item) :
      Legible (depth + 1) (.array items)
  | object (depth : Nat) (members : List (String × Json))
      (hkeys : (Table.keys members).Nodup)
      (hmembers : ∀ member ∈ members, Legible depth member.2) :
      Legible (depth + 1) (.object members)

theorem legible_object_iff {depth : Nat} {members : List (String × Json)} :
    Legible (depth + 1) (.object members) ↔
      (Table.keys members).Nodup ∧ ∀ member ∈ members, Legible depth member.2 := by
  constructor
  · intro h
    cases h with
    | object _ _ hkeys hmembers => exact ⟨hkeys, hmembers⟩
  · rintro ⟨hkeys, hmembers⟩
    exact .object depth members hkeys hmembers

/-! ### Blanks -/

theorem skipSpace_newline (level : Nat) (cs : List Char) :
    skipSpace (newline level ++ cs) = skipSpace cs := by
  have hblank : ∀ c ∈ newline level, isSpace c = true := by
    intro c hc
    rcases List.mem_cons.1 hc with rfl | hc
    · rfl
    · rw [List.eq_of_mem_replicate hc]
      rfl
  exact List.dropWhile_append_of_pos hblank

/-- A text that does not begin with a blank. -/
theorem skipSpace_of_head {c : Char} (cs : List Char) (h : isSpace c = false) :
    skipSpace (c :: cs) = c :: cs := List.dropWhile_cons_of_neg (by simp [h])

theorem readValue_newline (fuel depth level : Nat) (cs : List Char) :
    readValue fuel depth (newline level ++ cs) = readValue fuel depth cs := by
  cases fuel with
  | zero => rfl
  | succ fuel => rw [readValue, readValue, skipSpace_newline]

theorem readItems_newline (fuel depth level : Nat) (cs : List Char) :
    readItems fuel depth (newline level ++ cs) = readItems fuel depth cs := by
  cases fuel with
  | zero => rfl
  | succ fuel => rw [readItems, readItems, readValue_newline]

theorem readMembers_newline (fuel depth level : Nat) (cs : List Char) :
    readMembers fuel depth (newline level ++ cs) = readMembers fuel depth cs := by
  cases fuel with
  | zero => rfl
  | succ fuel => rw [readMembers, readMembers, skipSpace_newline]

/-! ### How texts begin -/

/-- The first characters of values. -/
def opens (c : Char) : Bool :=
  c == '"' || c == '[' || c == '\x7b' || c == 'n' || c == 't' || c == 'f' || c == '-' || c.isDigit

theorem opens_spec {c : Char} (h : opens c = true) : isSpace c = false ∧ c ≠ ']' := by
  constructor
  · rw [Bool.eq_false_iff]
    intro hspace
    simp only [isSpace, Bool.or_eq_true, beq_iff_eq] at hspace
    rcases hspace with ((rfl | rfl) | rfl) | rfl <;> exact absurd h (by decide)
  · rintro rfl
    exact absurd h (by decide)

theorem textOfInt_head (z : Int) : ∃ c cs, textOfInt z = c :: cs ∧ (c = '-' ∨ c.isDigit = true) := by
  cases z with
  | ofNat n =>
    cases hdigits : Decimal.digitsOf n with
    | nil => exact absurd hdigits (digitsOf_ne_nil n)
    | cons c cs =>
      exact ⟨c, cs, hdigits, .inr (isDigit_digitsOf (by rw [hdigits]; exact List.mem_cons_self))⟩
  | negSucc n => exact ⟨'-', _, rfl, .inl rfl⟩

theorem prettyAt_head {depth : Nat} {v : Json} (h : Legible depth v) (level : Nat) :
    ∃ c cs, prettyAt level v = c :: cs ∧ opens c = true := by
  cases h with
  | null => exact ⟨_, _, rfl, by decide⟩
  | bool _ value => cases value <;> exact ⟨_, _, rfl, by decide⟩
  | integer _ z =>
    obtain ⟨c, cs, htext, hc⟩ := textOfInt_head z
    refine ⟨c, cs, htext, ?_⟩
    rcases hc with rfl | hc
    · decide
    · simp [opens, hc]
  | string => exact ⟨_, _, rfl, by decide⟩
  | array _ items => cases items <;> exact ⟨_, _, by rw [prettyAt], by decide⟩
  | object _ members => cases members <;> exact ⟨_, _, by rw [prettyAt], by decide⟩

/-! ### Reading what was written -/

/-- What can be read back at a level of indentation, whatever follows. -/
def ReadsBack (depth level : Nat) (v : Json) : Prop :=
  ∀ fuel rest, (prettyAt level v).length < fuel → Ends rest →
    readValue fuel depth (prettyAt level v ++ rest) = some (v, rest)

/-- Reading takes a step. -/
theorem ReadsBack.of_step {depth level : Nat} {v : Json}
    (h : ∀ fuel rest, (prettyAt level v).length < fuel + 1 → Ends rest →
      readValue (fuel + 1) depth (prettyAt level v ++ rest) = some (v, rest)) :
    ReadsBack depth level v := by
  intro fuel rest hfuel hends
  cases fuel with
  | zero => exact absurd hfuel (Nat.not_lt_zero _)
  | succ fuel => exact h fuel rest hfuel hends

/-- Items are read back up to the bracket after them. -/
theorem readItems_pretty {depth level : Nat} (outer : Nat) {item : Json} {items : List Json}
    (h : ∀ v ∈ item :: items, ReadsBack depth level v) {fuel : Nat}
    (hfuel : (prettyAt level item).length + (prettyItems level items).length + 1 < fuel)
    (rest : List Char) :
    readItems fuel depth (prettyAt level item ++ (prettyItems level items ++
      (newline outer ++ ']' :: rest))) = some (item :: items, rest) := by
  -- every item but the last one has a comma and another item behind it
  induction items generalizing item fuel with
  | nil =>
    cases fuel with
    | zero => omega
    | succ fuel =>
      have hitem := h item List.mem_cons_self fuel (newline outer ++ ']' :: rest) (by omega)
        (Ends.newline outer _)
      rw [prettyItems, List.nil_append, readItems, hitem]
      simp only [skipSpace_newline, skipSpace_of_head rest (show isSpace ']' = false by decide)]
  | cons next more ih =>
    cases fuel with
    | zero => omega
    | succ fuel =>
      rw [prettyItems, List.length_cons, List.length_append, List.length_append] at hfuel
      have hitem := h item List.mem_cons_self fuel _ (by omega)
        (Ends.comma (newline level ++ (prettyAt level next ++ (prettyItems level more ++
          (newline outer ++ ']' :: rest)))))
      have hmore : readItems fuel depth (prettyAt level next ++ (prettyItems level more ++
          (newline outer ++ ']' :: rest))) = some (next :: more, rest) :=
        ih (fun v hv => h v (List.mem_cons_of_mem _ hv)) (by omega)
      rw [prettyItems]
      simp only [List.cons_append, List.append_assoc]
      rw [readItems, hitem]
      simp only []
      rw [skipSpace_of_head _ (by decide)]
      simp only [readItems_newline, hmore, Option.map_some]

/-- A member is read back, the last one and one before others. -/
theorem readMembers_member {depth level fuel : Nat} {member : String × Json}
    (h : ReadsBack depth level member.2) (hfuel : (prettyMember level member).length < fuel) :
    (∀ outer rest, readMembers (fuel + 1) depth
        (prettyMember level member ++ (newline outer ++ '\x7d' :: rest)) = some ([member], rest)) ∧
      ∀ rest, readMembers (fuel + 1) depth (prettyMember level member ++ ',' :: rest) =
        (readMembers fuel depth rest).map fun found => (member :: found.1, found.2) := by
  obtain ⟨key, value⟩ := member
  have hlength : (prettyAt level value).length < fuel := by
    rw [prettyMember, List.length_append, List.length_cons, List.length_cons] at hfuel
    omega
  have htext : ∀ rest, prettyMember level (key, value) ++ rest =
      '"' :: (key.toList.flatMap escapeChar ++
        '"' :: ':' :: ' ' :: (prettyAt level value ++ rest)) := by
    intro rest
    simp [prettyMember, quote]
  -- the blank after the colon belongs to no value
  have hvalue : ∀ rest, Ends rest →
      readValue fuel depth (' ' :: (prettyAt level value ++ rest)) = some (value, rest) := by
    intro rest hends
    rw [← h fuel rest hlength hends]
    cases fuel with
    | zero => rfl
    | succ fuel => rw [readValue, readValue]; rfl
  constructor
  · intro outer rest
    rw [htext, readMembers, skipSpace_of_head _ (by decide)]
    simp only [readString_quote, skipSpace_of_head _ (show isSpace ':' = false by decide),
      hvalue _ (Ends.newline outer _), String.ofList_toList, skipSpace_newline,
      skipSpace_of_head rest (show isSpace '\x7d' = false by decide)]
  · intro rest
    rw [htext, readMembers, skipSpace_of_head _ (by decide)]
    simp only [readString_quote, skipSpace_of_head _ (show isSpace ':' = false by decide),
      hvalue _ (Ends.comma _), String.ofList_toList,
      skipSpace_of_head rest (show isSpace ',' = false by decide)]

/-- Members are read back up to the brace after them. -/
theorem readMembers_pretty {depth level : Nat} (outer : Nat) {member : String × Json}
    {members : List (String × Json)} (h : ∀ m ∈ member :: members, ReadsBack depth level m.2)
    {fuel : Nat}
    (hfuel : (prettyMember level member).length + (prettyMembers level members).length + 1 < fuel)
    (rest : List Char) :
    readMembers fuel depth (prettyMember level member ++ (prettyMembers level members ++
      (newline outer ++ '\x7d' :: rest))) = some (member :: members, rest) := by
  induction members generalizing member fuel with
  | nil =>
    cases fuel with
    | zero => omega
    | succ fuel =>
      rw [prettyMembers, List.nil_append]
      exact (readMembers_member (h member List.mem_cons_self) (by omega)).1 outer rest
  | cons next more ih =>
    cases fuel with
    | zero => omega
    | succ fuel =>
      rw [prettyMembers, List.length_cons, List.length_append, List.length_append] at hfuel
      have hmore : readMembers fuel depth (prettyMember level next ++ (prettyMembers level more ++
          (newline outer ++ '\x7d' :: rest))) = some (next :: more, rest) :=
        ih (fun m hm => h m (List.mem_cons_of_mem _ hm)) (by omega)
      rw [prettyMembers]
      simp only [List.cons_append, List.append_assoc]
      rw [(readMembers_member (h member List.mem_cons_self) (by omega)).2, readMembers_newline,
        hmore]
      rfl

/-- A text that begins with a minus or a digit is read as a number. -/
theorem readValue_number {fuel depth : Nat} {c : Char} {cs : List Char}
    (h : c = '-' ∨ c.isDigit = true) :
    readValue (fuel + 1) depth (c :: cs) =
      (readNumber (c :: cs)).map fun (n, rest) => (.number n, rest) := by
  have hother : ∀ d : Char, d ≠ '-' → d.isDigit = false → c ≠ d := by
    rintro d hminus hdigit rfl
    rcases h with h | h
    · exact hminus h
    · exact absurd (hdigit ▸ h) (by decide)
  have hspace : isSpace c = false := by
    simp only [isSpace, Bool.or_eq_false_iff, beq_eq_false_iff_ne]
    exact ⟨⟨⟨hother _ (by decide) (by decide), hother _ (by decide) (by decide)⟩,
      hother _ (by decide) (by decide)⟩, hother _ (by decide) (by decide)⟩
  rw [readValue, skipSpace_of_head cs hspace]
  split
  next heq => exact absurd (List.cons.inj heq).1 (hother _ (by decide) (by decide))
  next heq => exact absurd (List.cons.inj heq).1 (hother _ (by decide) (by decide))
  next heq => exact absurd (List.cons.inj heq).1 (hother _ (by decide) (by decide))
  next heq => exact absurd (List.cons.inj heq).1 (hother _ (by decide) (by decide))
  next heq => exact absurd (List.cons.inj heq).1 (hother _ (by decide) (by decide))
  next heq => exact absurd (List.cons.inj heq).1 (hother _ (by decide) (by decide))
  next => rfl

/-- A bracket whose first item is read back opens the array of the items. -/
theorem readValue_items {fuel depth level : Nat} {c : Char} {cs rest : List Char}
    {items : List Json} (hc : opens c = true)
    (h : readItems fuel depth (c :: cs) = some (items, rest)) :
    readValue (fuel + 1) (depth + 1) ('[' :: (newline level ++ c :: cs)) =
      some (.array items, rest) := by
  obtain ⟨hspace, hclose⟩ := opens_spec hc
  rw [readValue, skipSpace_of_head _ (by decide)]
  simp only [Nat.add_eq_zero_iff, Nat.succ_ne_self, and_false, if_false, skipSpace_newline,
    skipSpace_of_head cs hspace, Nat.add_sub_cancel]
  split
  next heq => exact absurd (List.cons.inj heq).1 hclose
  next => rw [h]; rfl

/-- A brace whose first member is read back opens the object of the members. -/
theorem readValue_members {fuel depth level : Nat} {cs rest : List Char}
    {members : List (String × Json)} (h : readMembers fuel depth ('"' :: cs) = some (members, rest)) :
    readValue (fuel + 1) (depth + 1) ('\x7b' :: (newline level ++ '"' :: cs)) =
      some (.object (Table.newest members), rest) := by
  rw [readValue, skipSpace_of_head _ (by decide)]
  simp only [Nat.add_eq_zero_iff, Nat.succ_ne_self, and_false, if_false, skipSpace_newline,
    skipSpace_of_head cs (show isSpace '"' = false by decide), Nat.add_sub_cancel]
  split
  next heq => exact absurd (List.cons.inj heq).1 (by decide)
  next => rw [h]; rfl

/-- A value is read back, whatever follows it. -/
theorem readValue_prettyAt {depth : Nat} {v : Json} (h : Legible depth v) (level : Nat) :
    ReadsBack depth level v := by
  induction h generalizing level with
  | null depth => exact .of_step fun fuel rest hfuel hends => rfl
  | bool depth value => exact .of_step fun fuel rest hfuel hends => by cases value <;> rfl
  | integer depth z hz =>
    refine .of_step fun fuel rest hfuel hends => ?_
    obtain ⟨c, cs, htext, hc⟩ := textOfInt_head z
    have hread := readNumber_textOfInt hz hends
    rw [htext] at hread
    rw [prettyAt, textOfNumber, htext, List.cons_append, readValue_number hc,
      ← List.cons_append, hread]
    rfl
  | string depth s =>
    refine .of_step fun fuel rest hfuel hends => ?_
    have htext : prettyAt level (.string s) ++ rest =
        '"' :: (s.toList.flatMap escapeChar ++ '"' :: rest) := by
      simp [prettyAt, quote]
    rw [htext, readValue, skipSpace_of_head _ (by decide)]
    simp only [readString_quote, Option.map_some, String.ofList_toList]
  | array depth items hitems ih =>
    refine .of_step fun fuel rest hfuel hends => ?_
    -- the brackets of an empty array adjoin, others have a line for each item
    cases items with
    | nil => rfl
    | cons item items =>
      rw [prettyAt] at hfuel ⊢
      simp only [List.length_cons, List.length_append, List.length_nil] at hfuel
      obtain ⟨c, cs, htext, hc⟩ := prettyAt_head (hitems item List.mem_cons_self) (level + 1)
      have hread : readItems fuel depth (prettyAt (level + 1) item ++
          (prettyItems (level + 1) items ++ (newline level ++ ']' :: rest))) =
            some (item :: items, rest) :=
        readItems_pretty level (fun v hv => ih v hv (level + 1)) (by omega) rest
      simp only [List.cons_append, List.append_assoc, List.nil_append]
      rw [htext, List.cons_append] at hread ⊢
      exact readValue_items hc hread
  | object depth members hkeys hmembers ih =>
    refine .of_step fun fuel rest hfuel hends => ?_
    cases members with
    | nil => rfl
    | cons member members =>
      rw [prettyAt] at hfuel ⊢
      simp only [List.length_cons, List.length_append, List.length_nil] at hfuel
      have hread : readMembers fuel depth (prettyMember (level + 1) member ++
          (prettyMembers (level + 1) members ++ (newline level ++ '\x7d' :: rest))) =
            some (member :: members, rest) :=
        readMembers_pretty level (fun m hm => ih m hm (level + 1)) (by omega) rest
      obtain ⟨cs, htext⟩ : ∃ cs, prettyMember (level + 1) member = '"' :: cs := by
        obtain ⟨key, value⟩ := member
        exact ⟨_, by rw [prettyMember, quote]; rfl⟩
      simp only [List.cons_append, List.append_assoc, List.nil_append]
      rw [htext, List.cons_append] at hread ⊢
      rw [readValue_members hread, Table.newest_of_nodup hkeys]

/-- A document is read back from its pretty text. -/
theorem read_pretty {v : Json} (h : Legible maxDepth v) : read? (v.pretty ++ "\n") = some v := by
  have htext : (v.pretty ++ "\n").toList = prettyAt 0 v ++ ['\n'] := by
    rw [String.toList_append, pretty, String.toList_ofList]
    rfl
  have hread := readValue_prettyAt h 0 (2 * (prettyAt 0 v ++ ['\n']).length + 2) ['\n']
    (by rw [List.length_append]; omega) (Ends.newline 0 [])
  rw [read?, htext, readChars?, hread]
  rfl

/-! ### What is read can be written -/

/-- Whether what is read with some fuel can be read back: values, items and
members. -/
structure Faithful (fuel : Nat) : Prop where
  value : ∀ depth cs v rest, readValue fuel depth cs = some (v, rest) →
    v.isIntegral = true → Legible depth v
  items : ∀ depth cs items rest, readItems fuel depth cs = some (items, rest) →
    ∀ v ∈ items, v.isIntegral = true → Legible depth v
  members : ∀ depth cs members rest, readMembers fuel depth cs = some (members, rest) →
    ∀ m ∈ members, m.2.isIntegral = true → Legible depth m.2

theorem Faithful.value_succ {fuel : Nat} (ih : Faithful fuel) {depth : Nat} {cs rest : List Char}
    {v : Json} (h : readValue (fuel + 1) depth cs = some (v, rest)) (hv : v.isIntegral = true) :
    Legible depth v := by
  rw [readValue] at h
  split at h
  next =>
    obtain ⟨_, -, heq⟩ := Option.map_eq_some_iff.1 h
    cases heq
    exact .string depth _
  next =>
    -- what is read inside of brackets is one level deeper
    split at h
    · cases h
    next hdepth =>
      obtain ⟨deeper, rfl⟩ := Nat.exists_eq_succ_of_ne_zero hdepth
      split at h
      · cases h
        exact .array deeper [] (by simp)
      · obtain ⟨found, hread, heq⟩ := Option.map_eq_some_iff.1 h
        cases heq
        rw [isIntegral, itemsIntegral_iff] at hv
        exact .array deeper _ fun item hitem =>
          ih.items _ _ _ _ hread item hitem (hv item hitem)
  next =>
    split at h
    · cases h
    next hdepth =>
      obtain ⟨deeper, rfl⟩ := Nat.exists_eq_succ_of_ne_zero hdepth
      split at h
      · cases h
        exact .object deeper [] (by simp [Table.keys]) (by simp)
      · obtain ⟨found, hread, heq⟩ := Option.map_eq_some_iff.1 h
        cases heq
        rw [isIntegral, membersIntegral_iff] at hv
        exact .object deeper _ (Table.nodup_newest _) fun m hm =>
          ih.members _ _ _ _ hread m (Table.mem_newest hm) (hv m hm)
  next =>
    obtain ⟨_, -, heq⟩ := Option.map_eq_some_iff.1 h
    cases heq
    exact .null depth
  next =>
    obtain ⟨_, -, heq⟩ := Option.map_eq_some_iff.1 h
    cases heq
    exact .bool depth true
  next =>
    obtain ⟨_, -, heq⟩ := Option.map_eq_some_iff.1 h
    cases heq
    exact .bool depth false
  next =>
    obtain ⟨⟨number, _⟩, hread, heq⟩ := Option.map_eq_some_iff.1 h
    cases heq
    cases number with
    | integer z => exact .integer depth z (readNumber_integer hread)
    | double f => simp [isIntegral] at hv

theorem Faithful.items_succ {fuel : Nat} (ih : Faithful fuel) {depth : Nat} {cs rest : List Char}
    {items : List Json} (h : readItems (fuel + 1) depth cs = some (items, rest)) :
    ∀ v ∈ items, v.isIntegral = true → Legible depth v := by
  rw [readItems] at h
  split at h
  · cases h
  next item r hitem =>
    have hfirst := ih.value _ _ _ _ hitem
    split at h
    · obtain ⟨found, hread, heq⟩ := Option.map_eq_some_iff.1 h
      cases heq
      exact List.forall_mem_cons.2 ⟨hfirst, ih.items _ _ _ _ hread⟩
    · cases h
      exact List.forall_mem_singleton.2 hfirst
    · cases h

theorem Faithful.members_succ {fuel : Nat} (ih : Faithful fuel) {depth : Nat}
    {cs rest : List Char} {members : List (String × Json)}
    (h : readMembers (fuel + 1) depth cs = some (members, rest)) :
    ∀ m ∈ members, m.2.isIntegral = true → Legible depth m.2 := by
  rw [readMembers] at h
  split at h
  next =>
    split at h
    · cases h
    · split at h
      next =>
        split at h
        · cases h
        next value r hvalue =>
          have hfirst := ih.value _ _ _ _ hvalue
          simp only [] at h
          split at h
          · obtain ⟨found, hread, heq⟩ := Option.map_eq_some_iff.1 h
            cases heq
            exact List.forall_mem_cons.2 ⟨hfirst, ih.members _ _ _ _ hread⟩
          · cases h
            exact List.forall_mem_singleton.2 hfirst
          · cases h
      · cases h
  · cases h

/-- Values that are read can be read back, items and members with them. -/
theorem faithful (fuel : Nat) : Faithful fuel := by
  induction fuel with
  | zero =>
    refine ⟨?_, ?_, ?_⟩
    · intro depth cs v rest h
      rw [readValue] at h
      cases h
    · intro depth cs items rest h
      rw [readItems] at h
      cases h
    · intro depth cs members rest h
      rw [readMembers] at h
      cases h
  | succ fuel ih =>
    exact ⟨fun _ _ _ _ h hv => ih.value_succ h hv, fun _ _ _ _ h => ih.items_succ h,
      fun _ _ _ _ h => ih.members_succ h⟩

/-- What a document holds can be written and read again. -/
theorem legible_of_document {text : String} {v : Json} (h : read? text = some v)
    (hv : v.isIntegral = true) : Legible maxDepth v := by
  rw [read?, readChars?] at h
  split at h
  next value rest hread =>
    split at h
    · cases h
      exact (faithful _).value _ _ _ _ hread hv
    · cases h
  · cases h

end ScreenHooks.Json
