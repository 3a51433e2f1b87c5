/-
Merging into a manifest that is there.

A merge adds to the exports of a manifest and sets those it has entries for.
All other members keep their places and values, and so do all other exports.
Merging the same entries into the merged text gives that text again.

* **`mergeExports_eq`** — a merge sets the root entry if it is missing, then all
  entries in turn;
* **`mergeManifest_ok`** — what is read of a merged text;
* **`mergeManifest_again`** — merging twice;
* **`merge_additive`** — the keys and values of the merged manifest;
* **`merge_settles`** — a merged manifest is a fixed point of its merge.
-/
import Mathlib
import ScreenHooks.Output.Manifest
import ScreenHooks.Proofs.Json.Documents

namespace ScreenHooks.Output

open Json

/-! ### Exports -/

/-- The members that a merge sets for entries. -/
def targets (entries : List ManifestEntry) : List (String × Json) :=
  entries.map fun entry => (entry.subpath, entry.value)

theorem keys_targets (entries : List ManifestEntry) :
    Table.keys (targets entries) = entries.map (·.subpath) := by
  rw [Table.keys, targets, List.map_map]
  rfl

/-- The exports with the root entry, which is added only where it is missing. -/
def withRoot (exports : List (String × Json)) (root : ManifestEntry) : List (String × Json) :=
  if root.subpath ∈ Table.keys exports then exports else Table.put exports root.subpath root.value

theorem mergeExports_eq (exports : List (String × Json)) (entries : List ManifestEntry)
    (root : ManifestEntry) :
    mergeExports exports entries root = Table.putAll (withRoot exports root) (targets entries) := by
  have hstart : (if (exports.lookup root.subpath).isSome then exports
      else Table.put exports root.subpath root.value) = withRoot exports root := by
    simp only [withRoot, Table.lookup_isSome_iff]
  rw [mergeExports, hstart, targets, Table.putAll, List.foldl_map]

theorem keys_withRoot (exports : List (String × Json)) (root : ManifestEntry) :
    Table.keys (withRoot exports root) = Table.keys exports ++
      (if root.subpath ∈ Table.keys exports then [] else [root.subpath]) := by
  unfold withRoot
  by_cases h : root.subpath ∈ Table.keys exports
  · rw [if_pos h, if_pos h, List.append_nil]
  · rw [if_neg h, if_neg h, Table.keys_put_eq, if_neg h]

theorem nodup_withRoot {exports : List (String × Json)} (h : (Table.keys exports).Nodup)
    (root : ManifestEntry) : (Table.keys (withRoot exports root)).Nodup := by
  unfold withRoot
  split
  · exact h
  · exact Table.nodup_put h _ _

theorem lookup_withRoot {exports : List (String × Json)} {root : ManifestEntry} {key : String}
    (h : key ≠ root.subpath ∨ key ∈ Table.keys exports) :
    (withRoot exports root).lookup key = exports.lookup key := by
  unfold withRoot
  split
  · rfl
  next hmissing =>
    refine Table.lookup_put_of_ne _ _ ?_
    rcases h with h | h
    · exact h
    · rintro rfl
      exact hmissing h

theorem lookup_withRoot_root {exports : List (String × Json)} {root : ManifestEntry}
    (h : root.subpath ∉ Table.keys exports) :
    (withRoot exports root).lookup root.subpath = some root.value := by
  rw [withRoot, if_neg h, Table.lookup_put]

theorem nodup_mergeExports {exports : List (String × Json)} (h : (Table.keys exports).Nodup)
    (entries : List ManifestEntry) (root : ManifestEntry) :
    (Table.keys (mergeExports exports entries root)).Nodup := by
  rw [mergeExports_eq]
  exact Table.nodup_putAll (nodup_withRoot h root) _

/-- The root entry is there after a merge, whatever the entries are. -/
theorem root_mem_mergeExports (exports : List (String × Json)) (entries : List ManifestEntry)
    (root : ManifestEntry) :
    root.subpath ∈ Table.keys (mergeExports exports entries root) := by
  rw [mergeExports_eq, Table.keys_putAll, keys_withRoot]
  refine List.mem_append_left _ ?_
  split
  next h => exact List.mem_append_left _ h
  next => exact List.mem_append_right _ (List.mem_singleton_self _)

theorem mergeExports_again {exports : List (String × Json)} (h : (Table.keys exports).Nodup)
    (entries : List ManifestEntry) (root : ManifestEntry) :
    mergeExports (mergeExports exports entries root) entries root =
      mergeExports exports entries root := by
  have hroot := root_mem_mergeExports exports entries root
  calc mergeExports (mergeExports exports entries root) entries root
      = Table.putAll (mergeExports exports entries root) (targets entries) := by
        rw [mergeExports_eq (mergeExports exports entries root), withRoot, if_pos hroot]
    _ = mergeExports exports entries root := by
        rw [mergeExports_eq, Table.putAll_putAll (nodup_withRoot h root)]

/-- The last of the entries with a subpath determines its targets. -/
theorem lookup_targets {before after : List ManifestEntry} {entry : ManifestEntry}
    (h : entry.subpath ∉ after.map (·.subpath)) :
    (targets (before ++ entry :: after)).reverse.lookup entry.subpath = some entry.value := by
  have hafter : (targets after).reverse.lookup entry.subpath = none := by
    rw [Table.lookup_eq_none_iff, Table.keys, List.map_reverse, List.mem_reverse]
    exact fun hmem => h (keys_targets after ▸ hmem)
  rw [targets, List.map_append, List.map_cons, List.reverse_append, List.reverse_cons,
    List.append_assoc, List.lookup_append]
  rw [targets] at hafter
  rw [hafter]
  exact List.lookup_cons_self

/-! ### Manifests -/

/-- The exports of a manifest: those of its member, or none where it is missing. -/
def HasExports (members exports : List (String × Json)) : Prop :=
  members.lookup "exports" = some (.object exports) ∨
    members.lookup "exports" = none ∧ exports = []

theorem mergeMembers_ok {members exports : List (String × Json)} (h : HasExports members exports)
    (entries : List ManifestEntry) (root : ManifestEntry) :
    mergeMembers members entries root =
      .ok (Table.put members "exports" (.object (mergeExports exports entries root))) := by
  rcases h with h | ⟨h, rfl⟩
  · exact mergeMembers_of_exports members exports entries root h
  · rw [mergeMembers, h]

theorem hasExports_of_ok {members merged : List (String × Json)} {entries : List ManifestEntry}
    {root : ManifestEntry} (h : mergeMembers members entries root = .ok merged) :
    ∃ exports, HasExports members exports := by
  rw [mergeMembers] at h
  split at h
  next hnone => exact ⟨[], .inr ⟨hnone, rfl⟩⟩
  next exports hsome => exact ⟨exports, .inl hsome⟩
  next => cases h

/-- The targets of an entry are no deeper than an object of strings. -/
theorem legible_value (depth : Nat) (entry : ManifestEntry) : Legible (depth + 1) entry.value := by
  refine .object depth _ (by simp [Table.keys]) fun member hmember => ?_
  rcases List.mem_cons.1 hmember with rfl | hmember
  · exact .string depth _
  · rw [List.mem_singleton.1 hmember]
    exact .string depth _

theorem legible_mergeExports {depth : Nat} {exports : List (String × Json)}
    (h : Legible (depth + 2) (.object exports)) (entries : List ManifestEntry)
    (root : ManifestEntry) : Legible (depth + 2) (.object (mergeExports exports entries root)) := by
  obtain ⟨hkeys, hvalues⟩ := legible_object_iff.1 h
  refine .object (depth + 1) _ (nodup_mergeExports hkeys entries root) fun member hmember => ?_
  have hstart : ∀ m ∈ withRoot exports root, Legible (depth + 1) m.2 := by
    intro m hm
    unfold withRoot at hm
    split at hm
    · exact hvalues m hm
    · rcases Table.mem_put hm with hm | rfl
      · exact hvalues m hm
      · exact legible_value depth root
  rw [mergeExports_eq] at hmember
  rcases Table.mem_putAll hmember with hm | hm
  · exact hstart member hm
  · obtain ⟨entry, -, rfl⟩ := List.mem_map.1 hm
    exact legible_value depth entry

/-- A merged manifest can be read back. -/
theorem legible_merged {members exports : List (String × Json)}
    (h : Legible maxDepth (.object members)) (hexports : HasExports members exports)
    (entries : List ManifestEntry) (root : ManifestEntry) :
    Legible maxDepth
      (.object (Table.put members "exports" (.object (mergeExports exports entries root)))) := by
  obtain ⟨hkeys, hvalues⟩ := legible_object_iff.1 h
  have hbefore : Legible 126 (.object exports) := by
    rcases hexports with hsome | ⟨-, rfl⟩
    · exact hvalues _ (Table.mem_of_lookup hsome)
    · exact .object 125 [] (by simp [Table.keys]) (by simp)
  refine .object 126 _ (Table.nodup_put hkeys _ _) fun member hmember => ?_
  rcases Table.mem_put hmember with hmember | rfl
  · exact hvalues member hmember
  · exact legible_mergeExports hbefore entries root

/-- The members of a manifest that may be merged into: its numbers are integers. -/
def Mergeable (existing : Option String) (members : List (String × Json)) : Prop :=
  readManifest existing = .ok (.object members) ∧ (Json.object members).isIntegral = true

theorem mergeable_of_read {text : String} {members : List (String × Json)}
    (hread : Json.read? text = some (.object members))
    (hnumbers : (Json.object members).isIntegral = true) : Mergeable (some text) members :=
  ⟨by rw [readManifest, hread], hnumbers⟩

theorem Mergeable.legible {existing : Option String} {members : List (String × Json)}
    (h : Mergeable existing members) : Legible maxDepth (.object members) := by
  obtain ⟨hread, hnumbers⟩ := h
  cases existing with
  | none =>
    cases hread
    exact .object 126 [] (by simp [Table.keys]) (by simp)
  | some text =>
    rw [readManifest] at hread
    split at hread
    next value hvalue =>
      cases hread
      exact legible_of_document hvalue hnumbers
    next => cases hread

/-- A merge writes a manifest that is read as the merged members. -/
theorem mergeManifest_ok {existing : Option String} {members exports : List (String × Json)}
    (h : Mergeable existing members) (hexports : HasExports members exports)
    (entries : List ManifestEntry) (root : ManifestEntry) :
    ∃ out, mergeManifest existing entries root = .ok out ∧
      out = (Json.object (Table.put members "exports"
        (.object (mergeExports exports entries root)))).pretty ++ "\n" ∧
      Json.read? out = some (.object (Table.put members "exports"
        (.object (mergeExports exports entries root)))) := by
  refine ⟨_, ?_, rfl, read_pretty (legible_merged h.legible hexports entries root)⟩
  rw [mergeManifest, h.1]
  simp only [mergeMembers_ok hexports]
  rfl

/-- A manifest into which a merge succeeds is an object. -/
theorem members_of_merge {existing : Option String} {entries : List ManifestEntry}
    {root : ManifestEntry} {out : String} (h : mergeManifest existing entries root = .ok out) :
    ∃ members, readManifest existing = .ok (.object members) := by
  unfold mergeManifest at h
  split at h
  next => cases h
  next members hmembers => exact ⟨members, hmembers⟩
  next => cases h

/-- A manifest without numbers but integers into which a merge succeeds may be
merged into. -/
theorem mergeable_of_merge {existing : Option String} {entries : List ManifestEntry}
    {root : ManifestEntry} {out : String}
    (hnumbers : ∀ text value, existing = some text → Json.read? text = some value →
      value.isIntegral = true)
    (hmerge : mergeManifest existing entries root = .ok out) :
    ∃ members, Mergeable existing members := by
  obtain ⟨members, hmembers⟩ := members_of_merge hmerge
  refine ⟨members, hmembers, ?_⟩
  cases existing with
  | none =>
    cases hmembers
    rfl
  | some text =>
    rw [readManifest] at hmembers
    split at hmembers
    next value hvalue =>
      cases hmembers
      exact hnumbers text _ rfl hvalue
    next => cases hmembers

theorem exports_of_merge {existing : Option String} {members : List (String × Json)}
    {entries : List ManifestEntry} {root : ManifestEntry} {out : String}
    (hread : readManifest existing = .ok (.object members))
    (h : mergeManifest existing entries root = .ok out) :
    ∃ exports, HasExports members exports := by
  rw [mergeManifest, hread] at h
  cases hmembers : mergeMembers members entries root with
  | ok merged => exact hasExports_of_ok hmembers
  | error e =>
    simp only [hmembers] at h
    cases h

/-- A text into which entries were merged is not changed by merging them again. -/
theorem mergeManifest_again {existing : Option String} {members : List (String × Json)}
    {entries : List ManifestEntry} {root : ManifestEntry} {out : String}
    (h : Mergeable existing members) (hmerge : mergeManifest existing entries root = .ok out) :
    mergeManifest (some out) entries root = .ok out := by
  obtain ⟨exports, hexports⟩ := exports_of_merge h.1 hmerge
  obtain ⟨out', hout', htext, hread⟩ := mergeManifest_ok h hexports entries root
  obtain rfl : out = out' := Except.ok.inj (hmerge.symm.trans hout')
  have hkeys : (Table.keys exports).Nodup := by
    rcases hexports with hsome | ⟨-, rfl⟩
    · exact (legible_object_iff.1
        ((legible_object_iff.1 h.legible).2 _ (Table.mem_of_lookup hsome))).1
    · simp [Table.keys]
  -- the merged exports are found where they were put, and merging leaves them
  have hagain := mergeMembers_ok (.inl (Table.lookup_put members "exports"
    (.object (mergeExports exports entries root)))) entries root
  rw [mergeExports_again hkeys, Table.put_of_lookup (Table.lookup_put members _ _)] at hagain
  rw [mergeManifest, readManifest]
  simp only [hread, hagain]
  rw [htext]
  rfl

/-- Every member of a manifest but the exports is kept, and so is every export
for which there is no entry. New exports follow the old ones, the root entry
before the others; each entry has the targets it was given last. -/
theorem merge_additive {text : String} {members exports : List (String × Json)}
    {entries : List ManifestEntry} {root : ManifestEntry}
    (hread : Json.read? text = some (.object members))
    (hnumbers : (Json.object members).isIntegral = true)
    (hexports : HasExports members exports)
    (hroot : root.subpath ∉ entries.map (·.subpath)) :
    ∃ out merged after,
      mergeManifest (some text) entries root = .ok out ∧
      Json.read? out = some (.object merged) ∧
      Table.keys merged = Table.keys members ++
        (if "exports" ∈ Table.keys members then [] else ["exports"]) ∧
      (∀ key, key ≠ "exports" → merged.lookup key = members.lookup key) ∧
      merged.lookup "exports" = some (.object after) ∧
      Table.keys after = Table.keys exports ++
        (if root.subpath ∈ Table.keys exports then [] else [root.subpath]) ++
        ((entries.map (·.subpath)).filter (· ∉ Table.keys exports)).eraseDups ∧
      (∀ earlier entry later, entries = earlier ++ entry :: later →
        entry.subpath ∉ later.map (·.subpath) →
        after.lookup entry.subpath = some (.object
          [("import", .string entry.importTarget), ("types", .string entry.typesTarget)])) ∧
      (root.subpath ∉ Table.keys exports → after.lookup root.subpath = some (.object
        [("import", .string root.importTarget), ("types", .string root.typesTarget)])) ∧
      ∀ key ∈ Table.keys exports, key ∉ entries.map (·.subpath) →
        after.lookup key = exports.lookup key := by
  have hmergeable := mergeable_of_read hread hnumbers
  obtain ⟨out, hout, -, hback⟩ := mergeManifest_ok hmergeable hexports entries root
  -- a subpath without an entry is looked up among the exports with the root
  have hother : ∀ key, key ∉ entries.map (·.subpath) →
      (mergeExports exports entries root).lookup key = (withRoot exports root).lookup key := by
    intro key hkey
    have hnone : (targets entries).reverse.lookup key = none := by
      rw [Table.lookup_eq_none_iff, Table.keys, List.map_reverse, List.mem_reverse]
      exact fun hmem => hkey (keys_targets entries ▸ hmem)
    rw [mergeExports_eq, Table.lookup_putAll, hnone, Option.none_or]
  refine ⟨out, _, _, hout, hback, ?_, ?_, Table.lookup_put _ _ _, ?_, ?_, ?_, ?_⟩
  · rw [Table.keys_put_eq]
    split
    · exact (List.append_nil _).symm
    · rfl
  · intro key hkey
    exact Table.lookup_put_of_ne _ _ hkey
  · have hfresh : ∀ key ∈ entries.map (·.subpath),
        (key ∉ Table.keys (withRoot exports root) ↔ key ∉ Table.keys exports) := by
      intro key hkey
      have hne : key ≠ root.subpath := by
        rintro rfl
        exact hroot hkey
      rw [keys_withRoot, List.mem_append, not_or, and_iff_left]
      split
      · exact List.not_mem_nil
      · exact fun h => hne (List.mem_singleton.1 h)
    rw [mergeExports_eq, Table.keys_putAll, keys_targets,
      List.filter_congr fun key hkey => decide_eq_decide.2 (hfresh key hkey), keys_withRoot]
  · intro earlier entry later hentries hlast
    rw [mergeExports_eq, Table.lookup_putAll, hentries, lookup_targets hlast, Option.some_or]
    rfl
  · intro hmissing
    rw [hother _ hroot, lookup_withRoot_root hmissing]
    rfl
  · intro key hkey hentry
    rw [hother _ hentry, lookup_withRoot (.inr hkey)]

/-- A manifest with exports, one of them without targets. -/
def sampleManifest : String :=
  "\x7b\"n\": [-7, \x7b\x7d], \"exports\": \x7b\"./x\": [1], \"./b\": null\x7d, \"m\": 2\x7d"

/-- Merging a subpath that is there, a new one, and the first again. -/
theorem merge_additive_repeated :
    ∃ out merged after,
      mergeManifest (some sampleManifest)
        [⟨"./b", "b1", "t1"⟩, ⟨"./c", "c", "u"⟩, ⟨"./b", "b2", "t2"⟩] ⟨".", "i", "d"⟩ = .ok out ∧
      Json.read? out = some (.object merged) ∧
      Table.keys merged = ["n", "exports", "m"] ∧
      merged.lookup "n" = some (.array [.number (.integer (-7)), .object []]) ∧
      merged.lookup "exports" = some (.object after) ∧
      Table.keys after = ["./x", "./b", ".", "./c"] ∧
      after.lookup "./b" = some (.object [("import", .string "b2"), ("types", .string "t2")]) ∧
      after.lookup "./x" = some (.array [.number (.integer 1)]) := by
  have hread : Json.read? sampleManifest =
      some (.object [("n", .array [.number (.integer (-7)), .object []]),
        ("exports", .object [("./x", .array [.number (.integer 1)]), ("./b", .null)]),
        ("m", .number (.integer 2))]) := by cbv
  have hroot : (⟨".", "i", "d"⟩ : ManifestEntry).subpath ∉
      ([⟨"./b", "b1", "t1"⟩, ⟨"./c", "c", "u"⟩, ⟨"./b", "b2", "t2"⟩] : List ManifestEntry).map
        (·.subpath) := by decide
  obtain ⟨out, merged, after, hout, hback, hkeys, hmembers, hexports, hnew, hlast, -, hkept⟩ :=
    merge_additive hread rfl (.inl rfl) hroot
  exact ⟨out, merged, after, hout, hback, hkeys, hmembers "n" (by decide), hexports, hnew,
    hlast [⟨"./b", "b1", "t1"⟩, ⟨"./c", "c", "u"⟩] ⟨"./b", "b2", "t2"⟩ [] rfl (by decide),
    hkept "./x" (by decide) (by decide)⟩

/-- Whatever text is merged into, and whatever entries are merged, repeated ones
and ones for the root included: merging them into the merged text succeeds and
gives that text. -/
theorem merge_settles {existing : Option String} {entries : List ManifestEntry}
    {root : ManifestEntry} {out : String}
    (hnumbers : ∀ text value, existing = some text → Json.read? text = some value →
      value.isIntegral = true)
    (hmerge : mergeManifest existing entries root = .ok out) :
    mergeManifest (some out) entries root = .ok out := by
  obtain ⟨members, hmembers⟩ := mergeable_of_merge hnumbers hmerge
  exact mergeManifest_again hmembers hmerge

/-- Entries for the root, an export that is there, and the root again. -/
theorem merge_settles_root :
    ∃ out,
      mergeManifest (some sampleManifest)
        [⟨".", "r1", "t1"⟩, ⟨"./b", "b", "t"⟩, ⟨".", "r2", "t2"⟩] ⟨".", "i", "d"⟩ = .ok out ∧
      mergeManifest (some out)
        [⟨".", "r1", "t1"⟩, ⟨"./b", "b", "t"⟩, ⟨".", "r2", "t2"⟩] ⟨".", "i", "d"⟩ = .ok out := by
  have hread : Json.read? sampleManifest =
      some (.object [("n", .array [.number (.integer (-7)), .object []]),
        ("exports", .object [("./x", .array [.number (.integer 1)]), ("./b", .null)]),
        ("m", .number (.integer 2))]) := by cbv
  have hnumbers : ∀ text value, some sampleManifest = some text → Json.read? text = some value →
      value.isIntegral = true := by
    rintro text value htext hvalue
    cases htext
    rw [hread] at hvalue
    cases hvalue
    rfl
  have hmergeable := mergeable_of_read hread rfl
  obtain ⟨out, hout, -⟩ := mergeManifest_ok hmergeable (.inl rfl)
    [⟨".", "r1", "t1"⟩, ⟨"./b", "b", "t"⟩, ⟨".", "r2", "t2"⟩] ⟨".", "i", "d"⟩
  exact ⟨out, hout, merge_settles hnumbers hout⟩

end ScreenHooks.Output
