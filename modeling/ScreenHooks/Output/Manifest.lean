/-
Merging subpaths into a package manifest.

A manifest is a JSON object; its `exports` member maps subpaths to targets.
Merging sets the given entries and adds the root entry only where it is
missing; all else is kept in its place.

* **`mergeMembers_of_exports`** — only `exports` changes.
-/
import ScreenHooks.Json.Printer
import ScreenHooks.Json.Reader
import ScreenHooks.Output.Layout

namespace ScreenHooks.Output

/-- Why a manifest cannot be merged into. -/
inductive ManifestError where
  | unreadable
  | notAnObject
  | exportsNotAnObject
  deriving DecidableEq

/-- The text of a manifest error. -/
def ManifestError.message : ManifestError → String
  | unreadable => "Failed to parse package manifest"
  | notAnObject => "package manifest is not a JSON object"
  | exportsNotAnObject => "package manifest `exports` is not an object"

/-- The targets of an entry as a JSON object. -/
def ManifestEntry.value (entry : ManifestEntry) : Json :=
  .object [("import", .string entry.importTarget), ("types", .string entry.typesTarget)]

/-- Sets the entries of an `exports` object; the root entry does not replace
one that is there. -/
def mergeExports (exports : List (String × Json)) (entries : List ManifestEntry)
    (root : ManifestEntry) : List (String × Json) :=
  let started :=
    if (exports.lookup root.subpath).isSome then exports
    else Table.put exports root.subpath root.value
  entries.foldl (fun acc entry => Table.put acc entry.subpath entry.value) started

/-- Merges entries into the members of a manifest. -/
def mergeMembers (members : List (String × Json)) (entries : List ManifestEntry)
    (root : ManifestEntry) : Except ManifestError (List (String × Json)) :=
  match members.lookup "exports" with
  | none => .ok (Table.put members "exports" (.object (mergeExports [] entries root)))
  | some (.object exports) =>
    .ok (Table.put members "exports" (.object (mergeExports exports entries root)))
  | some _ => .error .exportsNotAnObject

/-- The value of a manifest text; there is an empty manifest where there is no
text. -/
def readManifest : Option String → Except ManifestError Json
  | none => .ok (.object [])
  | some text =>
    match Json.read? text with
    | some value => .ok value
    | none => .error .unreadable

/-- The text of a manifest with the entries merged into it. -/
def mergeManifest (existing : Option String) (entries : List ManifestEntry)
    (root : ManifestEntry) : Except ManifestError String :=
  match readManifest existing with
  | .error e => .error e
  | .ok (.object members) =>
    (mergeMembers members entries root).map fun merged => (Json.object merged).pretty ++ "\n"
  | .ok _ => .error .notAnObject

theorem mergeMembers_of_exports (members exports : List (String × Json))
    (entries : List ManifestEntry) (root : ManifestEntry)
    (h : members.lookup "exports" = some (.object exports)) :
    mergeMembers members entries root =
      .ok (Table.put members "exports" (.object (mergeExports exports entries root))) := by
  rw [mergeMembers, h]

end ScreenHooks.Output
