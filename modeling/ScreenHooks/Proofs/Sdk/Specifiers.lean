/-
The files that specifiers lead to.

A specifier that starts with `./` or `../` is looked for from the directory of the
module that it is written in, in its normal form and with the probes after it. So it
does not count how it is spelled, but only where it leads, as long as it does not climb
above the root. The dots alone, which relative paths are also written as, are taken for
packages.

* **`specifierPaths_eq`** — what a specifier may stand for;
* **`specifier_by_location`** — spellings of one location;
* **`specifier_bare`** — spellings that are not followed alike.
-/
import ScreenHooks.Proofs.Path.Location
import ScreenHooks.Proofs.Sdk.Limit

namespace ScreenHooks.Sdk

/-- The path that a specifier in the importing module spells, as it is written. -/
def Project.denoted (p : Project) (importer : Path) (specifier : String) : Path :=
  (importer.parent?.getD p.root).join ⟨specifier⟩

/-- What may stand after the path of a specifier, in the order of preference. -/
def endings : List String :=
  ["", ".ts", ".tsx", ".d.ts", "/index.ts", "/index.tsx", "/index.d.ts"]

variable {p : Project} {importer : Path} {specifier other : String}

/-- A relative specifier stands for its normal form with an ending. -/
theorem specifierPaths_eq (h : isRelative specifier = true) :
    specifierPaths p.root importer specifier =
      endings.map fun ending => ⟨(p.denoted importer specifier).normalize.text ++ ending⟩ := by
  rw [specifierPaths, if_pos h, endings, List.map_cons, String.append_empty]
  rfl

/-- Dots alone are not followed. -/
theorem specifierPaths_bare (h : specifier = "." ∨ specifier = "..") :
    specifierPaths p.root importer specifier = [] := by
  rcases h with rfl | rfl <;> rfl

/-- Relative specifiers that lead to one location are followed alike, unless only one of
them climbs above the root an odd number of times. Where its climbs are kept, a specifier
leads to the first file among the paths of its location with the endings. Dots alone lead
nowhere. -/
theorem specifier_by_location (d : Disk) (p : Project) (importer : Path) :
    (∀ specifier other, isRelative specifier = true → isRelative other = true →
      (p.denoted importer specifier).location = (p.denoted importer other).location →
      ((p.denoted importer specifier).isAbsolute = true →
        Path.isOdd (p.denoted importer specifier).overshoot =
          Path.isOdd (p.denoted importer other).overshoot) →
      p.specifier? d importer specifier = p.specifier? d importer other) ∧
    (∀ specifier, isRelative specifier = true → (p.denoted importer specifier).ClimbsKept →
      p.specifier? d importer specifier = (endings.map fun ending =>
        (⟨(p.denoted importer specifier).location.path.text ++ ending⟩ : Path)).find? d.isFile) ∧
    ∀ specifier, specifier = "." ∨ specifier = ".." → p.specifier? d importer specifier = none := by
  refine ⟨fun specifier other hspecifier hother hlocation hodd => ?_,
    fun specifier hspecifier hkept => ?_, fun specifier hbare => ?_⟩
  · have hnormal := (Path.normalize_eq_iff hlocation).2 hodd
    rw [Project.specifier?, Project.specifier?, specifierPaths_eq hspecifier,
      specifierPaths_eq hother, hnormal]
  · rw [Project.specifier?, specifierPaths_eq hspecifier, Path.normalize_of_climbsKept hkept]
  · rw [Project.specifier?, specifierPaths_bare hbare]
    rfl

/-- A directory with an index and a module. -/
def indexDisk : Disk :=
  { entries := [(["core"], .directory), (["core", "sub"], .directory),
      (["core", "sub", "a.ts"], .file (.text "")), (["core", "index.ts"], .file (.text ""))] }

theorem specifier_by_location_spellings :
    flatProject.specifier? indexDisk ⟨"/core/sub/a.ts"⟩ "../" =
        flatProject.specifier? indexDisk ⟨"/core/sub/a.ts"⟩ ".//../sub/./.." ∧
      flatProject.specifier? indexDisk ⟨"/core/sub/a.ts"⟩ "../" = some ⟨"/core/index.ts"⟩ ∧
      flatProject.specifier? indexDisk ⟨"/core/sub/a.ts"⟩ ".." = none := by
  obtain ⟨hsame, hfirst, hbare⟩ := specifier_by_location indexDisk flatProject ⟨"/core/sub/a.ts"⟩
  exact ⟨hsame _ _ (by decide +kernel) (by decide +kernel) (by decide +kernel)
      (by decide +kernel),
    (hfirst _ (by decide +kernel) (by decide +kernel)).trans (by decide +kernel),
    hbare _ (.inr rfl)⟩

/-- A dot alone and a dot with a slash lead to one location, and only the second one is
followed; and above the root a climb too many is kept. -/
theorem specifier_bare :
    ((flatProject.denoted ⟨"/core/sub/a.ts"⟩ "..").location =
        (flatProject.denoted ⟨"/core/sub/a.ts"⟩ "../").location ∧
      flatProject.specifier? indexDisk ⟨"/core/sub/a.ts"⟩ ".." = none ∧
      flatProject.specifier? indexDisk ⟨"/core/sub/a.ts"⟩ "../" = some ⟨"/core/index.ts"⟩) ∧
    (flatProject.denoted ⟨"/a.ts"⟩ "../core").location =
        (flatProject.denoted ⟨"/a.ts"⟩ "./core").location ∧
      flatProject.specifier? indexDisk ⟨"/a.ts"⟩ "../core" = some ⟨"/../core/index.ts"⟩ ∧
      flatProject.specifier? indexDisk ⟨"/a.ts"⟩ "./core" = some ⟨"/core/index.ts"⟩ := by
  decide +kernel

end ScreenHooks.Sdk
