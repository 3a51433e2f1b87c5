/-
Slash-separated paths.

A path is kept as it was written; its meaning is the list of its components.
Empty segments name nothing, nor does a single dot unless a relative path
starts with it. Nothing here looks at a disk.

* **`normalize_root_free`** — the normal form of a path without dots.
-/
import ScreenHooks.Text.Search

namespace ScreenHooks

open Text

/-- A path as it was written. -/
structure Path where
  text : String
  deriving DecidableEq

namespace Path

instance : Inhabited Path := ⟨⟨""⟩⟩

/-- One step of a path. -/
inductive Component where
  | root
  | here
  | up
  | name (text : String)
  deriving DecidableEq

/-- The text of a component. -/
def Component.text : Component → String
  | root => "/"
  | here => "."
  | up => ".."
  | name text => text

/-! ### Segments and components -/

/-- The parts between slashes. -/
def segments (p : Path) : List String := splitAt p.text '/'

/-- Whether the path starts at the root. -/
def isAbsolute (p : Path) : Bool := startsWith p.text "/"

/-- The component of a segment that is not the first of its path. -/
def Component.ofSegment? (segment : String) : Option Component :=
  if segment = "" ∨ segment = "." then none
  else if segment = ".." then some .up
  else some (.name segment)

/-- The component of the first segment of a relative path. -/
def Component.ofFirst? (segment : String) : Option Component :=
  if segment = "." then some .here else ofSegment? segment

/-- The steps of a path. -/
def components (p : Path) : List Component :=
  match p.segments with
  | [] => []
  | first :: rest =>
    let steps := rest.filterMap Component.ofSegment?
    if p.isAbsolute then .root :: steps else (Component.ofFirst? first).toList ++ steps

/-- The path that spells the given steps. -/
def ofComponents : List Component → Path
  | .root :: rest => ⟨"/" ++ String.intercalate "/" (rest.map Component.text)⟩
  | steps => ⟨String.intercalate "/" (steps.map Component.text)⟩

/-! ### Joining -/

/-- The path `q` seen from `p`: an absolute `q` replaces `p`, any other is
written after it. -/
def join (p q : Path) : Path :=
  if q.isAbsolute then q
  else if p.text = "" ∨ endsWith p.text "/" then ⟨p.text ++ q.text⟩
  else ⟨p.text ++ "/" ++ q.text⟩

/-- The path of `name` below `p`. -/
def child (p : Path) (name : String) : Path := p.join ⟨name⟩

/-! ### Parent, file name and extension -/

/-- Whether a segment after the first names nothing. -/
def isIdle (segment : String) : Bool := segment = "" || segment = "."

/-- The segments without the idle ones at the end. -/
def trimIdle (segments : List String) : List String :=
  (segments.reverse.dropWhile isIdle).reverse

/-- The text of segments; the lone empty segment of an absolute path is the
root. -/
def ofSegments (absolute : Bool) (segments : List String) : Path :=
  if absolute ∧ segments = [""] then ⟨"/"⟩ else ⟨String.intercalate "/" segments⟩

/-- The path without its last component, if it has one besides the root. -/
def parent? (p : Path) : Option Path :=
  match p.segments with
  | [] => none
  | first :: rest =>
    match trimIdle rest with
    -- one component is left, or the root alone
    | [] => if p.isAbsolute ∨ first = "" then none else some ⟨""⟩
    | kept => some (ofSegments p.isAbsolute (first :: trimIdle kept.dropLast))

/-- The last component, if it is a name. -/
def fileName? (p : Path) : Option String :=
  match p.components.getLast? with
  | some (.name text) => some text
  | _ => none

/-- A file name cut at its last dot, unless that dot is its first character. -/
def splitExtension (name : String) : String × Option String :=
  let reversed := name.toList.reverse
  -- a leading dot, as in `.hidden`, starts no extension
  match reversed.dropWhile (· != '.') with
  | [] => (name, none)
  | [_] => (name, none)
  | _ :: stem =>
    (String.ofList stem.reverse, some (String.ofList (reversed.takeWhile (· != '.')).reverse))

/-- What follows the last dot of the file name. -/
def extension? (p : Path) : Option String := p.fileName?.bind fun name => (splitExtension name).2

/-- The path cut after the stem of its file name, if it has one. -/
def cutAfterStem (p : Path) : Path :=
  match p.fileName?, p.segments with
  | some name, first :: rest =>
    match trimIdle rest with
    | [] => ⟨(splitExtension name).1⟩
    | kept => ⟨String.intercalate "/" (first :: (kept.dropLast ++ [(splitExtension name).1]))⟩
  | _, _ => p

/-- The path without its extension. The characters of the extension are taken
off the end before the cut, so `..c` becomes the climb `..` and is kept. -/
def dropExtension (p : Path) : Path :=
  let extent := (p.extension?.getD "").length
  cutAfterStem ⟨String.ofList (p.text.toList.take (p.text.length - extent))⟩

/-! ### Normal form -/

/-- One step of the normal form; the steps so far are listed last first. A
climb undoes the step before it, unless there is none to undo. -/
def climb (before : List Component) : Component → List Component
  | .here => before
  | .up =>
    match before with
    | .name _ :: rest => rest
    | .up :: rest => rest
    | rest => .up :: rest
  | step => step :: before

/-- The steps of the normal form. -/
def collapse (steps : List Component) : List Component := (steps.foldl climb []).reverse

/-- The path without single dots and with climbs undone, by its text alone. -/
def normalize (p : Path) : Path := ofComponents (collapse p.components)

/-- What is left of `p` after the components of `base`, if it starts with
them. -/
def strip? (p base : Path) : Option Path :=
  if base.components.isPrefixOf p.components then
    some (ofComponents (p.components.drop base.components.length))
  else none

/-! ### Laws -/

theorem collapse_names (names : List String) :
    collapse (names.map Component.name) = names.map Component.name := by
  suffices h : ∀ before, (names.map Component.name).foldl climb before =
      (names.map Component.name).reverse ++ before by
    simp [collapse, h]
  induction names with
  | nil => intro before; rfl
  | cons n r ih => intro before; simp [climb, ih]

/-- The normal form of a path of names spells those names. -/
theorem normalize_root_free (p : Path) (names : List String)
    (h : p.components = names.map Component.name) :
    p.normalize = ofComponents (names.map Component.name) := by
  rw [normalize, h, collapse_names]

end Path

end ScreenHooks
