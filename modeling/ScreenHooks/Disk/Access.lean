/-
Reading and replacing whole files.

A file is replaced together with the directories above it. An operation that
fails says what it was about, on which path, and what the disk answered; the
directories that it made before stay.

* **`readIfExists_notFound`** — an absent file is no error.
-/
import ScreenHooks.Disk.Walk

namespace ScreenHooks

/-- What is done with a path. -/
inductive FileAction where
  | openRoot
  | readModule
  | readFile
  | createDirectory
  | replaceFile
  deriving DecidableEq

/-- A failed operation on a path. -/
structure FileError where
  action : FileAction
  path : Path
  cause : DiskError
  deriving DecidableEq

namespace FileError

/-- What failed, without the cause. -/
def message (e : FileError) : String :=
  match e.action with
  | .openRoot => "Failed to open core SDK root " ++ e.path.text
  | .readModule => "Failed to read " ++ e.path.text
  | .readFile => "Failed to read file " ++ e.path.text
  | .createDirectory => "Failed to create " ++ e.path.text
  | .replaceFile => "Failed to replace " ++ e.path.text

/-- What failed, and why. -/
def fullMessage (e : FileError) : String := e.message ++ ": " ++ e.cause.message

end FileError

namespace Disk

/-- The text of a file, or nothing if the file does not exist. -/
def readIfExists (d : Disk) (p : Path) : Except FileError (Option String) :=
  match d.readText p with
  | .ok text => .ok (some text)
  | .error .notFound => .ok none
  | .error cause => .error ⟨.readFile, p, cause⟩

/-- The absolute path of what a path names. -/
def canonical (d : Disk) (p : Path) : Except DiskError Path :=
  (d.locate p).map fun found => pathOf found.1

/-! ### Changes -/

/-- A change of a disk that may fail on the way. -/
abbrev Change (ε α : Type) := ExceptT ε (StateM Disk) α

/-- The outcome of a change and the disk after it, whether it failed or not. -/
def Change.apply {ε α : Type} (x : Change ε α) (d : Disk) : Except ε α × Disk :=
  Id.run (StateT.run (ExceptT.run x) d)

/-- The outcome of a change that is not given up when it fails. -/
def attempt {ε δ α : Type} (x : Change ε α) : Change δ (Except ε α) :=
  ExceptT.mk (ExceptT.run x >>= fun outcome => pure (.ok outcome))

/-- A change that nothing but its outcome depends on. -/
def outcome {ε α : Type} (x : Except ε α) : Change ε α := ExceptT.mk (pure x)

/-- The segments of a path without the empty ones at its end. -/
def solid (p : Path) : List String := (p.segments.reverse.dropWhile (· = "")).reverse

/-- The place that a directory is made at. -/
def directoryPlace (d : Disk) (p : Path) : Except DiskError Place := do
  check p
  d.walk (d.start p) (solid p)

/-- Makes one directory; nothing may be at its place. -/
def makeDirectory (p : Path) : Change DiskError Unit := do
  let d ← get
  let place ← outcome (d.directoryPlace p)
  if (d.at? place).isSome then throw .alreadyExists
  set (d.put place .directory)

/-- Fails unless a path names a directory. -/
def requireDirectory (p : Path) (cause : DiskError) : Change DiskError Unit := do
  if !(← get).isDirectory p then throw cause

/-- Makes one directory, unless it is there. -/
def makeOrFind (p : Path) : Change DiskError Unit := do
  match ← attempt (makeDirectory p) with
  | .ok () => return
  -- what is there already may be the directory
  | .error cause => requireDirectory p cause

/-- Makes a directory and those above it that do not exist. `fuel` bounds how
many are missing. -/
def makeDirectoriesFrom : Nat → Path → Change DiskError Unit
  | 0, _ => throw .notFound
  | fuel + 1, p => do
    if p.text = "" then return
    match ← attempt (makeDirectory p) with
    | .ok () => return
    -- a directory above is missing
    | .error .notFound =>
      match p.parent? with
      | none => throw .notFound
      | some parent =>
        makeDirectoriesFrom fuel parent
        makeOrFind p
    | .error cause => requireDirectory p cause

/-- Makes a directory and those above it that do not exist. -/
def makeDirectories (p : Path) : Change DiskError Unit :=
  makeDirectoriesFrom (p.segments.length + 1) p

/-- The place that a file is put at. The last segment has to be a name, and no
directory may be there. -/
def filePlace (d : Disk) (p : Path) : Except DiskError Place := do
  check p
  let base ← d.walk (d.start p) p.segments.dropLast
  let last := p.segments.getLast?.getD ""
  let place ← d.step base last
  if last = "" then .error .notDirectory
  else if last = "." ∨ last = ".." then .error .busy
  else if d.at? place = some .directory then .error .isDirectory
  else .ok place

/-- The directory that a path is written into. -/
def directoryOf (p : Path) : Path :=
  match p.parent? with
  | some parent => if parent.text = "" then ⟨"."⟩ else parent
  | none => ⟨"."⟩

/-- Replaces a file, making the directories above it. -/
def replaceFile (p : Path) (text : String) : Change FileError Unit := do
  ExceptT.adapt (⟨.createDirectory, directoryOf p, ·⟩) (makeDirectories (directoryOf p))
  let d ← get
  match d.filePlace p with
  | .ok place => set (d.put place (.file (.text text)))
  | .error cause => throw ⟨.replaceFile, p, cause⟩

/-! ### Laws -/

theorem readIfExists_notFound (d : Disk) (p : Path) (h : d.readText p = .error .notFound) :
    d.readIfExists p = .ok none := by
  simp [readIfExists, h]

end Disk

end ScreenHooks
