/-
From paths to places.

A path is walked segment by segment; every segment, also an idle one, asks for
a directory to start from. So a slash at the end of a path asks for a
directory there.

* **`step_ok_iff`** — a step succeeds only from a directory.
-/
import ScreenHooks.Disk.Basic
import ScreenHooks.Path.Basic

namespace ScreenHooks

/-- Why the disk refuses an operation. -/
inductive DiskError where
  | notFound
  | busy
  | alreadyExists
  | notDirectory
  | isDirectory
  | nameTooLong
  | notText
  | nulInPath
  deriving DecidableEq

/-- The text of a disk error. -/
def DiskError.message : DiskError → String
  | notFound => "No such file or directory (os error 2)"
  | busy => "Device or resource busy (os error 16)"
  | alreadyExists => "File exists (os error 17)"
  | notDirectory => "Not a directory (os error 20)"
  | isDirectory => "Is a directory (os error 21)"
  | nameTooLong => "File name too long (os error 36)"
  | notText => "stream did not contain valid UTF-8"
  | nulInPath => "file name contained an unexpected NUL byte"

namespace Disk

/-- The longest name of an entry, in bytes. -/
def maxNameSize : Nat := 255

/-- Goes on from a place by one segment. The result need not exist. -/
def step (d : Disk) (place : Place) (segment : String) : Except DiskError Place :=
  match d.at? place with
  | none => .error .notFound
  | some (.file _) => .error .notDirectory
  | some .directory =>
    -- an idle segment stays, but only in a directory
    if Path.isIdle segment then .ok place
    else if segment = ".." then .ok place.dropLast
    else if maxNameSize < segment.utf8ByteSize then .error .nameTooLong
    else .ok (place ++ [segment])

/-- The place that segments lead to, which need not exist. -/
def walk (d : Disk) (start : Place) (segments : List String) : Except DiskError Place :=
  segments.foldlM d.step start

/-- Where the segments of a path start. -/
def start (d : Disk) (p : Path) : Place := if p.isAbsolute then [] else d.here

/-- Refuses the empty path and paths that no system call takes. -/
def check (p : Path) : Except DiskError Unit :=
  if p.text.toList.contains '\x00' then .error .nulInPath
  else if p.text = "" then .error .notFound
  else .ok ()

/-- The place and the entry that a path names. -/
def locate (d : Disk) (p : Path) : Except DiskError (Place × Entry) := do
  check p
  let place ← d.walk (d.start p) p.segments
  match d.at? place with
  | some entry => .ok (place, entry)
  | none => .error .notFound

/-- Whether a path names a file. -/
def isFile (d : Disk) (p : Path) : Bool :=
  match d.locate p with
  | .ok (_, .file _) => true
  | _ => false

/-- Whether a path names a directory. -/
def isDirectory (d : Disk) (p : Path) : Bool :=
  match d.locate p with
  | .ok (_, .directory) => true
  | _ => false

/-- The text of the file that a path names. -/
def readText (d : Disk) (p : Path) : Except DiskError String := do
  match ← d.locate p with
  | (_, .file (.text text)) => .ok text
  | (_, .file (.binary _)) => .error .notText
  | (_, .directory) => .error .isDirectory

/-- The path of a place. -/
def pathOf (place : Place) : Path := ⟨"/" ++ String.intercalate "/" place⟩

/-! ### Laws -/

theorem step_ok_iff (d : Disk) (place next : Place) (segment : String)
    (h : d.step place segment = .ok next) : d.at? place = some .directory := by
  unfold step at h
  split at h
  · cases h
  · cases h
  · assumption

end Disk

end ScreenHooks
