/-
The program on a real file system.

The part of the file system that a command needs is copied into a `Disk`, the
command runs on it, and what it changed is written back.
-/
import ScreenHooks.Command.Footprint

namespace ScreenHooks.Main

/-- How deep directories may be inside each other. -/
def maxDepth : Nat := 64

/-- Copies what is at a place, with everything below it. -/
def copyTree : Nat → Disk → Place → IO Disk
  | 0, d, _ => return d
  | depth + 1, d, place => do
    let file := (← IO.currentDir) / (Disk.pathOf place).text
    if ← file.isDir then
      let mut copy := d.put place .directory
      for child in ← file.readDir do
        copy ← copyTree depth copy (place ++ [child.fileName])
      return copy
    else if ← file.pathExists then
      return d.put place (.file (.ofBytes (← IO.FS.readBinFile file).toList))
    else return d

/-- The place of a path, told by its text. -/
def placeOf (here : Path) (path : Path) : Place :=
  ((here.join path).normalize.segments).filter (· ≠ "")

/-- Copies what a path names, with the directories that lead to it. -/
def copyPath (here : Path) (depth : Nat) (d : Disk) (path : Path) : IO Disk := do
  let segments := (here.join path).segments
  let mut copy := d
  for size in List.range segments.length do
    let place := placeOf here ⟨String.intercalate "/" (segments.take size ++ [""])⟩
    let directory := (← IO.currentDir) / (Disk.pathOf place).text
    if !place.isEmpty && (← directory.isDir) then
      copy := copy.put place .directory
  copyTree depth copy (placeOf here path)

/-- Writes an entry to the file system. -/
def writeEntry (place : Place) : Entry → IO Unit
  | .directory => do IO.FS.createDirAll ((← IO.currentDir) / (Disk.pathOf place).text)
  | .file (.text text) => do IO.FS.writeFile ((← IO.currentDir) / (Disk.pathOf place).text) text
  | .file (.binary bytes) => do
    IO.FS.writeBinFile ((← IO.currentDir) / (Disk.pathOf place).text) ⟨bytes.toArray⟩

/-- The variables of the process. -/
def environment : IO Environment := do
  match String.fromUTF8? (← IO.FS.readBinFile "/proc/self/environ") with
  | some block => return .ofBlock block
  | none => return []

/-- Copies the part of the file system that the arguments ask for. -/
def snapshot (env : Environment) (arguments : List String) (here : Path) : IO Disk := do
  let start ← copyPath here 0 { here := placeOf here ⟨"."⟩ } ⟨"."⟩
  match Command.Invocation.read arguments with
  | .error _ => return start
  | .ok invocation =>
    let withConfig ←
      (Command.configPaths env invocation).foldlM (copyPath here 1) start
    (Command.workPaths env invocation withConfig).foldlM (copyPath here maxDepth) withConfig

end ScreenHooks.Main

open ScreenHooks in
def main (arguments : List String) : IO UInt32 := do
  let here : Path := ⟨(← IO.currentDir).toString⟩
  let env ← Main.environment
  let disk ← Main.snapshot env arguments here
  let result := Command.run env arguments disk
  for (place, entry) in result.disk.changesSince disk do
    Main.writeEntry place entry
  IO.print result.printed.stdout
  IO.eprint result.printed.stderr
  return result.code.toUInt32
