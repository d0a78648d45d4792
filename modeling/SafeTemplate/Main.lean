/-
**The command line.**

A run works on a disk, which holds only what has been read into it: files with their contents, and
directories with the names in them, with the times of their last changes.  When a run looks for
something in vain, or writes a file, everything on the way there is read into the disk and the run starts
again, until nothing more is found.  What a build has written is written out in the end.

A run with too few levels for its imports starts again with more of them.  So a run whose imports never
end goes on until the memory does.

Main definition: `main` — runs a command line on the files that it names.
-/

import SafeTemplate.Cli.Run

set_option autoImplicit false

namespace SafeTemplate

/-- What the system knows a place by. -/
def Place.entry (place : Place) : IO.FS.DirEntry :=
  ⟨"/", String.ofList (['/'].intercalate place)⟩

/-- A point of time in nanoseconds.  Times before 1970 count as its start. -/
def nanoseconds (time : IO.FS.SystemTime) : Nat :=
  time.sec.toNat * 1000000000 + time.nsec.toNat

/-- What stands at a place, if it can be read. -/
def Disk.Node.read? (place : Place) : IO (Option Disk.Node) := do
  let path := place.entry.path
  let .ok found ← path.metadata.toBaseIO | return none
  match found.type with
  | .dir =>
      let .ok entries ← path.readDir.toBaseIO | return none
      let names := entries.toList.map fun entry => entry.fileName.toList
      return some (.directory names (nanoseconds found.modified))
  | _ =>
      let .ok content ← (IO.FS.readBinFile path).toBaseIO | return none
      return some (.file content (nanoseconds found.modified))

/-- The disk with what stands at a place read in. -/
def Disk.readPlace (disk : Disk) (place : Place) : IO Disk := do
  if (disk.node? place).isSome then return disk
  match ← Disk.Node.read? place with
  | some node => return disk.put place node
  | none => return disk

/-- The disk with everything on the way of a path read in. -/
def Disk.readIn (disk : Disk) (path : Text) : IO Disk := do
  let disk ← disk.readPlace (disk.start path)
  let step (state : Disk × Place) (piece : Text) : IO (Disk × Place) := do
    let place := if piece = Path.above then state.2.dropLast else state.2 ++ [piece]
    return (← state.1.readPlace place, place)
  return (← (Path.names path).foldlM step (disk, disk.start path)).1

/-- The disk with the working directory read in. -/
def Disk.current : IO Disk := do
  let directory := (← IO.currentDir).toString.toList
  Disk.readIn ⟨[], Path.names directory, 0⟩ directory

/-- The outcome of a command line on a disk to which is added what the run looks for. -/
partial def Cli.runOnFiles (disk : Disk) (levels : Nat) (arguments : List Text) : IO Outcome := do
  match run disk levels arguments with
  | none => runOnFiles disk (2 * levels) arguments
  | some outcome =>
      let fuller ← (outcome.missing ++ outcome.written?.toList).foldlM Disk.readIn disk
      -- Each further run knows at least one more place.
      if fuller.nodes.length = disk.nodes.length then return outcome
      runOnFiles fuller levels arguments

/-- Writes a file of the disk out. -/
def Disk.writeOut (disk : Disk) (path : Text) : IO Unit := do
  let .ok content := disk.readBytes path | return
  if let some directory := Path.directory? path then
    IO.FS.createDirAll (String.ofList directory)
  IO.FS.writeBinFile (String.ofList path) content

end SafeTemplate

open SafeTemplate

def main (arguments : List String) : IO UInt32 := do
  let outcome ← Cli.runOnFiles (← Disk.current) 1 (arguments.map String.toList)
  outcome.written?.forM outcome.disk.writeOut
  (← IO.getStdout).putStr (String.ofList outcome.output)
  (← IO.getStderr).putStr (String.ofList outcome.diagnostics)
  return UInt32.ofNat outcome.status
