/-
**Files and directories.**

A disk holds files and directories, each at a place below the root.  One place is the working
directory, where relative paths start; absolute ones start at the root, which is its own directory
above.  A directory knows the names in it, also those of which nothing more is known.

Every change takes one tick of a clock, and what is written or made carries the time of its tick.  A
directory carries the time when a file or directory was last added to it.

Left out are links, and permissions: whatever stands on a disk can be read, a file that can be read can
be written, and a directory can be added to.

Main definitions:

* `Disk`, `Disk.Node`, `Disk.node?` — what stands at a place;
* `Disk.locate` — the place that a path leads to;
* `Disk.readBytes`, `Disk.readText`, `Disk.entries`, `Disk.modified?` — reading;
* `Disk.makeDirectories`, `Disk.writeBytes`, `Disk.writeText` — writing;
* `Disk.Fault` — why a path cannot be read or written.

Main results: `Disk.node?_put` — what a change at a place changes.
-/

import SafeTemplate.Bytes.Utf8
import SafeTemplate.Files.Path
import SafeTemplate.Text.Lines

set_option autoImplicit false

namespace SafeTemplate

/-! ### Faults -/

/-- Why a path cannot be read or written. -/
inductive Disk.Fault
  | notFound
  | alreadyExists
  | notDirectory
  | isDirectory
  | notText
  | nulInPath
  deriving DecidableEq, Repr

/-- The wording of a fault. -/
def Disk.Fault.message : Disk.Fault → Text
  | .notFound => "No such file or directory (os error 2)".toList
  | .alreadyExists => "File exists (os error 17)".toList
  | .notDirectory => "Not a directory (os error 20)".toList
  | .isDirectory => "Is a directory (os error 21)".toList
  | .notText => "stream did not contain valid UTF-8".toList
  | .nulInPath => "file name contained an unexpected NUL byte".toList

/-! ### Places -/

/-- A place on a disk: the names that lead there, from the root. -/
abbrev Place := List Text

/-- What stands at a place: a file, or a directory with the names in it.  Either carries the time of its
last change. -/
inductive Disk.Node
  | file (content : ByteArray) (modified : Nat)
  | directory (names : List Text) (modified : Nat)

/-- Files and directories, the working directory, and a clock. -/
structure Disk where
  nodes : List (Place × Disk.Node)
  working : Place
  clock : Nat

namespace Disk

/-- A disk with nothing on it but the root. -/
def blank (clock : Nat) : Disk :=
  ⟨[([], .directory [] clock)], [], clock⟩

/-- What stands at a place. -/
def node? (disk : Disk) (place : Place) : Option Node :=
  (disk.nodes.find? fun entry => entry.1 = place).map Prod.snd

/-- Puts something at a place, instead of what stood there. -/
def put (disk : Disk) (place : Place) (node : Node) : Disk :=
  { disk with nodes := (place, node) :: disk.nodes.filter fun entry => entry.1 ≠ place }

theorem node?_put (disk : Disk) (place place' : Place) (node : Node) :
    (disk.put place node).node? place' = if place = place' then some node else disk.node? place' := by
  by_cases h : place = place'
  · subst h
    simp [put, node?]
  · have hf : ∀ entry : Place × Node,
        (!decide (entry.1 = place) && decide (entry.1 = place')) = decide (entry.1 = place') := by
      intro entry
      by_cases he : entry.1 = place' <;> simp [he, Ne.symm h]
    simp [put, node?, h, List.find?_filter, hf]

/-- The time of the next change. -/
def now (disk : Disk) : Nat :=
  disk.clock + 1

/-- Lets a tick pass. -/
def tick (disk : Disk) : Disk :=
  { disk with clock := disk.now }

/-- Enters a name in the directory at a place, at the present time. -/
def enter (disk : Disk) (place : Place) (name : Text) : Disk :=
  match disk.node? place with
  | some (.directory names _) => disk.put place (.directory (names.insert name) disk.clock)
  | _ => disk

/-! ### Paths -/

/-- Where a path starts. -/
def start (disk : Disk) (path : Text) : Place :=
  if Path.isAbsolute path then [] else disk.working

/-- Whether a directory stands at a place. -/
def isDirectory (disk : Disk) (place : Place) : Bool :=
  match disk.node? place with
  | some (.directory _ _) => true
  | _ => false

/-- Follows one piece of a path. -/
def follow (disk : Disk) (place : Place) (piece : Text) : Except Fault Place :=
  if !disk.isDirectory place then .error .notDirectory
  else if piece.isEmpty || piece = Path.here then .ok place
  else if piece = Path.above then
    -- The way up from the root leads to the root.
    if disk.isDirectory place.dropLast then .ok place.dropLast else .error .notDirectory
  else if (disk.node? (place ++ [piece])).isSome then .ok (place ++ [piece])
  else .error .notFound

/-- Follows the pieces of a path, one after the other. -/
def followAll (disk : Disk) (place : Place) : List Text → Except Fault Place
  | [] => .ok place
  | piece :: more =>
      match disk.follow place piece with
      | .error fault => .error fault
      | .ok place => disk.followAll place more

/-- The place of an existing file or directory. -/
def locate (disk : Disk) (path : Text) : Except Fault Place :=
  if path.contains '\x00' then .error .nulInPath
  else if path.isEmpty then .error .notFound
  else disk.followAll (disk.start path) (Path.pieces path)

/-! ### Reading -/

/-- The content of a file. -/
def readBytes (disk : Disk) (path : Text) : Except Fault ByteArray :=
  match disk.locate path with
  | .error fault => .error fault
  | .ok place =>
      match disk.node? place with
      | some (.file content _) => .ok content
      | some (.directory _ _) => .error .isDirectory
      | none => .error .notFound

/-- The content of a file as text, byte for byte. -/
def readExactText (disk : Disk) (path : Text) : Except Fault Text :=
  match disk.readBytes path with
  | .error fault => .error fault
  | .ok bytes =>
      match Utf8.decode? bytes with
      | none => .error .notText
      | some text => .ok text

/-- The content of a file as text, with LF at the ends of lines. -/
def readText (disk : Disk) (path : Text) : Except Fault Text :=
  match disk.readExactText path with
  | .error fault => .error fault
  | .ok text => .ok (Text.unifyLineEnds text)

theorem readText_of_readBytes {disk : Disk} {path text : Text}
    (h : disk.readBytes path = .ok (Utf8.encode text)) :
    disk.readText path = .ok (Text.unifyLineEnds text) := by
  rw [readText, readExactText, h]
  simp only [Utf8.decode?_encode]

/-- The names in a directory, in order. -/
def entries (disk : Disk) (path : Text) : Except Fault (List Text) :=
  match disk.locate path with
  | .error fault => .error fault
  | .ok place =>
      match disk.node? place with
      | some (.directory names _) => .ok (names.mergeSort fun a b => !decide (b < a))
      | _ => .error .notDirectory

/-- When the file or directory was last changed, if there is one. -/
def modified? (disk : Disk) (path : Text) : Option Nat :=
  match disk.locate path with
  | .error _ => none
  | .ok place =>
      match disk.node? place with
      | some (.file _ time) => some time
      | some (.directory _ time) => some time
      | none => none

/-! ### Writing -/

/-- Makes one directory, in a directory that exists.  `names` lead there from `start`. -/
def makeDirectory (disk : Disk) (start : Place) (names : List Text) : Except Fault Disk :=
  if names.any fun name => name.contains '\x00' then .error .nulInPath
  else
    match disk.followAll start names.dropLast, names.getLast? with
    | .error fault, _ => .error fault
    | .ok _, none => .error .alreadyExists
    | .ok place, some name =>
        match disk.follow place name with
        | .ok _ => .error .alreadyExists
        | .error .notFound =>
            let disk := disk.tick
            .ok ((disk.put (place ++ [name]) (.directory [] disk.clock)).enter place name)
        | .error fault => .error fault

/-- Whether a directory stands where the names lead. -/
def leadToDirectory (disk : Disk) (start : Place) (names : List Text) : Bool :=
  match disk.followAll start names with
  | .ok place => disk.isDirectory place
  | .error _ => false

/-- Makes a directory and those above it as far as they are missing.  The names are given from the
last one up.  Directories that were made before a fault stay. -/
def makeDirectories (disk : Disk) (start : Place) : List Text → Option Fault × Disk
  | [] => (none, disk)
  | name :: parents =>
      let names := (name :: parents).reverse
      match disk.makeDirectory start names with
      | .ok disk => (none, disk)
      | .error .notFound =>
          -- A directory above is missing: that one is made first, then this one is tried again.
          match disk.makeDirectories start parents with
          | (some fault, disk) => (some fault, disk)
          | (none, disk) =>
              match disk.makeDirectory start names with
              | .ok disk => (none, disk)
              | .error fault =>
                  if disk.leadToDirectory start names then (none, disk) else (some fault, disk)
      | .error fault =>
          if disk.leadToDirectory start names then (none, disk) else (some fault, disk)

/-- Makes the directories above what the path names. -/
def makeParents (disk : Disk) (path : Text) : Option Fault × Disk :=
  match Path.parent? path with
  | none => (none, disk)
  | some names => disk.makeDirectories (disk.start path) names.reverse

/-- Writes a file, in a directory that exists. -/
def writeFile (disk : Disk) (path : Text) (content : ByteArray) : Except Fault Disk :=
  let names := (Path.pieces path).filter fun piece => !piece.isEmpty
  if path.contains '\x00' then .error .nulInPath
  else if path.isEmpty then .error .notFound
  else
    match disk.followAll (disk.start path) names.dropLast, names.getLast? with
    | .error fault, _ => .error fault
    | .ok _, none => .error .isDirectory
    | .ok place, some name =>
        if !disk.isDirectory place then .error .notDirectory
        else if name = Path.here ∨ name = Path.above ∨ Path.endsWithSlash path then
          .error .isDirectory
        else
          let disk := disk.tick
          match disk.node? (place ++ [name]) with
          | some (.directory _ _) => .error .isDirectory
          | some (.file _ _) => .ok (disk.put (place ++ [name]) (.file content disk.clock))
          -- Only a new name changes the directory that holds the file.
          | none => .ok ((disk.put (place ++ [name]) (.file content disk.clock)).enter place name)

/-- Writes a file, and makes the directories above it as far as they are missing. -/
def writeBytes (disk : Disk) (path : Text) (content : ByteArray) : Option Fault × Disk :=
  match disk.makeParents path with
  | (some fault, disk) => (some fault, disk)
  | (none, disk) =>
      match disk.writeFile path content with
      | .error fault => (some fault, disk)
      | .ok disk => (none, disk)

/-- Writes a text to a file, byte for byte. -/
def writeText (disk : Disk) (path text : Text) : Option Fault × Disk :=
  disk.writeBytes path (Utf8.encode text)

end Disk

end SafeTemplate
