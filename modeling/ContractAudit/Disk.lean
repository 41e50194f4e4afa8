import ContractAudit.Table
import ContractAudit.Text.Quoted

/-!
# Files

A tree of files and directories with a working directory. A path is read component by component,
each of which needs the one before it to be a directory; resolving a path, on the other hand, only
looks at its text. A write creates the directories above the file. Names and paths have a greatest
length, and no path holds the NUL character.
-/

namespace ContractAudit

/-- What stands at a place of the tree. -/
inductive DiskEntry where
  | file (bytes : List UInt8)
  | directory
deriving DecidableEq, Repr

/-- A place of the tree: the names on the way from the root. -/
abbrev Place := List String

def Place.render (place : Place) : String :=
  "/" ++ "/".intercalate place

/-- A place and every place above it, the root first. -/
def Place.path (place : Place) : List Place :=
  (List.range (place.length + 1)).map fun depth => place.take depth

/-- Why a file cannot be read or written. -/
inductive DiskFault where
  | missing
  | exists
  | notDirectory
  | isDirectory
  | tooLong
deriving DecidableEq, Repr

namespace DiskFault

def text : DiskFault → String
  | .missing => "No such file or directory"
  | .exists => "File exists"
  | .notDirectory => "Not a directory"
  | .isDirectory => "Is a directory"
  | .tooLong => "File name too long"

def number : DiskFault → Nat
  | .missing => 2
  | .exists => 17
  | .notDirectory => 20
  | .isDirectory => 21
  | .tooLong => 36

def message (fault : DiskFault) (place : Place) : String :=
  s!"[Errno {fault.number}] {fault.text}: {Text.quoted place.render}"

end DiskFault

/-- A path that holds a NUL character, which names nothing anywhere. -/
structure NulInPath where
deriving DecidableEq, Repr

def NulInPath.message (_ : NulInPath) : String :=
  "embedded null byte"

def checkPath (path : String) : Except NulInPath Unit :=
  if path.contains '\x00' then .error { } else .ok ()

def maxNameBytes : Nat := 255

def maxPathBytes : Nat := 4095

/-- A tree of files with a working directory. -/
structure Disk where
  workingDirectory : Place
  entries : Table Place DiskEntry

namespace Disk

/-- Whether a place is a directory: the root, an entry that says so, or a place above an entry or
the working directory. -/
def isDirectory (disk : Disk) (place : Place) : Bool :=
  place = [] || disk.entries.get? place = some .directory ||
    place.isPrefixOf disk.workingDirectory ||
    disk.entries.keys.any fun other => other ≠ place && place.isPrefixOf other

def fileAt? (disk : Disk) (place : Place) : Option (List UInt8) :=
  match disk.entries.get? place with
  | some (.file bytes) => some bytes
  | _ => none

def isFile (disk : Disk) (place : Place) : Bool :=
  (disk.fileAt? place).isSome

def components (path : String) : List String :=
  (path.toList.splitOnP (· = '/')).map String.ofList

/-- Where a path starts: at the root if it is absolute. -/
def origin (disk : Disk) (path : String) : Place :=
  if path.toList.head? = some '/' then [] else disk.workingDirectory

/-- The place that components lead to by their text alone. -/
def resolveFrom (place : Place) : List String → Place
  | [] => place
  | "" :: rest => resolveFrom place rest
  | "." :: rest => resolveFrom place rest
  | ".." :: rest => resolveFrom place.dropLast rest
  | name :: rest => resolveFrom (place ++ [name]) rest

def resolve (disk : Disk) (path : String) : Place :=
  resolveFrom (disk.origin path) (components path)

/-- The place that components lead to, each from a directory. -/
def followFrom (disk : Disk) (place : Place) : List String → Except DiskFault Place
  | [] => .ok place
  | name :: rest =>
      if !disk.isDirectory place then
        .error (if disk.isFile place then .notDirectory else .missing)
      else if name = "" || name = "." then followFrom disk place rest
      else if name = ".." then followFrom disk place.dropLast rest
      else if maxNameBytes < name.utf8ByteSize then .error .tooLong
      else followFrom disk (place ++ [name]) rest

def follow (disk : Disk) (path : String) : Except DiskFault Place :=
  if path.isEmpty then .error .missing
  else if maxPathBytes < path.utf8ByteSize then .error .tooLong
  else disk.followFrom (disk.origin path) (components path)

def read (disk : Disk) (path : String) : Except DiskFault (List UInt8) := do
  let place ← disk.follow path
  match disk.fileAt? place with
  | some bytes => pure bytes
  | none => throw (if disk.isDirectory place then .isDirectory else .missing)

/-- Whether the file at a place can be found: only a place whose path is too long is a fault. -/
def findFile (disk : Disk) (place : Place) : Except DiskFault Bool :=
  match disk.follow place.render with
  | .error .tooLong => .error .tooLong
  | _ => .ok (disk.isFile place)

def addDirectory (disk : Disk) (place : Place) : Except DiskFault Disk := do
  let _ ← disk.follow place.render
  if disk.isFile place || disk.isDirectory place then throw .exists
  pure { disk with entries := disk.entries.insert place .directory }

/-- The tree with a directory at a place, given by its names from the last one on, made together
with those missing above it. A directory that is there already is no fault. -/
def makeDirectory (disk : Disk) : List String → Except (DiskFault × Place) Disk
  | [] => .ok disk
  | name :: above =>
      let place := (name :: above).reverse
      let settle := fun (tree : Disk) (fault : DiskFault) =>
        if tree.isDirectory place then .ok tree else .error (fault, place)
      match disk.addDirectory place with
      | .ok made => .ok made
      | .error .missing => do
          let ready ← makeDirectory disk above
          match ready.addDirectory place with
          | .ok made => .ok made
          | .error fault => settle ready fault
      | .error fault => settle disk fault

/-- The tree with a file at a place, in directories made for it. A fault comes with its place. -/
def write (disk : Disk) (place : Place) (bytes : List UInt8) : Except (DiskFault × Place) Disk := do
  let ready ← disk.makeDirectory place.dropLast.reverse
  let _ ← (ready.follow place.render).mapError fun fault => (fault, place)
  if ready.isDirectory place then throw (.isDirectory, place)
  pure { ready with entries := ready.entries.insert place (.file bytes) }

/-- The tree with an entry at a path and a directory at every place that the path leads through. -/
def put (disk : Disk) (path : String) (entry : DiskEntry) : Disk :=
  let parts := components path
  let along := (List.range parts.length).map fun count =>
    resolveFrom (disk.origin path) (parts.take count)
  let missing := along.filter fun place => !disk.isDirectory place
  let ready := missing.foldl (fun entries place => entries.insert place .directory) disk.entries
  { disk with entries := ready.insert (disk.resolve path) entry }

end Disk

end ContractAudit
