import ContractAudit.CommandLine.Run

/-!
# The program

The program loads the home directories, the names of characters and the files that its arguments
name, runs the command line on them, and then writes what the run gives: the two output streams and
the files that it changes.
-/

namespace ContractAudit.Program

open CommandLine

/-- The home directories of a list of users, where a colon ends each field of a line. -/
def homesOf (lines : List String) : List (String × String) :=
  lines.filterMap fun line =>
    match line.splitOn ":" with
    | name :: _ :: _ :: _ :: _ :: home :: _ => some (name, home)
    | _ => none

/-- The code points of a list of characters by their names, where a semicolon ends each field of a
line and the code points are hexadecimal. -/
def charactersOf (lines : List String) : List (String × Nat) :=
  lines.filterMap fun line =>
    match line.splitOn ";" with
    | code :: name :: _ => do
        let digits ← code.toList.mapM Text.hexValue?
        pure (name, digits.foldl (16 * · + ·) 0)
    | _ => none

/-- The lines of a file of the machine, if it has the file. -/
def linesOf (path : String) : IO (List String) := do
  let lines ← try IO.FS.lines path catch _ => pure #[]
  return lines.toList

def loadPlatform : IO Platform := do
  let own ← IO.getEnv "HOME"
  let homes := homesOf (← linesOf "/etc/passwd")
  let characters := charactersOf (← linesOf "/usr/share/unicode/UnicodeData.txt")
  return ⟨fun user => if user.isEmpty then own else homes.lookup user,
    fun name => characters.lookup name.toUpper⟩

def namedPaths (platform : Platform) (words : List String) : List String :=
  match Invocation.ofWords words with
  | .run request =>
      let byNames := fun path => (platform.expandNames path).toOption.getD path
      let configs := request.config.toList.filterMap Setting.value?
      let outputs := request.output.toList.filterMap Setting.value?
      byNames request.file :: (configs.map platform.expand ++ outputs.map byNames)
  | _ => []

def placesAlong (disk : Disk) (path : String) : List Place :=
  let parts := Disk.components path
  distinct ((List.range (parts.length + 1)).flatMap fun count =>
    Place.path (Disk.resolveFrom (disk.origin path) (parts.take count)))

def loadEntry (place : Place) : IO (Option DiskEntry) := do
  let path := (← IO.currentDir) / place.render
  if ← path.isDir then return some .directory
  if ← path.pathExists then return some (.file (← IO.FS.readBinFile path).toList)
  return none

def loadDisk (platform : Platform) (words : List String) : IO Disk := do
  let here ← IO.currentDir
  let empty : Disk := ⟨Disk.resolveFrom [] (Disk.components here.toString), .empty⟩
  let places := distinct ((namedPaths platform words).flatMap (placesAlong empty))
  places.foldlM (fun disk place => do
    match ← loadEntry place with
    | some entry => return { disk with entries := disk.entries.insert place entry }
    | none => return disk) empty

/-- Writes the entries of a tree that another one does not have. -/
def storeChanges (before after : Disk) : IO Unit :=
  after.entries.entries.forM fun (place, entry) => do
    if before.entries.get? place ≠ some entry then
      match entry with
      | .directory => IO.FS.createDirAll place.render
      | .file bytes => IO.FS.writeBinFile place.render ⟨bytes.toArray⟩

end ContractAudit.Program

open ContractAudit in
/-- Runs the program; its result is the exit code. The log carries no time of day. -/
def main (words : List String) : IO UInt32 := do
  let platform ← Program.loadPlatform
  let disk ← Program.loadDisk platform words
  let stdout ← IO.getStdout
  let result := CommandLine.run platform ⟨← stdout.isTty, "00:00:00", Painter.sequences⟩ disk words
  Program.storeChanges disk result.disk
  stdout.putStr result.stdout
  (← IO.getStderr).putStr result.stderr
  return UInt32.ofNat result.exitCode
