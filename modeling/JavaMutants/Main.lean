import JavaMutants.Program

/-!
# The executable

The files that matter to a call are taken from the system into a file
system value, the program is run on it, and what it changed there is
brought back to the system.
-/

namespace JavaMutants.Main

/-- A location as a path of the system. -/
def shown (location : Location) : String := "/" ++ "/".intercalate location

/-- What lies at a location of the system. The target of a link is given
with all links on the way resolved; a link that leads nowhere counts as
nothing. -/
def entryAt (location : Location) : IO (Option Entry) := do
  let path := (← IO.currentDir) / shown location
  try
    match (← path.symlinkMetadata).type with
    | .dir => return some .directory
    | .file => return some (.file (← IO.FS.readBinFile path).toList)
    | .symlink => return some (.link ⟨(← IO.FS.realPath path).toString⟩)
    | .other => return none
  catch
    | .noFileOrDirectory .. => return none
    | e => throw e

/-- Takes in an entry and all that lies below it. -/
partial def takeBelow (fs : FileSystem) (location : Location) : IO FileSystem := do
  match ← entryAt location with
  | none => return fs
  | some .directory =>
    let mut fs := fs.set location .directory
    for child in ← ((← IO.currentDir) / shown location).readDir do
      fs ← takeBelow fs (location ++ [child.fileName])
    return fs
  | some entry => return fs.set location entry

/-- Takes in what lies on the way of the pieces of a path, and, if asked
for, all below where it leads. -/
partial def takePath (below : Bool) (fs : FileSystem) (location : Location) :
    List String → IO FileSystem
  | [] => if below then takeBelow fs location else return fs
  | piece :: rest =>
    if piece == "." then takePath below fs location rest
    else if piece == ".." then takePath below fs location.dropLast rest
    else do
      let next := location ++ [piece]
      match ← entryAt next with
      | none => return fs
      | some (.link target) =>
        takePath below (fs.set next (.link target)) [] (FileSystem.steps target ++ rest)
      | some entry => takePath below (fs.set next entry) next rest

/-- The file system of a call in the working directory of the process,
with what lies at some paths. -/
def snapshot (paths : List Path) : IO FileSystem := do
  let directory : Path := ⟨(← IO.currentDir).toString⟩
  let here := FileSystem.steps directory
  let mut fs ← takePath false { entries := [], here := here } [] here
  for path in paths do
    fs ← takePath true fs (FileSystem.origin here path) (FileSystem.steps path)
  return fs

/-- Brings changes back to the system, the oldest first. -/
def update (before after : FileSystem) : IO Unit := do
  for (location, entry) in after.entries.reverse do
    if before.get? location != some entry then
      match entry with
      | .directory => IO.FS.createDirAll (shown location)
      | .file content => IO.FS.writeBinFile (shown location) ⟨content.toArray⟩
      | .link _ => pure ()

/-- Whether the output is styled: if that is forced, or on a terminal
unless it is ruled out. -/
def isStyled : IO Bool := do
  match ← IO.getEnv "CLICOLOR_FORCE" with
  | some value => if value != "0" then return true
  | none => pure ()
  match ← IO.getEnv "NO_COLOR" with
  | some _ => return false
  | none => (← IO.getStdout).isTty

end JavaMutants.Main

open JavaMutants in
/-- Runs the program on the files of the system. -/
def main (words : List String) : IO UInt32 := do
  let started ← IO.monoNanosNow
  let request := CommandLine.Request.ofWords words
  let files ← Main.snapshot (Program.paths request)
  let ending := Program.perform files (← Main.isStyled) request
  Main.update files ending.files
  let elapsed := (← IO.monoNanosNow) - started
  IO.print (ending.out (.ofNanos elapsed))
  IO.eprint ending.err
  return ending.code.toUInt32
