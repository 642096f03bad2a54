import JavaMutants.FileSystem
import JavaMutants.Mutant

/-!
# Where mutants are written

A mutant lies under the output directory where its file lies under the
source root, in a file that has the mutant's name. Before anything is
written all paths are laid down: if the output directory is something
else, or if two mutants would go to one place, nothing is written at all.
-/

namespace JavaMutants

/-- **The path of a mutant** of a file under an output directory. -/
def outputPath (outDir origin : Path) (name extension : String) : Path :=
  let dir := match origin.parent? with
    | some parent => if parent.text.isEmpty then outDir else outDir.join parent
    | none => outDir
  dir.join ⟨name ++ "." ++ extension⟩

namespace Output

/-- The path of a mutant. -/
def pathOf (outDir : Path) (extension : String) (m : Mutant) : Path :=
  outputPath outDir m.origin m.name extension

/-- The first path that names the same place as one before it. -/
def repeated? : List Path → List Path → Option Path
  | _, [] => none
  | seen, p :: rest => if seen.any p.same then some p else repeated? (p :: seen) rest

/-- Makes the directories that a path lies in. -/
def makeRoom (fs : FileSystem) (path : Path) : Except Error FileSystem :=
  match path.parent? with
  | some dir =>
    match fs.makeDirectories dir with
    | .ok fs => .ok fs
    | .error fault => .error (.write dir fault.text)
  | none => .ok fs

/-- Writes a text, and makes the directories it lies in. -/
def writeOne (fs : FileSystem) (path : Path) (text : String) : Except Error FileSystem :=
  match makeRoom fs path with
  | .error e => .error e
  | .ok fs =>
    match fs.write path (Text.encode text) with
    | .ok fs => .ok fs
    | .error fault => .error (.write path fault.text)

/-- Writes texts one after the other, up to the first that cannot be
written. What has been written stays. -/
def writeAll (fs : FileSystem) : List (Path × String) → FileSystem × Option Error
  | [] => (fs, none)
  | (path, text) :: rest =>
    match writeOne fs path text with
    | .ok fs => writeAll fs rest
    | .error e => (fs, some e)

/-- **Writes mutants** under an output directory: the file system after
that, and the paths or what went wrong. -/
def write (fs : FileSystem) (outDir : Path) (extension : String) (mutants : List Mutant) :
    FileSystem × Except Error (List Path) :=
  if fs.contains outDir && !fs.isDirectory outDir then
    (fs, .error (.write outDir "output path exists and is not a directory"))
  else
    let paths := mutants.map (pathOf outDir extension)
    match repeated? [] paths with
    | some path =>
      (fs, .error (.write path
        "would be written twice; the same logical file exists under several source roots"))
    | none =>
      match writeAll fs (paths.zip (mutants.map (·.text))) with
      | (fs, none) => (fs, .ok paths)
      | (fs, some e) => (fs, .error e)

end Output

end JavaMutants
