import JavaMutants.FileSystem
import JavaMutants.Source

/-!
# Source roots

The source files of a file system: how they are found below a directory,
and how one of them is read. A file counts by its extension alone, links
are not followed, and what is found comes in the order of the paths.
-/

namespace JavaMutants

namespace SourceInput

/-- Whether an input does not come after another one. -/
def notAfter (a b : SourceInput) : Bool := (a.compare b).isLE

/-- The files below the directory at a location that have an extension,
as inputs under a root. -/
def below (fs : FileSystem) (root : Path) (extension : String) (location : Location) :
    List SourceInput :=
  (fs.filesBelow location).map (fun (names, _) => root.join ⟨"/".intercalate names⟩)
    |>.filter (fun path => path.extension? == some extension)
    |>.map (SourceInput.mk root)

/-- **The source files under a root**, in the order of their paths. -/
def ofRoot (fs : FileSystem) (extension : String) (root : Path) :
    Except Error (List SourceInput) :=
  match fs.directory? root with
  | some location => .ok ((below fs root extension location).mergeSort notAfter)
  | none => .error (.io root "source root is not a directory")

/-- **The source files under roots**, root after root. -/
def ofRoots (fs : FileSystem) (extension : String) : List Path →
    Except Error (List SourceInput)
  | [] => .ok []
  | root :: rest => do
    let first ← ofRoot fs extension root
    let others ← ofRoots fs extension rest
    .ok (first ++ others)

end SourceInput

/-- **Reads and parses an input.** -/
def SourceFile.load (fs : FileSystem) (input : SourceInput) : Except Error SourceFile :=
  match fs.read input.path with
  | .error fault => .error (.io input.path fault.text)
  | .ok bytes =>
    match Text.decode bytes with
    | .error fault =>
      .error (.malformed input.logicalPath ("not valid UTF-8: " ++ fault.message))
    | .ok text => SourceFile.parse input.logicalPath text

end JavaMutants
