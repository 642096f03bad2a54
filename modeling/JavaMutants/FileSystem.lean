import JavaMutants.Path
import JavaMutants.Text.Bytes
import JavaMutants.Text.Utf8

/-!
# File systems

A file system as a value. Every entry lies at a location, which is the
list of names on the way from the root down to it, and is a file, a
directory or a link. A path is looked up piece by piece from the root or,
if it is relative, from the working directory: `.` stays, `..` goes up,
and a link is replaced by what it points to.

Operations that change something give the changed file system back, so
an operation that fails changes nothing.
-/

namespace JavaMutants

/-- The names on the way from the root to an entry. -/
abbrev Location := List String

/-- **What lies at a location.** -/
inductive Entry where
  /-- A file with its bytes. -/
  | file (content : List UInt8)
  /-- A directory. -/
  | directory
  /-- A link and the path it points to. -/
  | link (target : Path)
deriving DecidableEq, Repr

/-- **A file system**, seen from a working directory. -/
structure FileSystem where
  /-- The entries below the root, no location twice. -/
  entries : List (Location × Entry)
  /-- The working directory. -/
  here : Location := []

/-- Why a path cannot be used as it is meant. -/
inductive FileSystem.Fault where
  /-- There is nothing. -/
  | notFound
  /-- Something on the way is not a directory. -/
  | notDirectory
  /-- It is a directory. -/
  | isDirectory
  /-- There is something already. -/
  | taken
  /-- A name, or the whole path, is too long. -/
  | tooLong
  /-- Links lead nowhere. -/
  | tooManyLinks
  /-- No name can hold a null character. -/
  | nullCharacter
deriving DecidableEq, Repr

/-- A fault in words. -/
def FileSystem.Fault.text : FileSystem.Fault → String
  | notFound => "No such file or directory (os error 2)"
  | notDirectory => "Not a directory (os error 20)"
  | isDirectory => "Is a directory (os error 21)"
  | taken => "File exists (os error 17)"
  | tooLong => "File name too long (os error 36)"
  | tooManyLinks => "Too many levels of symbolic links (os error 40)"
  | nullCharacter => "file name contained an unexpected NUL byte"

/-- **Where a path leads.** -/
inductive Place where
  /-- To an entry. -/
  | occupied (location : Location) (entry : Entry)
  /-- To a name that is free in a directory. -/
  | free (location : Location)

namespace FileSystem

/-- The file system in which there is only the root. -/
def empty : FileSystem := { entries := [] }

/-- What lies at a location. -/
def get? (fs : FileSystem) (location : Location) : Option Entry :=
  if location.isEmpty then some .directory else fs.entries.lookup location

/-- Puts an entry at a location. -/
def set (fs : FileSystem) (location : Location) (entry : Entry) : FileSystem :=
  { fs with
    entries := (location, entry) :: fs.entries.filter fun (l, _) => l != location }

/-! ## Looking paths up -/

/-- How many bytes a name can have. -/
def longestName : Nat := 255

/-- How many bytes a path can have. -/
def longestPath : Nat := 4095

/-- How many links are followed on the way. -/
def mostLinks : Nat := 40

/-- The pieces of a path that are gone through one by one. A separator at
the end asks for a directory, as a `.` after it would. -/
def steps (p : Path) : List String :=
  (p.pieces.filter (· != "")) ++ (if p.isOpen then ["."] else [])

/-- The location from which a path is looked up. -/
def origin (here : Location) (p : Path) : Location := if p.isAbsolute then [] else here

/-- Goes through pieces from a location. `follow` says whether a link at
the end is followed as well. -/
def walk (fs : FileSystem) (follow : Bool) (links : Nat) (location : Location) :
    List String → Except Fault Place
  | [] =>
    match fs.get? location with
    | some entry => .ok (.occupied location entry)
    | none => .error .notFound
  | piece :: rest =>
    if fs.get? location != some .directory then .error .notDirectory
    else if piece == "." then fs.walk follow links location rest
    else if piece == ".." then fs.walk follow links location.dropLast rest
    else if longestName < Text.size piece then .error .tooLong
    else
      let next := location ++ [piece]
      match fs.get? next with
      | none => if rest.isEmpty then .ok (.free next) else .error .notFound
      | some (.link target) =>
        if rest.isEmpty && !follow then .ok (.occupied next (.link target))
        else
          match links with
          | 0 => .error .tooManyLinks
          | left + 1 => fs.walk follow left (origin location target) (steps target ++ rest)
      | some _ => fs.walk follow links next rest
termination_by pieces => (links, pieces.length)

/-- **Looks pieces of a path up**, unless the path cannot be one. -/
def find (fs : FileSystem) (follow : Bool) (p : Path) (pieces : List String) :
    Except Fault Place :=
  if p.text.contains (Char.ofNat 0) then .error .nullCharacter
  else if p.text.isEmpty then .error .notFound
  else if longestPath < Text.size p.text then .error .tooLong
  else fs.walk follow mostLinks (origin fs.here p) pieces

/-! ## Questions -/

/-- Whether a path leads to something. -/
def contains (fs : FileSystem) (p : Path) : Bool :=
  match fs.find true p (steps p) with
  | .ok (.occupied _ _) => true
  | _ => false

/-- The location of the directory to which a path leads. -/
def directory? (fs : FileSystem) (p : Path) : Option Location :=
  match fs.find true p (steps p) with
  | .ok (.occupied location .directory) => some location
  | _ => none

/-- Whether a path leads to a directory. -/
def isDirectory (fs : FileSystem) (p : Path) : Bool := (fs.directory? p).isSome

/-- **The bytes of the file to which a path leads.** -/
def read (fs : FileSystem) (p : Path) : Except Fault (List UInt8) :=
  match fs.find true p (steps p) with
  | .ok (.occupied _ (.file content)) => .ok content
  | .ok (.occupied _ _) => .error .isDirectory
  | .ok (.free _) => .error .notFound
  | .error fault => .error fault

/-- **The files below a location**, each with the names that lead to it
from there. Links are not followed. -/
def filesBelow (fs : FileSystem) (location : Location) : List (List String × List UInt8) :=
  fs.entries.filterMap fun (l, entry) =>
    match entry with
    | .file content =>
      if location.isPrefixOf l then some (l.drop location.length, content) else none
    | _ => none

/-! ## Changes -/

/-- **Writes a file**, whether it is there or not. -/
def write (fs : FileSystem) (p : Path) (content : List UInt8) : Except Fault FileSystem :=
  match fs.find true p (p.pieces.filter (· != "")) with
  | .ok (.occupied location (.file _)) =>
    if p.isOpen then .error .isDirectory else .ok (fs.set location (.file content))
  | .ok (.free location) =>
    if p.isOpen then .error .isDirectory else .ok (fs.set location (.file content))
  | .ok (.occupied _ _) => .error .isDirectory
  | .error fault => .error fault

/-- Puts something in a free place. -/
def place (fs : FileSystem) (p : Path) (entry : Entry) : Except Fault FileSystem :=
  match fs.find false p (p.pieces.filter (· != "")) with
  | .ok (.free location) => .ok (fs.set location entry)
  | .ok (.occupied _ _) => .error .taken
  | .error fault => .error fault

/-- Makes a directory in a directory that is there. -/
def makeDirectory (fs : FileSystem) (p : Path) : Except Fault FileSystem :=
  fs.place p .directory

/-- A directory that is there needs not be made. -/
def ensureDirectory (fs : FileSystem) (p : Path) : Except Fault FileSystem :=
  match fs.makeDirectory p with
  | .ok fs => .ok fs
  | .error fault => if fs.isDirectory p then .ok fs else .error fault

/-- Makes a directory and those above it, at most so many of them. -/
def makeDirectoriesUpTo (fs : FileSystem) : Nat → Path → Except Fault FileSystem
  | 0, p => fs.ensureDirectory p
  | above + 1, p =>
    if p.text.isEmpty then .ok fs
    else
      match fs.makeDirectory p with
      | .ok fs => .ok fs
      | .error .notFound =>
        match p.parent? with
        | some parent =>
          match fs.makeDirectoriesUpTo above parent with
          | .ok fs => fs.ensureDirectory p
          | .error fault => .error fault
        | none => .error .notFound
      | .error fault => if fs.isDirectory p then .ok fs else .error fault

/-- **Makes a directory and all that it lies in**, as far as they are not
there. -/
def makeDirectories (fs : FileSystem) (p : Path) : Except Fault FileSystem :=
  fs.makeDirectoriesUpTo p.pieces.length p

/-- Makes a link. -/
def makeLink (fs : FileSystem) (p target : Path) : Except Fault FileSystem :=
  fs.place p (.link target)

end FileSystem

end JavaMutants
