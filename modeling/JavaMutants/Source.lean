import JavaMutants.Error
import JavaMutants.Syntax.Parse
import JavaMutants.Text.Quoted

/-!
# Source files

A source file is a text under a logical path, together with its syntax
tree; it exists only if the tree is free of faults. A **fragment** is the
text of one declaration parsed without its file. A constructor or a
method cannot stand alone, so it is parsed in the body of a class that is
put around it.
-/

namespace JavaMutants

open Syntax

/-- A file to be processed, and the source root it belongs to. -/
structure SourceInput where
  /-- The source root. -/
  root : Path
  /-- The file. -/
  path : Path
deriving DecidableEq, Repr

/-- **The logical path of an input**: its path below the root, or only its
name if it does not lie there. -/
def SourceInput.logicalPath (input : SourceInput) : Path :=
  match input.path.strip? input.root with
  | some below => below
  | none =>
    match input.path.fileName? with
    | some name => ⟨name⟩
    | none => input.path

/-- Inputs compare by their roots first and then by their paths. -/
def SourceInput.compare (a b : SourceInput) : Ordering :=
  (a.root.compare b.root).then (a.path.compare b.path)

/-- A place in a text, counted from one; columns count bytes. -/
structure Position where
  /-- The line. -/
  line : Nat
  /-- The byte of the line. -/
  column : Nat
deriving DecidableEq, Repr

/-- The place of the last of some characters. -/
def Position.after : List Char → Position
  | cs =>
    let lines := cs.filter (· == '\n')
    let last := (cs.reverse.takeWhile (· != '\n'))
    ⟨lines.length + 1, Text.byteLength last + 1⟩

/-- The place of a byte offset in a text. -/
def Position.ofOffset (text : String) (offset : Nat) : Position :=
  match Text.splitAt? offset text.toList with
  | some (before, _) => .after before
  | none => .after text.toList

/-- What is wrong at a fault. -/
def faultReason (text : String) (fault : Tree) : String :=
  let what := match fault.label with
    | .missing token => "missing '" ++ token ++ "'"
    | _ => "syntax error"
  let place := Position.ofOffset text fault.start
  what ++ " at " ++ toString place.line ++ ":" ++ toString place.column

/-- **The syntax tree of a text, or why it is not well-formed.** -/
def parseSound (text : String) : Except String Tree :=
  let tree := parse text
  match tree.firstFault with
  | some fault => .error (faultReason text fault)
  | none => .ok tree

/-- **A source file.** -/
structure SourceFile where
  /-- Where it lies below its source root. -/
  path : Path
  /-- Its text. -/
  text : String
  /-- Its syntax tree. -/
  tree : Tree

namespace SourceFile

/-- **Takes a text as the file at a logical path.** -/
def parse (path : Path) (text : String) : Except Error SourceFile :=
  match parseSound text with
  | .ok tree => .ok ⟨path, text, tree⟩
  | .error reason => .error (.malformed path reason)

/-- The name of the file without its extension. -/
def simpleName (file : SourceFile) : String := file.path.stem?.getD ""

/-- The text of a range of bytes. -/
def slice? (file : SourceFile) (start stop : Nat) : Option String :=
  Text.slice? file.text start stop

/-- The file as it is shown in diagnostics. -/
def debug (file : SourceFile) : String :=
  "SourceFile \x7b path: " ++ Text.quote file.path.text ++ ", len: "
    ++ toString (Text.size file.text) ++ " \x7d"

end SourceFile

/-- **A declaration parsed on its own.** -/
structure Fragment where
  /-- What was parsed, with all that was put around. -/
  text : String
  /-- Where the declaration begins in it. -/
  offset : Nat
  /-- How many bytes the declaration has. -/
  size : Nat
  /-- The tree of what was parsed. -/
  tree : Tree

namespace Fragment

/-- What comes before a member of a class. -/
def before : String := "class __Fragment \x7b\n"

/-- What comes after a member of a class. -/
def after : String := "\n\x7d\n"

/-- Parses the text of a member of a class, or of a type. -/
def parse? (span : String) (isMember : Bool) : Option Fragment :=
  let (text, offset) :=
    if isMember then (before ++ span ++ after, Text.size before) else (span, 0)
  match parseSound text with
  | .ok tree => some ⟨text, offset, Text.size span, tree⟩
  | .error _ => none

/-- **The declaration of a fragment**: the deepest node that covers its
text. -/
def declaration (fragment : Fragment) : Tree :=
  fragment.tree.covering ⟨fragment.offset, fragment.offset + fragment.size⟩

/-- **The bytes that a node takes**, counted from where the declaration begins;
no node that begins before has them. -/
def localRange? (fragment : Fragment) (node : Tree) : Option (Nat × Nat) :=
  if fragment.offset ≤ node.start && fragment.offset ≤ node.stop then
    some (node.start - fragment.offset, node.stop - fragment.offset)
  else none

/-- The text of a node. -/
def textOf? (fragment : Fragment) (node : Tree) : Option String :=
  Text.slice? fragment.text node.start node.stop

end Fragment

end JavaMutants
