import JavaMutants.Source

/-!
# Targets

The declarations of a file that carry the marker annotation. A target is
found by the structure of the file: a marker counts only as an annotation
among the modifiers of a type, a constructor or a method, whatever is
written in comments and texts.

The search is in two parts. `declarations` lists the declarations that
have modifiers, and `ofDeclarations` makes targets of such a list; its
result does not hang on the order of the list.
-/

namespace JavaMutants

open Syntax

/-- The annotation names that mark declarations. -/
structure Markers where
  /-- The marker of a declaration that is to be mutated. -/
  mutate : String := "Mutate"
  /-- The marker of a declaration that operators have to leave alone. -/
  deprecated : String := "Deprecated"
deriving DecidableEq, Repr

/-- What a target is. -/
inductive TargetKind where
  /-- A class, an interface, an enum, a record or an annotation type. -/
  | typeDeclaration
  /-- A constructor. -/
  | constructor
  /-- A method. -/
  | method
deriving DecidableEq, Repr

namespace TargetKind

/-- The kind of target that a kind of node can be. -/
def ofKind? : Kind → Option TargetKind
  | .classDeclaration => some .typeDeclaration
  | .interfaceDeclaration => some .typeDeclaration
  | .enumDeclaration => some .typeDeclaration
  | .recordDeclaration => some .typeDeclaration
  | .annotationTypeDeclaration => some .typeDeclaration
  | .constructorDeclaration => some .constructor
  | .compactConstructorDeclaration => some .constructor
  | .methodDeclaration => some .method
  | _ => none

/-- The kind in the name of a mutant. -/
def label : TargetKind → String
  | typeDeclaration => "type"
  | constructor => "ctor"
  | method => "method"

/-- The kind in words. -/
def text : TargetKind → String
  | typeDeclaration => "type declaration"
  | constructor => "constructor"
  | method => "method"

end TargetKind

/-- **A marked declaration** and the bytes it takes in its file. -/
structure Target where
  /-- What it is. -/
  kind : TargetKind
  /-- The name it declares. -/
  name : String
  /-- Where it begins. -/
  start : Nat
  /-- Where it has ended. -/
  stop : Nat
  /-- How many targets of its kind come before it in the file. -/
  ordinal : Nat
  /-- Whether it carries the marker. -/
  marked : Bool
  /-- Whether it also carries the marker of what is to be left alone. -/
  deprecated : Bool
deriving DecidableEq, Repr

namespace Target

/-- A target in words. -/
def describe (t : Target) : String :=
  t.kind.text ++ " '" ++ t.name ++ "' #" ++ toString t.ordinal

/-- How many bytes a target has. -/
def size (t : Target) : Nat := t.stop - t.start

/-- Whether a target has no bytes. -/
def isEmpty (t : Target) : Bool := t.start == t.stop

/-! ## Finding targets -/

/-- The text of a node. -/
def nodeText (text : String) (node : Tree) : String :=
  (Text.slice? text node.start node.stop).getD ""

/-- The name of an annotation without what qualifies it. -/
def annotationName? (text : String) (node : Tree) : Option String := do
  let name ← node.child? .name
  match name.kind? with
  | some .identifier => some (nodeText text name)
  | some .scopedIdentifier => (name.child? .name).map (nodeText text)
  | _ => none

/-- The names of the annotations in a list of modifiers. -/
def annotationNames (text : String) (modifiers : Tree) : List String :=
  modifiers.namedChildren.filter (fun c => c.isA .annotationPlain || c.isA .annotationApplied)
    |>.filterMap (annotationName? text)

/-- **The declarations that have modifiers**, each with the list of
them. -/
def declarations (tree : Tree) : List (Tree × Tree) :=
  tree.preorder.flatMap fun node =>
    match node.kind?.bind TargetKind.ofKind? with
    | some _ => (node.children.filter (·.isA .modifiers)).map fun mods => (node, mods)
    | none => []

/-- The target that a declaration is, not yet numbered, if it is one. -/
def ofDeclaration? (markers : Markers) (text : String) (node mods : Tree) : Option Target := do
  let kind ← node.kind?.bind TargetKind.ofKind?
  let names := annotationNames text mods
  if names.contains markers.mutate then
    some {
      kind := kind
      name := ((node.child? .name).map (nodeText text)).getD ""
      start := node.start
      stop := node.stop
      ordinal := 0
      marked := true
      deprecated :=
        names.contains markers.deprecated && markers.deprecated != markers.mutate }
  else none

/-- Of declarations with the same range the first. -/
def distinct : List Span → List (Tree × Tree) → List (Tree × Tree)
  | _, [] => []
  | seen, (node, mods) :: rest =>
    if seen.contains node.span then distinct seen rest
    else (node, mods) :: distinct (node.span :: seen) rest

/-- Whether a target comes before another or is at the same place: what
begins first, and of two that begin together the longer. -/
def before (a b : Target) : Bool :=
  a.start < b.start || (a.start == b.start && b.stop ≤ a.stop)

/-- Numbers the targets of each kind, given those that come before. -/
def number : List Target → List Target → List Target
  | _, [] => []
  | done, t :: rest =>
    let ordinal := (done.filter fun d => d.kind == t.kind).length
    { t with ordinal := ordinal } :: number (t :: done) rest

/-- **Makes targets of declarations**, in source order, outer before
inner. -/
def ofDeclarations (markers : Markers) (text : String) (found : List (Tree × Tree)) :
    List Target :=
  let targets := (distinct [] found).filterMap fun (node, mods) =>
    ofDeclaration? markers text node mods
  number [] (targets.mergeSort before)

/-- **The targets of a file.** -/
def locate (markers : Markers) (file : SourceFile) : List Target :=
  ofDeclarations markers file.text (declarations file.tree)

end Target

end JavaMutants
