/-!
# Paths

A path is the text it was written as, and it is *read* as a list of
components. Two spellings with the same components name the same place:
repeated separators, a separator at the end and a `.` that is not the
first component do not count, whereas `..` is kept as it stands. Printing
gives the text back; comparing, ordering and stripping go by components.
-/

namespace JavaMutants

/-- One component of a path. The constructors stand in the order in which
components compare. -/
inductive Component where
  /-- The separator that begins an absolute path. -/
  | root
  /-- A `.` at the beginning of a relative path. -/
  | here
  /-- A `..`. -/
  | up
  /-- A name. -/
  | normal (name : String)
deriving DecidableEq, Repr

namespace Component

/-- The rank of a component among the four forms. -/
def rank : Component → Nat
  | root => 0
  | here => 1
  | up => 2
  | normal _ => 3

/-- Names compare by their characters, all else by the form. -/
def compare : Component → Component → Ordering
  | normal a, normal b => Ord.compare a b
  | a, b => Ord.compare a.rank b.rank

end Component

/-- **A path**, as it is written. -/
structure Path where
  /-- The text of the path. -/
  text : String
deriving DecidableEq, Repr

namespace Path

/-- The pieces of a list of characters between separators. There is one
piece more than there are separators. -/
def split : List Char → List (List Char)
  | [] => [[]]
  | c :: cs =>
    if c == '/' then [] :: split cs
    else
      match split cs with
      | [] => [[c]]
      | piece :: rest => (c :: piece) :: rest

/-- The pieces between separators. -/
def pieces (p : Path) : List String := (split p.text.toList).map String.ofList

/-- Whether the path begins at the root. -/
def isAbsolute (p : Path) : Bool := p.text.toList.head? == some '/'

/-- Whether the path ends in a separator. -/
def isOpen (p : Path) : Bool := p.text.toList.getLast? == some '/'

/-- What a piece stands for: an empty piece for nothing, and a `.` only
where it begins a relative path. -/
def component? (first : Bool) (piece : String) : Option Component :=
  if piece == "" then none
  else if piece == "." then if first then some .here else none
  else if piece == ".." then some .up
  else some (.normal piece)

/-- Pairs each piece that counts with its place among all pieces. -/
def located (p : Path) : List (Nat × Component) :=
  (List.range p.pieces.length).zip p.pieces |>.filterMap fun (i, piece) =>
    (component? (i == 0) piece).map fun c => (i, c)

/-- **The components of a path.** -/
def components (p : Path) : List Component :=
  (if p.isAbsolute then [.root] else []) ++ p.located.map (·.2)

/-- The pieces from one place up to another, put together again. -/
def between (p : Path) (start stop : Nat) : Path :=
  ⟨"/".intercalate ((p.pieces.take stop).drop start)⟩

/-- Whether two paths name the same place. -/
def same (p q : Path) : Bool := p.components == q.components

/-- Compares two lists of components from the front. -/
def compareComponents : List Component → List Component → Ordering
  | [], [] => .eq
  | [], _ :: _ => .lt
  | _ :: _, [] => .gt
  | a :: as, b :: bs => (a.compare b).then (compareComponents as bs)

/-- Paths compare component by component. -/
def compare (p q : Path) : Ordering := compareComponents p.components q.components

/-- **The path with another one put after it.** An absolute path stands
alone, and a separator comes between the two unless one is there. -/
def join (p q : Path) : Path :=
  if q.isAbsolute then q
  else if p.text.isEmpty || p.isOpen then ⟨p.text ++ q.text⟩
  else ⟨p.text ++ "/" ++ q.text⟩

/-- **What is left of a path without its last component**, if it has one
to lose. -/
def parent? (p : Path) : Option Path :=
  match p.located.reverse with
  | [] => none
  | [_] => some ⟨if p.isAbsolute then "/" else ""⟩
  | _ :: (i, _) :: _ => some (p.between 0 (i + 1))

/-- The name that a path ends in, if it ends in one. -/
def fileName? (p : Path) : Option String :=
  match p.located.getLast? with
  | some (_, .normal name) => some name
  | _ => none

/-- A file name before and after its last dot. A dot that begins the name
divides nothing. -/
def splitExtension (name : String) : String × Option String :=
  let cs := name.toList.reverse
  match cs.span (· != '.') with
  | (_, []) => (name, none)
  | (_, [_]) => (name, none)
  | (ext, _ :: stem) => (String.ofList stem.reverse, some (String.ofList ext.reverse))

/-- The file name without its extension. -/
def stem? (p : Path) : Option String := p.fileName?.map fun n => (splitExtension n).1

/-- The extension of the file name, without the dot. -/
def extension? (p : Path) : Option String := p.fileName?.bind fun n => (splitExtension n).2

/-- How many components of a path are left once another list of
components is taken off its front, if it begins with that list. -/
def dropPrefix? : List Component → List Component → Option (List Component)
  | cs, [] => some cs
  | c :: cs, d :: ds => if c = d then dropPrefix? cs ds else none
  | [], _ :: _ => none

/-- **A path without a base it begins with**: the part of the text from
the first component left to the last. -/
def strip? (p base : Path) : Option Path :=
  match dropPrefix? p.components base.components with
  | none => none
  | some rest =>
    if rest.length == p.components.length then
      match p.located.getLast? with
      | some (i, _) => some (p.between 0 (i + 1))
      | none => some ⟨if p.isAbsolute then "/" else ""⟩
    else
      match p.located.drop (p.located.length - rest.length) with
      | [] => some ⟨""⟩
      | left@((i, _) :: _) =>
        match left.getLast? with
        | some (j, _) => some (p.between i (j + 1))
        | none => some ⟨""⟩

end Path

instance : Ord Path := ⟨Path.compare⟩

end JavaMutants
