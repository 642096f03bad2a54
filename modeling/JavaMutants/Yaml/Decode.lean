import JavaMutants.Yaml.Plain

/-!
# Decoding documents

Takes the values of a document for what they are expected to be: texts,
truth values, numbers, lists of texts, and records whose fields are given
by name. A complaint tells by which keys the value is reached and where it
stands. The first thing that is wrong counts, in the order of the text; the
fault of a text that breaks off comes after all that was read before.
-/

namespace JavaMutants.Yaml

/-- **Why a document is not what was expected.** -/
inductive Refusal where
  /-- A value is of the wrong kind; the keys that lead to it and its place
  are told once they are known. -/
  | value (complaint : String) (place : Option (String × Mark))
  /-- The text has a fault. -/
  | fault (f : Fault)
  /-- An alias leads nowhere. -/
  | unknownAnchor (mark : Mark)
  /-- A value is missing. -/
  | missing
  /-- The text has more than one document. -/
  | furtherDocument
deriving DecidableEq, Repr

namespace Refusal

/-- Where a refusal is, unless it is at the very beginning. -/
def placed (mark : Mark) : String := if mark.isInside then " at " ++ mark.text else ""

/-- **A refusal in words.** -/
def message : Refusal → String
  | value complaint none => complaint
  | value complaint (some (path, mark)) =>
    (if path.isEmpty then "" else path ++ ": ") ++ complaint ++ placed mark
  | fault f => f.message
  | unknownAnchor mark => "unknown anchor" ++ placed mark
  | missing => "EOF while parsing a value"
  | furtherDocument =>
    "deserializing from YAML containing more than one document is not supported"

/-- Tells the place of a complaint that has none. -/
def locate (path : String) (mark : Mark) : Refusal → Refusal
  | value complaint none => value complaint (some (path, mark))
  | r => r

end Refusal

/-- The steps that are left of a document. -/
abbrev Steps := List (Step × Mark)

/-- A value and the steps after it. -/
abbrev Decoded (α : Type) := Except Refusal (α × Steps)

namespace Document

/-- Why there is no further step. -/
def refusalAtEnd (d : Document) : Refusal :=
  match d.ending with
  | some (.fault f) => .fault f
  | some (.unknownAnchor mark) => .unknownAnchor mark
  | none => .missing

/-- The steps from the value on to which a number leads. -/
def stepsOf (d : Document) (id : Nat) : Steps := d.steps.drop ((d.anchors.lookup id).getD 0)

/-- Goes past a value; `depth` is how many collections are open in it. -/
def ignore (d : Document) : Nat → Steps → Except Refusal Steps
  | _, [] => .error d.refusalAtEnd
  | depth, (step, _) :: rest =>
    match step with
    | .sequenceStart => d.ignore (depth + 1) rest
    | .mappingStart => d.ignore (depth + 1) rest
    | .sequenceEnd => if depth ≤ 1 then .ok rest else d.ignore (depth - 1) rest
    | .mappingEnd => if depth ≤ 1 then .ok rest else d.ignore (depth - 1) rest
    | _ => if depth == 0 then .ok rest else d.ignore depth rest

/-- The complaint about a value where something else was expected. -/
def complaint (step : Step) (expected : String) : Refusal :=
  match step with
  | .scalar s => .value (s.complaint expected) none
  | .sequenceStart => .value ("invalid type: sequence, expected " ++ expected) none
  | .mappingStart => .value ("invalid type: map, expected " ++ expected) none
  | _ => .missing

/-- **Takes the next value by its first step**, or by the first step of
what an alias leads to; then the steps after the alias are the ones that
are left. -/
def decode {α : Type} (d : Document) (path : String) (go : Step → Mark → Steps → Decoded α)
    (steps : Steps) : Decoded α :=
  match steps with
  | [] => .error d.refusalAtEnd
  | (.reference id, _) :: rest =>
    match d.stepsOf id with
    | [] => .error d.refusalAtEnd
    | (step, mark) :: after =>
      match go step mark after with
      | .ok (value, _) => .ok (value, rest)
      | .error r => .error (r.locate path mark)
  | (step, mark) :: rest => (go step mark rest).mapError (Refusal.locate path mark)

/-- A scalar of which something is made. -/
def decodeScalar {α : Type} (d : Document) (path expected : String) (f : Scalar → Option α)
    (steps : Steps) : Decoded α :=
  d.decode path (fun step _ rest =>
    match step with
    | .scalar s =>
      match f s with
      | some value => .ok (value, rest)
      | none => .error (complaint step expected)
    | _ => .error (complaint step expected)) steps

/-- **A text**: every scalar is one. -/
def text (d : Document) (path expected : String) (steps : Steps) : Decoded String :=
  d.decodeScalar path expected (fun s => some s.text) steps

/-- **A truth value.** -/
def truth (d : Document) (path : String) (steps : Steps) : Decoded Bool :=
  d.decodeScalar path "a boolean"
    (fun s => if s.isOpen "bool" then truth? s.text else none) steps

/-- **A whole number** of at most 64 binary digits. -/
def natural (d : Document) (path : String) (steps : Steps) : Decoded Nat :=
  d.decodeScalar path "usize"
    (fun s => if s.isOpen "int" then (natural? s.text).filter (· ≤ greatest 64) else none) steps

/-- Whether a step stands for a collection with nothing in it. -/
def isNothing (step : Step) : Bool :=
  match step with
  | .void => true
  | .scalar s => s.text.isEmpty && s.style == .plain
  | _ => false

/-- The texts up to the end of a sequence, counted from a number. -/
def entries (d : Document) (path : String) : Nat → Nat → Steps → Decoded (List String)
  | 0, _, _ => .error d.refusalAtEnd
  | fuel + 1, index, steps =>
    match steps with
    | [] => .error d.refusalAtEnd
    | (.sequenceEnd, _) :: rest => .ok ([], rest)
    | steps =>
      match d.text (path ++ "[" ++ toString index ++ "]") "a string" steps with
      | .error r => .error r
      | .ok (first, rest) =>
        (d.entries path fuel (index + 1) rest).map fun (others, rest) => (first :: others, rest)

/-- **A list of texts.** -/
def texts (d : Document) (path : String) (steps : Steps) : Decoded (List String) :=
  d.decode path (fun step _ rest =>
    match step with
    | .sequenceStart => d.entries path (rest.length + 1) 0 rest
    | step => if isNothing step then .ok ([], rest) else .error (complaint step "a sequence"))
    steps

/-- **A field of a record**: its key and how its value is put into the
record. -/
structure FieldReader (α : Type) where
  /-- The key. -/
  key : String
  /-- Takes the value that is reached by some keys. -/
  read : String → α → Steps → Decoded α

/-- The keys that lead to a value in a record. The key is told only if it
is written out as a scalar. -/
def childPath (path : String) (key : Option String) : String :=
  (if path.isEmpty then "" else path ++ ".") ++ key.getD "?"

/-- The key that is written out at the beginning of steps. -/
def writtenKey (steps : Steps) : Option String :=
  match steps with
  | (.scalar s, _) :: _ => some s.text
  | _ => none

/-- The fields up to the end of a mapping. A key that is not known is
passed over with its value; one that is known may come only once. -/
def fields {α : Type} (d : Document) (path : String) (known : List (FieldReader α)) :
    Nat → List String → α → Steps → Decoded α
  | 0, _, _, _ => .error d.refusalAtEnd
  | fuel + 1, seen, record, steps =>
    match steps with
    | [] => .error d.refusalAtEnd
    | (.mappingEnd, _) :: rest => .ok (record, rest)
    | steps =>
      match d.text path "field identifier" steps with
      | .error r => .error r
      | .ok (key, rest) =>
        match known.find? fun f => f.key == key with
        | none =>
          match d.ignore 0 rest with
          | .error r => .error r
          | .ok rest => d.fields path known fuel seen record rest
        | some f =>
          if seen.contains key then
            .error (.value ("duplicate field \x60" ++ key ++ "\x60") none)
          else
            match f.read (childPath path (writtenKey steps)) record rest with
            | .error r => .error r
            | .ok (record, rest) => d.fields path known fuel (key :: seen) record rest

/-- **A record**, given what it is where no field is given. -/
def record {α : Type} (d : Document) (path expected : String) (known : List (FieldReader α))
    (blank : α) (steps : Steps) : Decoded α :=
  d.decode path (fun step _ rest =>
    match step with
    | .mappingStart => d.fields path known (rest.length + 1) [] blank rest
    | step => if isNothing step then .ok (blank, rest) else .error (complaint step expected))
    steps

end Document

/-- **Decodes the only document of a text.** -/
def decode {α : Type} (text : String) (go : Document → Steps → Decoded α) : Except Refusal α :=
  let (d, isOnly) := Document.read text
  match go d d.steps with
  | .error r => .error r
  | .ok (value, _) =>
    if d.ending.isSome then .error d.refusalAtEnd
    else if isOnly then .ok value
    else .error .furtherDocument

end JavaMutants.Yaml
