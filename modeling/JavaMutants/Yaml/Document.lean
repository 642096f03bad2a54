import JavaMutants.Yaml.Event

/-!
# Documents

The values of the first document of a text, still as a list of steps, and
what each alias stands for. A text that breaks off gives the steps before
the fault: whoever reads the document meets the fault only when going
past them.
-/

namespace JavaMutants.Yaml

/-- **A scalar** with its tag. -/
structure Scalar where
  /-- Its tag. -/
  tag : Option String
  /-- Its text. -/
  text : String
  /-- Its style. -/
  style : ScalarStyle
deriving DecidableEq, Repr

/-- **A step through the values of a document.** -/
inductive Step where
  /-- The value to which the alias of a number leads. -/
  | reference (id : Nat)
  /-- A scalar. -/
  | scalar (s : Scalar)
  /-- A sequence begins. -/
  | sequenceStart
  /-- A sequence ends. -/
  | sequenceEnd
  /-- A mapping begins. -/
  | mappingStart
  /-- A mapping ends. -/
  | mappingEnd
  /-- There is no value at all. -/
  | void
deriving DecidableEq, Repr

/-- Why a document ends early. -/
inductive Ending where
  /-- The text has a fault. -/
  | fault (f : Fault)
  /-- An alias leads nowhere. -/
  | unknownAnchor (mark : Mark)
deriving DecidableEq, Repr

/-- **A document.** -/
structure Document where
  /-- The steps through its values, each with its place. -/
  steps : List (Step × Mark) := []
  /-- Why it ends early, if it does. -/
  ending : Option Ending := none
  /-- The place among the steps to which each number leads; of two
  entries the first counts. -/
  anchors : List (Nat × Nat) := []

namespace Document

/-- A document as far as it has been read, and the numbers of names. -/
structure Draft where
  /-- The document. -/
  document : Document := {}
  /-- The number of each name. -/
  names : List (String × Nat) := []

/-- Adds a step. -/
def Draft.push (d : Draft) (step : Step) (mark : Mark) : Draft :=
  { d with document := { d.document with steps := d.document.steps ++ [(step, mark)] } }

/-- Gives the next step a name. The number of a name is how many names
there were before, the name itself included if it is not new. -/
def Draft.name (d : Draft) (anchor : Option String) : Draft :=
  match anchor with
  | none => d
  | some name =>
    let id := d.names.length
    { document :=
        { d.document with anchors := (id, d.document.steps.length) :: d.document.anchors }
      names := (name, id) :: d.names.filter fun (n, _) => n != name }

/-- Reads the first document: it and the events after it. -/
def first : List (Event × Mark) → Draft → Document × List (Event × Mark)
  | [], d => (d.document, [])
  | (event, mark) :: rest, d =>
    match event with
    | .streamStart => first rest d
    | .documentStart => first rest d
    | .documentEnd => (d.document, rest)
    | .streamEnd =>
      let d := if d.document.steps.isEmpty then d.push .void mark else d
      (d.document, (event, mark) :: rest)
    | .reference name =>
      match d.names.lookup name with
      | some id => first rest (d.push (.reference id) mark)
      | none => ({ d.document with ending := some (.unknownAnchor mark) }, rest)
    | .scalar anchor tag text style =>
      first rest ((d.name anchor).push (.scalar ⟨tag, text, style⟩) mark)
    | .sequenceStart anchor => first rest ((d.name anchor).push .sequenceStart mark)
    | .sequenceEnd => first rest (d.push .sequenceEnd mark)
    | .mappingStart anchor => first rest ((d.name anchor).push .mappingStart mark)
    | .mappingEnd => first rest (d.push .mappingEnd mark)

/-- The first document of a text, and whether it is the only one. -/
def read (text : String) : Document × Bool :=
  let (events, fault) := Event.read text
  let isEnd := fun (e : Event × Mark) => e.1 == .documentEnd || e.1 == .streamEnd
  let (document, rest) := first events {}
  match document.ending, fault with
  | none, some f =>
    if events.any isEnd then (document, false)
    else ({ document with ending := some (.fault f) }, true)
  | _, _ => (document, rest.head?.all fun (event, _) => event == .streamEnd)

end Document

end JavaMutants.Yaml
