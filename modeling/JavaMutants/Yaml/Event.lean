import JavaMutants.Yaml.Token

/-!
# Events

The structure of a text as a list of events: documents, sequences and
mappings that begin and end, and scalars and aliases in them. A value
that is left out shows as an empty plain scalar. Tags are written out in
full here.
-/

namespace JavaMutants.Yaml

/-- **What happens in a text.** -/
inductive Event where
  /-- The text begins. -/
  | streamStart
  /-- The text ends. -/
  | streamEnd
  /-- A document begins. -/
  | documentStart
  /-- A document ends. -/
  | documentEnd
  /-- A value is called again. -/
  | reference (name : String)
  /-- A scalar, with its anchor and its tag. -/
  | scalar (anchor tag : Option String) (text : String) (style : ScalarStyle)
  /-- A sequence begins. -/
  | sequenceStart (anchor : Option String)
  /-- A sequence ends. -/
  | sequenceEnd
  /-- A mapping begins. -/
  | mappingStart (anchor : Option String)
  /-- A mapping ends. -/
  | mappingEnd
deriving DecidableEq, Repr

/-- **What is expected next.** -/
inductive Expectation where
  /-- The beginning of the text. -/
  | streamStart
  /-- A document, of which the mark may be left out. -/
  | firstDocument
  /-- A document with its mark, or the end of the text. -/
  | nextDocument
  /-- What comes after the mark of a document. -/
  | documentContent
  /-- The end of a document. -/
  | documentEnd
  /-- A node in the block style. -/
  | blockNode
  /-- The first entry of a sequence in the block style. -/
  | firstBlockEntry
  /-- A further entry of a sequence in the block style. -/
  | blockEntry
  /-- An entry of a sequence that is not indented. -/
  | looseEntry
  /-- The first key of a mapping in the block style. -/
  | firstBlockKey
  /-- A further key of a mapping in the block style. -/
  | blockKey
  /-- A value of a mapping in the block style. -/
  | blockValue
  /-- The first entry of a sequence in the flow style. -/
  | firstFlowEntry
  /-- A further entry of a sequence in the flow style. -/
  | flowEntry
  /-- The key of a pair in a sequence. -/
  | pairKey
  /-- The value of a pair in a sequence. -/
  | pairValue
  /-- The end of a pair in a sequence. -/
  | pairEnd
  /-- The first key of a mapping in the flow style. -/
  | firstFlowKey
  /-- A further key of a mapping in the flow style. -/
  | flowKey
  /-- A value of a mapping in the flow style. -/
  | flowValue
  /-- The value of a key that stands alone. -/
  | noFlowValue
  /-- Nothing. -/
  | done
deriving DecidableEq, Repr

/-- **A list of tokens as far as it has been understood.** -/
structure Reader where
  /-- The tokens that are left. -/
  tokens : List Token
  /-- The fault after the last token. -/
  fault : Option Fault
  /-- What is expected next. -/
  expects : Expectation := .streamStart
  /-- What is expected after that. -/
  later : List Expectation := []
  /-- Where the open collections begin. -/
  opened : List Mark := []
  /-- What the handles of tags stand for. -/
  handles : List (String × String) := []

namespace Reader

/-- An event with its place, and what comes then. -/
abbrev Step := Except Fault (Event × Mark × Reader)

/-- The next token. -/
def peek (r : Reader) : Except Fault Token :=
  match r.tokens, r.fault with
  | t :: _, _ => .ok t
  | [], some f => .error f
  | [], none => .error { problem := .endOfText, mark := {} }

/-- Goes past a token. -/
def skip (r : Reader) : Reader := { r with tokens := r.tokens.drop 1 }

/-- Expects something next. -/
def expecting (r : Reader) (e : Expectation) : Reader := { r with expects := e }

/-- Expects something after what comes next. -/
def postpone (r : Reader) (e : Expectation) : Reader := { r with later := e :: r.later }

/-- Goes on with what was expected for later. -/
def resume (r : Reader) : Reader :=
  match r.later with
  | e :: rest => { r with expects := e, later := rest }
  | [] => { r with expects := .done }

/-- Notes where a collection begins. -/
def enter (r : Reader) (mark : Mark) : Reader := { r with opened := mark :: r.opened }

/-- Leaves a collection. -/
def leave (r : Reader) : Reader := { r.resume with opened := r.opened.drop 1 }

/-- A fault in the collection that was entered last. -/
def collectionFault (r : Reader) (activity : Activity) (problem : Problem) (t : Token) : Fault :=
  { problem := problem, mark := t.start
    context := some (activity, r.opened.head?.getD {}) }

/-- A value that is left out. -/
def nothing (r : Reader) (mark : Mark) : Step := .ok (.scalar none none "" .plain, mark, r)

/-! ## Documents -/

/-- The handles that every document has. -/
def commonHandles : List (String × String) := [("!", "!"), ("!!", "tag:yaml.org,2002:")]

/-- Adds the handles that every document has, unless they are given. -/
def withCommonHandles (handles : List (String × String)) : List (String × String) :=
  handles ++ commonHandles.filter fun (name, _) => (handles.lookup name).isNone

/-- Reads directives; the flag tells whether there was a version. -/
def directives (r : Reader) : Nat → Bool → List (String × String) → Except Fault Reader
  | 0, _, handles => .ok { r with handles := withCommonHandles handles }
  | n + 1, versioned, handles => do
    let t ← r.peek
    match t.kind with
    | .directive (.version major minor) =>
      if versioned then .error { problem := .repeatedVersion, mark := t.start }
      else if major != 1 || (minor != 1 && minor != 2) then
        .error { problem := .wrongVersion, mark := t.start }
      else r.skip.directives n true handles
    | .directive (.handle name text) =>
      if (handles.lookup name).isSome then
        .error { problem := .repeatedHandle, mark := t.start }
      else r.skip.directives n versioned (handles ++ [(name, text)])
    | _ => .ok { r with handles := withCommonHandles handles }

/-- Goes past the marks with which documents end. -/
def skipDocumentEnds (r : Reader) : Nat → Reader
  | 0 => r
  | n + 1 =>
    match r.tokens with
    | t :: _ => if t.kind == .documentEnd then r.skip.skipDocumentEnds n else r
    | [] => r

/-- Whether a token announces a document. -/
def announces (kind : TokenKind) : Bool :=
  match kind with
  | .directive _ => true
  | .documentStart => true
  | .streamEnd => true
  | _ => false

/-- The beginning of a document. -/
def document (r : Reader) (isFirst : Bool) : Step := do
  let r := if isFirst then r else r.skipDocumentEnds r.tokens.length
  let t ← r.peek
  if isFirst && !announces t.kind then
    let r ← r.directives 0 false []
    .ok (.documentStart, t.start, (r.postpone .documentEnd).expecting .blockNode)
  else if t.kind == .streamEnd then .ok (.streamEnd, t.start, r.skip.expecting .done)
  else
    let r ← r.directives (r.tokens.length + 1) false []
    let next ← r.peek
    if next.kind == .documentStart then
      .ok (.documentStart, t.start, (r.skip.postpone .documentEnd).expecting .documentContent)
    else .error { problem := .noDocumentStart, mark := next.start }

/-- The end of a document. -/
def endDocument (r : Reader) : Step := do
  let t ← r.peek
  let r := if t.kind == .documentEnd then r.skip else r
  .ok (.documentEnd, t.start, { r with expects := .nextDocument, handles := [] })

/-! ## Nodes -/

/-- The anchor and the tag of a node, each with its place. -/
structure Properties where
  /-- The anchor. -/
  anchor : Option String := none
  /-- The handle and the text of the tag, and where it stands. -/
  tag : Option (String × String × Mark) := none
  /-- Where the first of them begins. -/
  start : Option Mark := none

/-- Reads an anchor, if one is next. -/
def readAnchor (r : Reader) (p : Properties) : Except Fault (Reader × Properties) := do
  let t ← r.peek
  match t.kind with
  | .anchor name => .ok (r.skip, { p with anchor := some name, start := p.start.or (some t.start) })
  | _ => .ok (r, p)

/-- Reads a tag, if one is next. -/
def readTag (r : Reader) (p : Properties) : Except Fault (Reader × Properties) := do
  let t ← r.peek
  match t.kind with
  | .tag handle text =>
    .ok (r.skip, { p with tag := some (handle, text, t.start), start := p.start.or (some t.start) })
  | _ => .ok (r, p)

/-- Reads an anchor and a tag in either order. -/
def properties (r : Reader) : Except Fault (Reader × Properties) := do
  let (r, p) ← r.readAnchor {}
  if p.anchor.isSome then r.readTag p
  else
    let (r, p) ← r.readTag p
    if p.tag.isSome then r.readAnchor p else .ok (r, p)

/-- The tag in full. -/
def fullTag (r : Reader) (start : Mark) (p : Properties) : Except Fault (Option String) :=
  match p.tag with
  | none => .ok none
  | some (handle, text, mark) =>
    if handle.isEmpty then .ok (some text)
    else
      match r.handles.lookup handle with
      | some head => .ok (some (head ++ text))
      | none =>
        .error { problem := .unknownHandle, mark := mark, context := some (.node, start) }

/-- A node. `isBlock` allows the block style, `loose` a sequence that is
not indented. -/
def node (r : Reader) (isBlock loose : Bool) : Step := do
  let first ← r.peek
  match first.kind with
  | .reference name => .ok (.reference name, first.start, r.skip.resume)
  | _ =>
    let (r, p) ← r.properties
    let start := p.start.getD first.start
    let tag ← r.fullTag start p
    let t ← r.peek
    match t.kind with
    | .scalar text style =>
      let tag := if tag == some "!" then none else tag
      .ok (.scalar p.anchor tag text style, start, r.skip.resume)
    | .flowSequenceStart => .ok (.sequenceStart p.anchor, start, r.expecting .firstFlowEntry)
    | .flowMappingStart => .ok (.mappingStart p.anchor, start, r.expecting .firstFlowKey)
    | kind =>
      if loose && kind == .blockEntry then
        .ok (.sequenceStart p.anchor, start, r.expecting .looseEntry)
      else if isBlock && kind == .blockSequenceStart then
        .ok (.sequenceStart p.anchor, start, r.expecting .firstBlockEntry)
      else if isBlock && kind == .blockMappingStart then
        .ok (.mappingStart p.anchor, start, r.expecting .firstBlockKey)
      else if p.start.isSome then .ok (.scalar p.anchor tag "" .plain, start, r.resume)
      else
        .error {
          problem := .noContent, mark := t.start
          context := some (if isBlock then .blockNode else .flowNode, start) }

/-- What comes after the mark of a document. -/
def content (r : Reader) : Step := do
  let t ← r.peek
  if announces t.kind || t.kind == .documentEnd then r.resume.nothing t.start
  else r.node true false

/-! ## Collections in the block style -/

/-- An entry of a sequence. -/
def entry (r : Reader) : Step := do
  let t ← r.peek
  if t.kind == .blockEntry then
    let r := r.skip
    let next ← r.peek
    if next.kind == .blockEntry || next.kind == .blockEnd then
      (r.expecting .blockEntry).nothing t.stop
    else (r.postpone .blockEntry).node true false
  else if t.kind == .blockEnd then .ok (.sequenceEnd, t.start, r.skip.leave)
  else .error (r.collectionFault .blockSequence .noEntry t)

/-- An entry of a sequence that is not indented. -/
def entryLoose (r : Reader) : Step := do
  let t ← r.peek
  if t.kind == .blockEntry then
    let r := r.skip
    let next ← r.peek
    if next.kind == .blockEntry || next.kind == .key || next.kind == .value
        || next.kind == .blockEnd then
      (r.expecting .looseEntry).nothing t.stop
    else (r.postpone .looseEntry).node true false
  else .ok (.sequenceEnd, t.start, r.resume)

/-- Whether a token ends a key or a value of the block style. -/
def endsBlockPart (kind : TokenKind) : Bool :=
  kind == .key || kind == .value || kind == .blockEnd

/-- A key of a mapping. -/
def blockKey (r : Reader) : Step := do
  let t ← r.peek
  if t.kind == .key then
    let r := r.skip
    let next ← r.peek
    if endsBlockPart next.kind then (r.expecting .blockValue).nothing t.stop
    else (r.postpone .blockValue).node true true
  else if t.kind == .blockEnd then .ok (.mappingEnd, t.start, r.skip.leave)
  else .error (r.collectionFault .blockMapping .noKey t)

/-- A value of a mapping. -/
def blockValue (r : Reader) : Step := do
  let t ← r.peek
  if t.kind == .value then
    let r := r.skip
    let next ← r.peek
    if endsBlockPart next.kind then (r.expecting .blockKey).nothing t.stop
    else (r.postpone .blockKey).node true true
  else (r.expecting .blockKey).nothing t.start

/-! ## Collections in the flow style -/

/-- An entry of a sequence. -/
def flowEntry (r : Reader) (isFirst : Bool) : Step := do
  let t ← r.peek
  if t.kind == .flowSequenceEnd then .ok (.sequenceEnd, t.start, r.skip.leave)
  else if !isFirst && t.kind != .flowEntry then
    .error (r.collectionFault .flowSequence .noSequenceClose t)
  else
    let r := if isFirst then r else r.skip
    let t ← r.peek
    if t.kind == .key then .ok (.mappingStart none, t.start, r.skip.expecting .pairKey)
    else if t.kind == .flowSequenceEnd then .ok (.sequenceEnd, t.start, r.skip.leave)
    else (r.postpone .flowEntry).node false false

/-- The key of a pair. -/
def pairKey (r : Reader) : Step := do
  let t ← r.peek
  if t.kind == .value || t.kind == .flowEntry || t.kind == .flowSequenceEnd then
    (r.skip.expecting .pairValue).nothing t.stop
  else (r.postpone .pairValue).node false false

/-- The value of a pair. -/
def pairValue (r : Reader) : Step := do
  let t ← r.peek
  if t.kind == .value then
    let r := r.skip
    let next ← r.peek
    if next.kind == .flowEntry || next.kind == .flowSequenceEnd then
      (r.expecting .pairEnd).nothing next.start
    else (r.postpone .pairEnd).node false false
  else (r.expecting .pairEnd).nothing t.start

/-- The end of a pair. -/
def pairEnd (r : Reader) : Step := do
  let t ← r.peek
  .ok (.mappingEnd, t.start, r.expecting .flowEntry)

/-- A key of a mapping. -/
def flowKey (r : Reader) (isFirst : Bool) : Step := do
  let t ← r.peek
  if t.kind == .flowMappingEnd then .ok (.mappingEnd, t.start, r.skip.leave)
  else if !isFirst && t.kind != .flowEntry then
    .error (r.collectionFault .flowMapping .noMappingClose t)
  else
    let r := if isFirst then r else r.skip
    let t ← r.peek
    if t.kind == .key then
      let r := r.skip
      let next ← r.peek
      if next.kind == .value || next.kind == .flowEntry || next.kind == .flowMappingEnd then
        (r.expecting .flowValue).nothing next.start
      else (r.postpone .flowValue).node false false
    else if t.kind == .flowMappingEnd then .ok (.mappingEnd, t.start, r.skip.leave)
    else (r.postpone .noFlowValue).node false false

/-- A value of a mapping. -/
def flowValue (r : Reader) : Step := do
  let t ← r.peek
  if t.kind == .value then
    let r := r.skip
    let next ← r.peek
    if next.kind == .flowEntry || next.kind == .flowMappingEnd then
      (r.expecting .flowKey).nothing next.start
    else (r.postpone .flowKey).node false false
  else (r.expecting .flowKey).nothing t.start

/-- The value of a key that stands alone. -/
def noFlowValue (r : Reader) : Step := do
  let t ← r.peek
  (r.expecting .flowKey).nothing t.start

/-- Enters the collection that the next token begins. -/
def begin (r : Reader) (go : Reader → Step) : Step := do
  let t ← r.peek
  go (r.skip.enter t.start)

/-- **The next event.** -/
def next (r : Reader) : Step :=
  match r.expects with
  | .streamStart => do
    let t ← r.peek
    .ok (.streamStart, t.start, r.skip.expecting .firstDocument)
  | .firstDocument => r.document true
  | .nextDocument => r.document false
  | .documentContent => r.content
  | .documentEnd => r.endDocument
  | .blockNode => r.node true false
  | .firstBlockEntry => r.begin entry
  | .blockEntry => r.entry
  | .looseEntry => r.entryLoose
  | .firstBlockKey => r.begin blockKey
  | .blockKey => r.blockKey
  | .blockValue => r.blockValue
  | .firstFlowEntry => r.begin (flowEntry · true)
  | .flowEntry => r.flowEntry false
  | .pairKey => r.pairKey
  | .pairValue => r.pairValue
  | .pairEnd => r.pairEnd
  | .firstFlowKey => r.begin (flowKey · true)
  | .flowKey => r.flowKey false
  | .flowValue => r.flowValue
  | .noFlowValue => r.noFlowValue
  | .done => .ok (.streamEnd, {}, r)

/-- The events up to the end of the text or to a fault. -/
def toEnd : Nat → Reader → List (Event × Mark) × Option Fault
  | 0, _ => ([], none)
  | n + 1, r =>
    match r.next with
    | .error f => ([], some f)
    | .ok (event, mark, r) =>
      if event == .streamEnd then ([(event, mark)], none)
      else
        let (events, fault) := toEnd n r
        ((event, mark) :: events, fault)

end Reader

/-- **The events of a text**, as far as it has no fault, and its fault.
Each token gives rise to a few events at most. -/
def Event.read (text : String) : List (Event × Mark) × Option Fault :=
  let (tokens, fault) := Token.scan text
  Reader.toEnd (8 * tokens.length + 16) { tokens := tokens, fault := fault }

end JavaMutants.Yaml
