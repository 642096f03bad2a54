import JavaMutants.Yaml.Tag

/-!
# Tokens

A text as a list of tokens. Indentation shows as tokens that begin and
end blocks. A key is known for one only when its colon comes, so a token
that may turn out to be a key is remembered, and the tokens that say so
are put before it later; a token of which this is open is not handed out.
Where the text is faulty the tokens before the fault are still handed
out.
-/

namespace JavaMutants.Yaml

/-- **The kinds of tokens.** -/
inductive TokenKind where
  /-- The beginning of the text. -/
  | streamStart
  /-- The end of the text. -/
  | streamEnd
  /-- A directive. -/
  | directive (d : Directive)
  /-- The mark with which a document begins. -/
  | documentStart
  /-- The mark with which a document ends. -/
  | documentEnd
  /-- A sequence begins in the block style. -/
  | blockSequenceStart
  /-- A mapping begins in the block style. -/
  | blockMappingStart
  /-- A block ends. -/
  | blockEnd
  /-- A sequence begins in the flow style. -/
  | flowSequenceStart
  /-- A sequence ends in the flow style. -/
  | flowSequenceEnd
  /-- A mapping begins in the flow style. -/
  | flowMappingStart
  /-- A mapping ends in the flow style. -/
  | flowMappingEnd
  /-- An entry of a sequence in the block style. -/
  | blockEntry
  /-- A comma of the flow style. -/
  | flowEntry
  /-- A key comes. -/
  | key
  /-- A value comes. -/
  | value
  /-- A value that is called again. -/
  | reference (name : String)
  /-- The name by which a value can be called again. -/
  | anchor (name : String)
  /-- The tag of a value. -/
  | tag (handle text : String)
  /-- A scalar. -/
  | scalar (text : String) (style : ScalarStyle)
deriving DecidableEq, Repr

/-- **A token** and the place it takes. -/
structure Token where
  /-- What it is. -/
  kind : TokenKind
  /-- Where it begins. -/
  start : Mark
  /-- Where it ends. -/
  stop : Mark
deriving DecidableEq, Repr

/-- **A token that may turn out to be a key.** -/
structure KeyCandidate where
  /-- Whether it still may. -/
  possible : Bool := false
  /-- Whether it has to. -/
  required : Bool := false
  /-- Its place among the tokens. -/
  number : Nat := 0
  /-- Where it begins. -/
  mark : Mark := {}
deriving DecidableEq, Repr

/-- **A text as far as it has been scanned.** -/
structure Scanner where
  /-- What is left of the text. -/
  cursor : Cursor
  /-- The tokens so far. -/
  tokens : List Token := []
  /-- How many brackets are open. -/
  flowLevel : Nat := 0
  /-- The column of the block. -/
  indent : Int := -1
  /-- The columns of the blocks around it. -/
  indents : List Int := []
  /-- The key candidates, one for each open bracket and one for the block,
  the innermost first. -/
  candidates : List KeyCandidate := [{}]
  /-- Whether a key could begin here. -/
  keyAllowed : Bool := true

namespace Scanner

/-- A fault where the scanner is. -/
def fault (s : Scanner) (problem : Problem) : Fault := { problem := problem, mark := s.cursor.mark }

/-- Adds a token at the end. -/
def add (s : Scanner) (kind : TokenKind) (start stop : Mark) : Scanner :=
  { s with tokens := s.tokens ++ [⟨kind, start, stop⟩] }

/-- Adds a token of some characters, which are passed. -/
def addMark (s : Scanner) (kind : TokenKind) (size : Nat) : Scanner :=
  let after := s.cursor.skip size
  { s.add kind s.cursor.mark after.mark with cursor := after }

/-- Puts a token without characters at a place among the tokens. -/
def insert (s : Scanner) (number : Nat) (kind : TokenKind) (mark : Mark) : Scanner :=
  { s with tokens := s.tokens.insertIdx number ⟨kind, mark, mark⟩ }

/-! ## Keys -/

/-- A key ends with its line, and is at most so long. -/
def longestKey : Nat := 1024

/-- Whether a candidate lies too far back. -/
def isStale (mark : Mark) (k : KeyCandidate) : Bool :=
  k.possible && (k.mark.line < mark.line || k.mark.index + longestKey < mark.index)

/-- The fault of a key without its colon. -/
def keyFault (s : Scanner) (k : KeyCandidate) : Fault :=
  s.cursor.fault .simpleKey k.mark .noColon

/-- Gives up the candidates that lie too far back, the outermost first. -/
def dropStale (s : Scanner) : Except Fault Scanner :=
  match s.candidates.reverse.find? fun k => isStale s.cursor.mark k && k.required with
  | some k => .error (s.keyFault k)
  | none => .ok { s with
      candidates := s.candidates.map fun k =>
        if isStale s.cursor.mark k then { k with possible := false } else k }

/-- Gives up the innermost candidate. -/
def dropCandidate (s : Scanner) : Except Fault Scanner :=
  match s.candidates with
  | [] => .ok s
  | k :: rest =>
    if k.possible && k.required then .error (s.keyFault k)
    else .ok { s with candidates := { k with possible := false } :: rest }

/-- Remembers that the next token may be a key. -/
def saveCandidate (s : Scanner) : Except Fault Scanner :=
  if s.keyAllowed then do
    let s ← s.dropCandidate
    let k : KeyCandidate :=
      { possible := true
        required := s.flowLevel == 0 && s.indent == s.cursor.mark.column
        number := s.tokens.length
        mark := s.cursor.mark }
    .ok { s with candidates := k :: s.candidates.drop 1 }
  else .ok s

/-! ## Indentation -/

/-- Begins a block at a column, if it is a deeper one. -/
def rollTo (s : Scanner) (column : Nat) (number : Nat) (kind : TokenKind) (mark : Mark) :
    Scanner :=
  if s.flowLevel == 0 && s.indent < column then
    { s.insert number kind mark with indent := column, indents := s.indent :: s.indents }
  else s

/-- Ends the blocks that are deeper than a column. -/
def unrollFrom (mark : Mark) (column : Int) : Scanner → List Int → Scanner
  | s, [] => s
  | s, outer :: rest =>
    if column < s.indent then
      unrollFrom mark column { s.add .blockEnd mark mark with indent := outer, indents := rest }
        rest
    else s

/-- Ends the blocks that are deeper than a column, unless a bracket is
open. -/
def unrollTo (s : Scanner) (column : Int) : Scanner :=
  if s.flowLevel == 0 then unrollFrom s.cursor.mark column s s.indents else s

/-! ## Tokens -/

/-- Ends all blocks. -/
def closeBlocks (s : Scanner) : Except Fault Scanner := do
  let s ← (s.unrollTo (-1)).dropCandidate
  .ok { s with keyAllowed := false }

/-- The end of the text. -/
def scanEnd (s : Scanner) : Except Fault Scanner := do
  let mark := s.cursor.mark
  let mark := if mark.column == 0 then mark else { mark with line := mark.line + 1, column := 0 }
  let s ← { s with cursor := { s.cursor with mark := mark } }.closeBlocks
  .ok (s.add .streamEnd mark mark)

/-- A directive. -/
def scanDirective (s : Scanner) : Except Fault Scanner := do
  let s ← s.closeBlocks
  let (directive, stop, after) ← readDirective s.cursor
  .ok { s.add (.directive directive) s.cursor.mark stop with cursor := after }

/-- The mark of a document's start or end. -/
def scanDocumentMark (s : Scanner) (kind : TokenKind) : Except Fault Scanner := do
  .ok ((← s.closeBlocks).addMark kind 3)

/-- An opening bracket. -/
def scanFlowStart (s : Scanner) (kind : TokenKind) : Except Fault Scanner := do
  let s ← s.saveCandidate
  .ok { s.addMark kind 1 with
    candidates := {} :: s.candidates, flowLevel := s.flowLevel + 1, keyAllowed := true }

/-- A closing bracket. -/
def scanFlowEnd (s : Scanner) (kind : TokenKind) : Except Fault Scanner := do
  let s ← s.dropCandidate
  let s := if s.flowLevel == 0 then s
    else { s with flowLevel := s.flowLevel - 1, candidates := s.candidates.drop 1 }
  .ok { s.addMark kind 1 with keyAllowed := false }

/-- A comma. -/
def scanFlowEntry (s : Scanner) : Except Fault Scanner := do
  .ok { (← s.dropCandidate).addMark .flowEntry 1 with keyAllowed := true }

/-- An entry of a sequence. -/
def scanBlockEntry (s : Scanner) : Except Fault Scanner := do
  if s.flowLevel == 0 && !s.keyAllowed then .error (s.fault .entryNotAllowed)
  else
    let s := s.rollTo s.cursor.mark.column s.tokens.length .blockSequenceStart s.cursor.mark
    .ok { (← s.dropCandidate).addMark .blockEntry 1 with keyAllowed := true }

/-- The mark of a key. -/
def scanKey (s : Scanner) : Except Fault Scanner := do
  if s.flowLevel == 0 && !s.keyAllowed then .error (s.fault .keyNotAllowed)
  else
    let s := s.rollTo s.cursor.mark.column s.tokens.length .blockMappingStart s.cursor.mark
    .ok { (← s.dropCandidate).addMark .key 1 with keyAllowed := s.flowLevel == 0 }

/-- The mark of a value. -/
def scanValue (s : Scanner) : Except Fault Scanner :=
  let k := s.candidates.head?.getD {}
  if k.possible then
    let s := (s.insert k.number .key k.mark).rollTo k.mark.column k.number
      .blockMappingStart k.mark
    .ok { s.addMark .value 1 with
      candidates := { k with possible := false } :: s.candidates.drop 1, keyAllowed := false }
  else if s.flowLevel == 0 && !s.keyAllowed then .error (s.fault .valueNotAllowed)
  else
    let s := s.rollTo s.cursor.mark.column s.tokens.length .blockMappingStart s.cursor.mark
    .ok { s.addMark .value 1 with keyAllowed := s.flowLevel == 0 }

/-- An anchor or an alias. -/
def scanName (s : Scanner) (activity : Activity) (kind : String → TokenKind) :
    Except Fault Scanner := do
  let s ← s.saveCandidate
  let (name, after) ← readName activity s.cursor
  .ok { s.add (kind name) s.cursor.mark after.mark with cursor := after, keyAllowed := false }

/-- A tag. -/
def scanTag (s : Scanner) : Except Fault Scanner := do
  let s ← s.saveCandidate
  let (handle, text, after) ← readTag (s.flowLevel != 0) s.cursor
  .ok { s.add (.tag handle text) s.cursor.mark after.mark with
    cursor := after, keyAllowed := false }

/-- A block scalar. -/
def scanBlock (s : Scanner) (isFolded : Bool) : Except Fault Scanner := do
  let s ← s.dropCandidate
  let (text, stop, after) ← readBlock isFolded s.indent s.cursor
  .ok { s.add (.scalar text (if isFolded then .folded else .literal)) s.cursor.mark stop with
    cursor := after, keyAllowed := true }

/-- A scalar in quotes. -/
def scanQuoted (s : Scanner) (single : Bool) : Except Fault Scanner := do
  let s ← s.saveCandidate
  let (text, after) ← readQuoted single s.cursor
  .ok { s.add (.scalar text (if single then .single else .double)) s.cursor.mark after.mark with
    cursor := after, keyAllowed := false }

/-- A plain scalar. -/
def scanPlain (s : Scanner) : Except Fault Scanner := do
  let s ← s.saveCandidate
  let plain ← readPlain (s.flowLevel != 0) (s.indent + 1) s.cursor
  .ok { s.add (.scalar (String.ofList plain.text) .plain) s.cursor.mark plain.stop with
    cursor := plain.cursor, keyAllowed := plain.broken }

/-- Goes past blanks, comments and empty lines. A tab is no blank where a
key could begin. -/
def skipSpace : Nat → Scanner → Scanner
  | 0, s => s
  | n + 1, s =>
    let c := s.cursor
    let c := if c.mark.column == 0 && c.sees 0 '\ufeff' then c.skip 1 else c
    let tabs := s.flowLevel != 0 || !s.keyAllowed
    let c := (c.skipWhile fun x => x == ' ' || (tabs && x == '\t')).skipComment
    if c.seesOne 0 isBreak then
      skipSpace n { s with
        cursor := c.skipBreak, keyAllowed := s.keyAllowed || s.flowLevel == 0 }
    else { s with cursor := c }

/-- Whether a character with which no plain scalar begins on its own. -/
def isIndicator (c : Char) : Bool :=
  isFlowMark c || c == '-' || c == '?' || c == ':' || c == '#' || c == '&' || c == '*'
    || c == '!' || c == '|' || c == '>' || c == '\'' || c == '"' || c == '%' || c == '@'
    || c == '\x60'

/-- Whether a plain scalar begins. -/
def startsPlain (s : Scanner) : Bool :=
  let c := s.cursor
  (!c.wordEnds 0 && !c.seesOne 0 isIndicator)
    || (c.sees 0 '-' && !c.seesOne 1 isBlank)
    || (s.flowLevel == 0 && (c.sees 0 '?' || c.sees 0 ':') && !c.wordEnds 1)

/-- The token with which the text goes on. -/
def scanToken (s : Scanner) : Except Fault Scanner :=
  let c := s.cursor
  let inFlow := s.flowLevel != 0
  if c.atEnd then s.scanEnd
  else if c.mark.column == 0 && c.sees 0 '%' then s.scanDirective
  else if c.atDocumentMark then
    s.scanDocumentMark (if c.sees 0 '-' then .documentStart else .documentEnd)
  else if c.sees 0 '[' then s.scanFlowStart .flowSequenceStart
  else if c.sees 0 '\x7b' then s.scanFlowStart .flowMappingStart
  else if c.sees 0 ']' then s.scanFlowEnd .flowSequenceEnd
  else if c.sees 0 '\x7d' then s.scanFlowEnd .flowMappingEnd
  else if c.sees 0 ',' then s.scanFlowEntry
  else if c.sees 0 '-' && c.wordEnds 1 then s.scanBlockEntry
  else if c.sees 0 '?' && (inFlow || c.wordEnds 1) then s.scanKey
  else if c.sees 0 ':' && (inFlow || c.wordEnds 1) then s.scanValue
  else if c.sees 0 '*' then s.scanName .reference .reference
  else if c.sees 0 '&' then s.scanName .anchor .anchor
  else if c.sees 0 '!' then s.scanTag
  else if c.sees 0 '|' && !inFlow then s.scanBlock false
  else if c.sees 0 '>' && !inFlow then s.scanBlock true
  else if c.sees 0 '\'' then s.scanQuoted true
  else if c.sees 0 '"' then s.scanQuoted false
  else if s.startsPlain then s.scanPlain
  else .error (c.fault .token c.mark .strangeCharacter)

/-- **One step of scanning.** -/
def step (s : Scanner) : Except Fault Scanner := do
  let s ← (s.skipSpace (s.cursor.rest.length + 1)).dropStale
  let s ← (s.unrollTo s.cursor.mark.column).scanToken
  s.dropStale

/-- How many tokens can be handed out: those before the first of which it
is open whether it is a key. -/
def settled (s : Scanner) : Nat :=
  ((s.candidates.filter (·.possible)).map (·.number)).foldl min s.tokens.length

/-- Whether the end of the text has been reached. -/
def isDone (s : Scanner) : Bool :=
  match s.tokens.getLast? with
  | some t => t.kind == .streamEnd
  | none => false

/-- Scans to the end of the text or to a fault. -/
def toEnd : Nat → Scanner → List Token × Option Fault
  | 0, s => (s.tokens, none)
  | n + 1, s =>
    if s.isDone then (s.tokens, none)
    else
      match s.step with
      | .ok s => toEnd n s
      | .error f => (s.tokens.take s.settled, some f)

end Scanner

/-! ## Characters -/

/-- Whether a text may hold a character. -/
def isAllowed (c : Char) : Bool :=
  let n := c.toNat
  n == 9 || n == 10 || n == 13 || (0x20 ≤ n && n ≤ 0x7E) || n == 0x85
    || (0xA0 ≤ n && n ≤ 0xD7FF) || (0xE000 ≤ n && n ≤ 0xFFFD) || 0x10000 ≤ n

/-- The fault of the first character that a text may not hold, after so
many bytes. -/
def forbidden? (offset : Nat) : List Char → Option Fault
  | [] => none
  | c :: cs =>
    if isAllowed c then forbidden? (offset + c.utf8Size) cs
    else some { problem := .controlCharacter, mark := {}, offset := offset }

/-- A text without the mark of its byte order, and how many bytes that
mark has. -/
def afterByteOrderMark : List Char → List Char × Nat
  | '\ufeff' :: rest => (rest, 3)
  | cs => (cs, 0)

/-- **The tokens of a text**, as far as it has no fault, and its fault. -/
def Token.scan (text : String) : List Token × Option Fault :=
  let (chars, offset) := afterByteOrderMark text.toList
  match forbidden? offset chars with
  | some f => ([], some f)
  | none =>
    let s : Scanner := { cursor := { rest := chars } }
    Scanner.toEnd (chars.length + 2) (s.add .streamStart {} {})

end JavaMutants.Yaml
