import JavaMutants.Yaml.Fault

/-!
# Scalars

How the text of a scalar is read in each of its five styles. In quotes
and in plain scalars a line break between words folds to a space, and
further breaks stay; a folded block does the same between lines that are
not indented further.
-/

namespace JavaMutants.Yaml

/-- The styles of scalars. -/
inductive ScalarStyle where
  /-- Without quotes. -/
  | plain
  /-- In single quotes. -/
  | single
  /-- In double quotes. -/
  | double
  /-- A block whose line breaks stay. -/
  | literal
  /-- A block whose line breaks fold. -/
  | folded
deriving DecidableEq, Repr

/-- **The blanks and breaks between two words.** -/
structure Gap where
  /-- The blanks before the first break. -/
  blanks : List Char := []
  /-- The first break. -/
  firstBreak : List Char := []
  /-- The breaks after it. -/
  breaks : List Char := []
  /-- Whether there was a break. -/
  broken : Bool := false

namespace Gap

/-- Folds a first break and those after it. -/
def fold (firstBreak breaks : List Char) : List Char :=
  if firstBreak.head? == some '\n' then if breaks.isEmpty then [' '] else breaks
  else firstBreak ++ breaks

/-- What a gap stands for. -/
def text (g : Gap) : List Char := if g.broken then fold g.firstBreak g.breaks else g.blanks

/-- Reads a gap. `refuses` tells of a cursor after a break whether the
blank there is not allowed. -/
def read (refuses : Cursor → Bool) : Nat → Gap → Cursor → Except Cursor (Gap × Cursor)
  | 0, g, c => .ok (g, c)
  | n + 1, g, c =>
    if c.seesOne 0 isBlank then
      if g.broken && refuses c then .error c
      else if g.broken then read refuses n g (c.skip 1)
      else read refuses n { g with blanks := g.blanks ++ c.rest.take 1 } (c.skip 1)
    else if c.seesOne 0 isBreak then
      let (text, c) := c.readBreak
      if g.broken then read refuses n { g with breaks := g.breaks ++ text } c
      else read refuses n { g with blanks := [], firstBreak := text, broken := true } c
    else .ok (g, c)

end Gap

/-! ## Quotes -/

/-- What a character after a backslash stands for. -/
def escaped? : Char → Option Char
  | '0' => some (Char.ofNat 0)
  | 'a' => some (Char.ofNat 7)
  | 'b' => some (Char.ofNat 8)
  | 't' => some '\t'
  | '\t' => some '\t'
  | 'n' => some '\n'
  | 'v' => some (Char.ofNat 11)
  | 'f' => some (Char.ofNat 12)
  | 'r' => some '\r'
  | 'e' => some (Char.ofNat 27)
  | ' ' => some ' '
  | '"' => some '"'
  | '/' => some '/'
  | '\\' => some '\\'
  | 'N' => some '\u0085'
  | '_' => some '\u00a0'
  | 'L' => some '\u2028'
  | 'P' => some '\u2029'
  | _ => none

/-- How many digits follow a character after a backslash. -/
def digitsAfter? : Char → Option Nat
  | 'x' => some 2
  | 'u' => some 4
  | 'U' => some 8
  | _ => none

/-- The value of a hexadecimal digit. -/
def hexValue? (c : Char) : Option Nat :=
  if '0' ≤ c && c ≤ '9' then some (c.toNat - '0'.toNat)
  else if 'a' ≤ c && c ≤ 'f' then some (c.toNat - 'a'.toNat + 10)
  else if 'A' ≤ c && c ≤ 'F' then some (c.toNat - 'A'.toNat + 10)
  else none

/-- The value of hexadecimal digits. -/
def hexNumber? (cs : List Char) : Option Nat :=
  (cs.mapM hexValue?).map fun ds => ds.foldl (fun n d => n * 16 + d) 0

/-- Reads an escape at its backslash. -/
def readEscape (start : Mark) (c : Cursor) : Except Fault (Char × Cursor) :=
  match c.ahead? 1 with
  | none => .error (c.fault .escape start .unknownEscape)
  | some x =>
    match escaped? x, digitsAfter? x with
    | some y, _ => .ok (y, c.skip 2)
    | none, some count =>
      let c := c.skip 2
      let digits := c.rest.take count
      match if digits.length == count then hexNumber? digits else none with
      | none => .error (c.fault .escape start .noHexDigits)
      | some n =>
        if (0xD800 ≤ n && n ≤ 0xDFFF) || 0x10FFFF < n then
          .error (c.fault .escape start .noCharacter)
        else .ok (Char.ofNat n, c.skip count)
    | none, none => .error (c.fault .escape start .unknownEscape)

/-- Reads a word in quotes, after what has been read. The flag tells
whether a backslash before a line break ended it. -/
def readQuotedWord (single : Bool) (start : Mark) :
    Nat → List Char → Cursor → Except Fault (List Char × Bool × Cursor)
  | 0, text, c => .ok (text, false, c)
  | n + 1, text, c =>
    match c.rest with
    | [] => .ok (text, false, c)
    | x :: _ =>
      if isBlank x || isBreak x then .ok (text, false, c)
      else if single && x == '\'' && c.sees 1 '\'' then
        readQuotedWord single start n (text ++ ['\'']) (c.skip 2)
      else if x == (if single then '\'' else '"') then .ok (text, false, c)
      else if !single && x == '\\' then
        if c.seesOne 1 isBreak then .ok (text, true, (c.skip 1).skipBreak)
        else
          match readEscape start c with
          | .ok (y, c) => readQuotedWord single start n (text ++ [y]) c
          | .error f => .error f
      else readQuotedWord single start n (text ++ [x]) (c.skip 1)

/-- Reads words in quotes up to the closing quote. -/
def readQuotedWords (single : Bool) (start : Mark) :
    Nat → List Char → Cursor → Except Fault (List Char × Cursor)
  | 0, text, c => .ok (text, c)
  | n + 1, text, c =>
    if c.atDocumentMark then .error (c.fault .quoted start .documentMark)
    else if c.atEnd then .error (c.fault .quoted start .endOfText)
    else
      match readQuotedWord single start (c.rest.length + 1) text c with
      | .error f => .error f
      | .ok (text, broken, c) =>
        if c.sees 0 (if single then '\'' else '"') then .ok (text, c.skip 1)
        else
          match Gap.read (fun _ => false) (c.rest.length + 1) { broken := broken } c with
          | .error c => .error (c.fault .quoted start .endOfText)
          | .ok (gap, c) => readQuotedWords single start n (text ++ gap.text) c

/-- **Reads a scalar in quotes.** -/
def readQuoted (single : Bool) (c : Cursor) : Except Fault (String × Cursor) :=
  (readQuotedWords single c.mark (c.rest.length + 1) [] (c.skip 1)).map fun (text, c) =>
    (String.ofList text, c)

/-! ## Plain scalars -/

/-- Whether a character is a bracket or a comma of the flow style. -/
def isFlowMark (c : Char) : Bool :=
  c == ',' || c == '[' || c == ']' || c == '\x7b' || c == '\x7d'

/-- Reads a word of a plain scalar. -/
def readPlainWord (inFlow : Bool) (start : Mark) :
    Nat → List Char → Cursor → Except Fault (List Char × Cursor)
  | 0, text, c => .ok (text, c)
  | n + 1, text, c =>
    match c.rest with
    | [] => .ok (text, c)
    | x :: _ =>
      if isBlank x || isBreak x then .ok (text, c)
      else if inFlow && x == ':' && c.seesOne 1 (fun y => isFlowMark y || y == '?') then
        .error (c.fault .plain start .strangeColon)
      else if (x == ':' && c.wordEnds 1) || (inFlow && isFlowMark x) then .ok (text, c)
      else readPlainWord inFlow start n (text ++ [x]) (c.skip 1)

/-- **A plain scalar that has been read.** -/
structure Plain where
  /-- Its text. -/
  text : List Char
  /-- Where it ends. -/
  stop : Mark
  /-- Whether a line break comes after it. -/
  broken : Bool
  /-- What is left. -/
  cursor : Cursor

/-- Reads words of a plain scalar, each after a gap. -/
def readPlainWords (inFlow : Bool) (indent : Int) (start : Mark) :
    Nat → List Char → Gap → Mark → Cursor → Except Fault Plain
  | 0, text, gap, stop, c => .ok ⟨text, stop, gap.broken, c⟩
  | n + 1, text, gap, stop, c =>
    if c.atDocumentMark || c.sees 0 '#' then .ok ⟨text, stop, gap.broken, c⟩
    else
      match readPlainWord inFlow start (c.rest.length + 1) [] c with
      | .error f => .error f
      | .ok (word, c) =>
        let (text, gap, stop) :=
          if word.isEmpty then (text, gap, stop) else (text ++ gap.text ++ word, {}, c.mark)
        if !c.seesOne 0 (fun x => isBlank x || isBreak x) then .ok ⟨text, stop, gap.broken, c⟩
        else
          let refuses (c : Cursor) : Bool := c.mark.column < indent && c.sees 0 '\t'
          match Gap.read refuses (c.rest.length + 1) gap c with
          | .error c => .error (c.fault .plain start .tabInPlain)
          | .ok (gap, c) =>
            if !inFlow && c.mark.column < indent then .ok ⟨text, stop, gap.broken, c⟩
            else readPlainWords inFlow indent start n text gap stop c

/-- **Reads a plain scalar** that has to be indented so far. -/
def readPlain (inFlow : Bool) (indent : Int) (c : Cursor) : Except Fault Plain :=
  readPlainWords inFlow indent c.mark (c.rest.length + 1) [] {} c.mark c

/-! ## Blocks -/

/-- What happens to the line breaks at the end of a block. -/
inductive Chomping where
  /-- None stays. -/
  | strip
  /-- The first stays. -/
  | clip
  /-- All stay. -/
  | keep
deriving DecidableEq, Repr

/-- Reads the sign that tells what happens to the last line breaks. -/
def readChomping (c : Cursor) : Option (Chomping × Cursor) :=
  if c.sees 0 '+' then some (.keep, c.skip 1)
  else if c.sees 0 '-' then some (.strip, c.skip 1)
  else none

/-- Reads the digit that tells how far a block is indented. -/
def readIncrement (start : Mark) (c : Cursor) : Except Fault (Nat × Cursor) :=
  match c.ahead? 0 with
  | some x =>
    if x.isDigit then
      if x == '0' then .error (c.fault .block start .zeroIndentation)
      else .ok (x.toNat - '0'.toNat, c.skip 1)
    else .ok (0, c)
  | none => .ok (0, c)

/-- Reads both in either order. -/
def readBlockHeader (start : Mark) (c : Cursor) : Except Fault (Chomping × Nat × Cursor) := do
  match readChomping c with
  | some (chomping, c) =>
    let (increment, c) ← readIncrement start c
    .ok (chomping, increment, c)
  | none =>
    let (increment, c) ← readIncrement start c
    match if increment == 0 then none else readChomping c with
    | some (chomping, c) => .ok (chomping, increment, c)
    | none => .ok (.clip, increment, c)

/-- Goes past spaces up to a column, or all of them if none is given. -/
def skipIndentation (indent : Nat) (c : Cursor) : Cursor :=
  let spaces := (c.rest.takeWhile (· == ' ')).length
  c.skip (if indent == 0 then spaces else min spaces (indent - c.mark.column))

/-- Reads empty lines: their breaks, the deepest column and the place
after the last break. -/
def readEmptyLines (indent : Nat) (start : Mark) :
    Nat → List Char → Nat → Mark → Cursor → Except Fault (List Char × Nat × Mark × Cursor)
  | 0, breaks, deepest, stop, c => .ok (breaks, deepest, stop, c)
  | n + 1, breaks, deepest, stop, c =>
    let c := skipIndentation indent c
    let deepest := max deepest c.mark.column
    if (indent == 0 || c.mark.column < indent) && c.sees 0 '\t' then
      .error (c.fault .block start .tabInBlock)
    else if c.seesOne 0 isBreak then
      let (text, c) := c.readBreak
      readEmptyLines indent start n (breaks ++ text) deepest c.mark c
    else .ok (breaks, deepest, stop, c)

/-- **A block scalar as far as it has been read.** -/
structure Block where
  /-- Its text. -/
  text : List Char := []
  /-- The break after the last line. -/
  lastBreak : List Char := []
  /-- The breaks of empty lines after that. -/
  breaks : List Char
  /-- Whether the last line began with a blank. -/
  indented : Bool := false
  /-- Where it ends. -/
  stop : Mark
  /-- What is left. -/
  cursor : Cursor

/-- Reads the lines of a block. -/
def readBlockLines (isFolded : Bool) (indent : Nat) (start : Mark) :
    Nat → Block → Except Fault Block
  | 0, b => .ok b
  | n + 1, b =>
    if b.cursor.mark.column != indent || b.cursor.atEnd then .ok b
    else
      let blank := b.cursor.seesOne 0 isBlank
      let joint :=
        if isFolded && b.lastBreak.head? == some '\n' && !b.indented && !blank then
          if b.breaks.isEmpty then [' '] else []
        else b.lastBreak
      let (line, c) := b.cursor.takeWhile fun x => !isBreak x
      let (lastBreak, c) := c.readBreak
      match readEmptyLines indent start (c.rest.length + 1) [] 0 c.mark c with
      | .error f => .error f
      | .ok (breaks, _, stop, c) =>
        readBlockLines isFolded indent start n
          { text := b.text ++ joint ++ b.breaks ++ line, lastBreak := lastBreak
            breaks := breaks, indented := blank, stop := stop, cursor := c }

/-- **Reads a block scalar** in a block that is indented so far: its text,
where it ends and what is left. -/
def readBlock (isFolded : Bool) (outer : Int) (c : Cursor) :
    Except Fault (String × Mark × Cursor) := do
  let start := c.mark
  let (chomping, increment, c) ← readBlockHeader start (c.skip 1)
  let c := (c.skipWhile isBlank).skipComment
  if !c.lineEnds 0 then .error (c.fault .block start .noLineEnd)
  else
    let c := c.skipBreak
    let given := if increment == 0 then 0 else (max outer 0).toNat + increment
    let (breaks, deepest, stop, c) ←
      readEmptyLines given start (c.rest.length + 1) [] 0 c.mark c
    let indent := if given == 0 then max (max deepest (outer + 1).toNat) 1 else given
    let block ← readBlockLines isFolded indent start (c.rest.length + 1)
      { breaks := breaks, stop := stop, cursor := c }
    let ending := match chomping with
      | .strip => []
      | .clip => block.lastBreak
      | .keep => block.lastBreak ++ block.breaks
    .ok (String.ofList (block.text ++ ending), block.stop, block.cursor)

end JavaMutants.Yaml
