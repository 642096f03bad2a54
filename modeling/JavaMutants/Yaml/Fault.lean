import JavaMutants.Yaml.Cursor

/-!
# Faults of YAML texts

What can be wrong with a text, what was being read when that showed, and
the one text of each.
-/

namespace JavaMutants.Yaml

/-- **What is wrong.** -/
inductive Problem where
  /-- A character that no text may hold. -/
  | controlCharacter
  /-- A character with which nothing begins. -/
  | strangeCharacter
  /-- A key is not followed by its colon. -/
  | noColon
  /-- An entry where none may stand. -/
  | entryNotAllowed
  /-- A key where none may stand. -/
  | keyNotAllowed
  /-- A value where none may stand. -/
  | valueNotAllowed
  /-- A directive that is not known. -/
  | unknownDirective
  /-- More than a comment up to the end of a line. -/
  | noLineEnd
  /-- A directive without a name. -/
  | noDirectiveName
  /-- The name of a directive does not end as it should. -/
  | strangeDirectiveName
  /-- A version without its dot. -/
  | noVersionDot
  /-- A version with too many digits. -/
  | longVersion
  /-- A version without digits. -/
  | noVersion
  /-- A blank is missing. -/
  | noBlank
  /-- A blank or the end of a line is missing. -/
  | noWordEnd
  /-- An anchor or an alias without a name. -/
  | noName
  /-- A verbatim tag is not closed. -/
  | noTagClose
  /-- A tag without its mark. -/
  | noTagMark
  /-- A tag with nothing in it. -/
  | noTagText
  /-- A percent sign without two digits. -/
  | noOctet
  /-- An octet that begins no character. -/
  | leadingOctet
  /-- An octet that does not continue a character. -/
  | trailingOctet
  /-- An indentation of zero. -/
  | zeroIndentation
  /-- A tab in the indentation of a block. -/
  | tabInBlock
  /-- A document begins or ends within quotes. -/
  | documentMark
  /-- The text ends within quotes. -/
  | endOfText
  /-- An escape that is not known. -/
  | unknownEscape
  /-- An escape without its digits. -/
  | noHexDigits
  /-- An escape for what is no character. -/
  | noCharacter
  /-- A colon that ends nothing. -/
  | strangeColon
  /-- A tab in the indentation of a plain scalar. -/
  | tabInPlain
  /-- A document does not begin. -/
  | noDocumentStart
  /-- A version is given twice. -/
  | repeatedVersion
  /-- A version that is not understood. -/
  | wrongVersion
  /-- A tag handle is given twice. -/
  | repeatedHandle
  /-- A tag handle that is not known. -/
  | unknownHandle
  /-- A value is missing. -/
  | noContent
  /-- An entry is missing. -/
  | noEntry
  /-- A key is missing. -/
  | noKey
  /-- A sequence is neither continued nor closed. -/
  | noSequenceClose
  /-- A mapping is neither continued nor closed. -/
  | noMappingClose
deriving DecidableEq, Repr

/-- The problem in words. -/
def Problem.text : Problem → String
  | controlCharacter => "control characters are not allowed"
  | strangeCharacter => "found character that cannot start any token"
  | noColon => "could not find expected ':'"
  | entryNotAllowed => "block sequence entries are not allowed in this context"
  | keyNotAllowed => "mapping keys are not allowed in this context"
  | valueNotAllowed => "mapping values are not allowed in this context"
  | unknownDirective => "found unknown directive name"
  | noLineEnd => "did not find expected comment or line break"
  | noDirectiveName => "could not find expected directive name"
  | strangeDirectiveName => "found unexpected non-alphabetical character"
  | noVersionDot => "did not find expected digit or '.' character"
  | longVersion => "found extremely long version number"
  | noVersion => "did not find expected version number"
  | noBlank => "did not find expected whitespace"
  | noWordEnd => "did not find expected whitespace or line break"
  | noName => "did not find expected alphabetic or numeric character"
  | noTagClose => "did not find the expected '>'"
  | noTagMark => "did not find expected '!'"
  | noTagText => "did not find expected tag URI"
  | noOctet => "did not find URI escaped octet"
  | leadingOctet => "found an incorrect leading UTF-8 octet"
  | trailingOctet => "found an incorrect trailing UTF-8 octet"
  | zeroIndentation => "found an indentation indicator equal to 0"
  | tabInBlock => "found a tab character where an indentation space is expected"
  | documentMark => "found unexpected document indicator"
  | endOfText => "found unexpected end of stream"
  | unknownEscape => "found unknown escape character"
  | noHexDigits => "did not find expected hexdecimal number"
  | noCharacter => "found invalid Unicode character escape code"
  | strangeColon => "found unexpected ':'"
  | tabInPlain => "found a tab character that violates indentation"
  | noDocumentStart => "did not find expected <document start>"
  | repeatedVersion => "found duplicate %YAML directive"
  | wrongVersion => "found incompatible YAML document"
  | repeatedHandle => "found duplicate %TAG directive"
  | unknownHandle => "found undefined tag handle"
  | noContent => "did not find expected node content"
  | noEntry => "did not find expected '-' indicator"
  | noKey => "did not find expected key"
  | noSequenceClose => "did not find expected ',' or ']'"
  | noMappingClose => "did not find expected ',' or '\x7d'"

/-- **What was being read.** -/
inductive Activity where
  /-- Any token. -/
  | token
  /-- A key on one line. -/
  | simpleKey
  /-- A directive. -/
  | directive
  /-- The version. -/
  | version
  /-- A tag handle and what it stands for. -/
  | handle
  /-- What a tag handle stands for. -/
  | handleText
  /-- The handle in a directive. -/
  | handleName
  /-- The end of the handle in a directive. -/
  | handleEnd
  /-- An anchor. -/
  | anchor
  /-- An alias. -/
  | reference
  /-- A tag. -/
  | tag
  /-- The characters of a tag. -/
  | tagText
  /-- A block scalar. -/
  | block
  /-- A scalar in quotes. -/
  | quoted
  /-- An escape in quotes. -/
  | escape
  /-- A plain scalar. -/
  | plain
  /-- A node. -/
  | node
  /-- A node in the block style. -/
  | blockNode
  /-- A node in the flow style. -/
  | flowNode
  /-- A sequence in the block style. -/
  | blockSequence
  /-- A mapping in the block style. -/
  | blockMapping
  /-- A sequence in the flow style. -/
  | flowSequence
  /-- A mapping in the flow style. -/
  | flowMapping
deriving DecidableEq, Repr

/-- The activity in words. -/
def Activity.text : Activity → String
  | token => "while scanning for the next token"
  | simpleKey => "while scanning a simple key"
  | directive => "while scanning a directive"
  | version => "while scanning a %YAML directive"
  | handle => "while scanning a %TAG directive"
  | handleText => "while parsing a %TAG directive"
  | handleName => "while scanning a tag directive"
  | handleEnd => "while parsing a tag directive"
  | anchor => "while scanning an anchor"
  | reference => "while scanning an alias"
  | tag => "while scanning a tag"
  | tagText => "while parsing a tag"
  | block => "while scanning a block scalar"
  | quoted => "while scanning a quoted scalar"
  | escape => "while parsing a quoted scalar"
  | plain => "while scanning a plain scalar"
  | node => "while parsing a node"
  | blockNode => "while parsing a block node"
  | flowNode => "while parsing a flow node"
  | blockSequence => "while parsing a block collection"
  | blockMapping => "while parsing a block mapping"
  | flowSequence => "while parsing a flow sequence"
  | flowMapping => "while parsing a flow mapping"

/-- **A fault of a text.** -/
structure Fault where
  /-- What is wrong. -/
  problem : Problem
  /-- Where it showed. -/
  mark : Mark
  /-- How many bytes come before it; this is told only of a text that
  could not be begun. -/
  offset : Nat := 0
  /-- What was being read, and where that began. -/
  context : Option (Activity × Mark) := none
deriving DecidableEq, Repr

/-- **A fault in words.** A place is left out where it is the first of the
text or has been told already. -/
def Fault.message (f : Fault) : String :=
  let place :=
    if f.mark.isInside then " at " ++ f.mark.text
    else if f.offset != 0 then " at position " ++ toString f.offset
    else ""
  let context := match f.context with
    | some (activity, mark) =>
      ", " ++ activity.text ++
        (if mark.isInside && !mark.coincides f.mark then " at " ++ mark.text else "")
    | none => ""
  f.problem.text ++ place ++ context

/-- A fault at a cursor, in something that began at a place. -/
def Cursor.fault (c : Cursor) (activity : Activity) (start : Mark) (problem : Problem) : Fault :=
  { problem := problem, mark := c.mark, context := some (activity, start) }

end JavaMutants.Yaml
