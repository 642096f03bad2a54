/-!
# Reading YAML character by character

A cursor is what is left of a text together with the place that has been
reached in it. Places count characters: from the beginning of the text,
and within a line. A line ends with a line feed, a carriage return or both,
or with one of three further breaks.
-/

namespace JavaMutants.Yaml

/-- **A place in a text**, counted from zero. -/
structure Mark where
  /-- The characters before it. -/
  index : Nat := 0
  /-- The lines before it. -/
  line : Nat := 0
  /-- The characters of its line before it. -/
  column : Nat := 0
deriving DecidableEq, Repr

/-- Whether a place is not the very first one. -/
def Mark.isInside (m : Mark) : Bool := m.line != 0 || m.column != 0

/-- Whether two places are one, as lines and columns tell. -/
def Mark.coincides (m n : Mark) : Bool := m.line == n.line && m.column == n.column

/-- The place in words. -/
def Mark.text (m : Mark) : String :=
  "line " ++ toString (m.line + 1) ++ " column " ++ toString (m.column + 1)

/-- Whether a character ends a line. -/
def isBreak (c : Char) : Bool :=
  c == '\n' || c == '\r' || c == '\u0085' || c == '\u2028' || c == '\u2029'

/-- Whether a character is a space or a tab. -/
def isBlank (c : Char) : Bool := c == ' ' || c == '\t'

/-- Whether a character can be part of the name of an anchor or a
directive. -/
def isNameChar (c : Char) : Bool :=
  ('0' ≤ c && c ≤ '9') || ('A' ≤ c && c ≤ 'Z') || ('a' ≤ c && c ≤ 'z') || c == '_' || c == '-'

/-- **What is left of a text**, and the place that has been reached. -/
structure Cursor where
  /-- What is left. -/
  rest : List Char
  /-- The place. -/
  mark : Mark := {}
deriving DecidableEq, Repr

namespace Cursor

/-- The character some characters ahead. -/
def ahead? (c : Cursor) (n : Nat) : Option Char := c.rest[n]?

/-- Whether a character stands some characters ahead. -/
def sees (c : Cursor) (n : Nat) (x : Char) : Bool := c.ahead? n == some x

/-- Whether a character of a class stands some characters ahead. -/
def seesOne (c : Cursor) (n : Nat) (p : Char → Bool) : Bool := (c.ahead? n).any p

/-- Whether nothing is left. -/
def atEnd (c : Cursor) : Bool := c.rest.isEmpty

/-- Whether a line ends some characters ahead. -/
def lineEnds (c : Cursor) (n : Nat) : Bool := (c.ahead? n).all isBreak

/-- Whether a blank or the end of a line stands some characters ahead. -/
def wordEnds (c : Cursor) (n : Nat) : Bool := (c.ahead? n).all fun x => isBlank x || isBreak x

/-- Goes past characters of one line. -/
def skip (c : Cursor) (n : Nat) : Cursor :=
  ⟨c.rest.drop n, { c.mark with index := c.mark.index + n, column := c.mark.column + n }⟩

/-- The place at the beginning of the next line. -/
def nextLine (m : Mark) (n : Nat) : Mark := ⟨m.index + n, m.line + 1, 0⟩

/-- Reads the end of a line, and what it stands for. -/
def readBreak (c : Cursor) : List Char × Cursor :=
  match c.rest with
  | '\r' :: '\n' :: rest => (['\n'], ⟨rest, nextLine c.mark 2⟩)
  | x :: rest =>
    if x == '\u2028' || x == '\u2029' then ([x], ⟨rest, nextLine c.mark 1⟩)
    else if isBreak x then (['\n'], ⟨rest, nextLine c.mark 1⟩)
    else ([], c)
  | [] => ([], c)

/-- Goes past the end of a line. -/
def skipBreak (c : Cursor) : Cursor := c.readBreak.2

/-- Reads characters of one line as long as they are of a class. -/
def takeWhile (c : Cursor) (p : Char → Bool) : List Char × Cursor :=
  let taken := c.rest.takeWhile p
  (taken, c.skip taken.length)

/-- Goes past characters of one line as long as they are of a class. -/
def skipWhile (c : Cursor) (p : Char → Bool) : Cursor := (c.takeWhile p).2

/-- Goes past a comment, if one begins. -/
def skipComment (c : Cursor) : Cursor :=
  if c.sees 0 '#' then c.skipWhile fun x => !isBreak x else c

/-- Whether the line begins with the mark of a document's start or end. -/
def atDocumentMark (c : Cursor) : Bool :=
  c.mark.column == 0 && (c.rest.take 3 == ['-', '-', '-'] || c.rest.take 3 == ['.', '.', '.'])
    && c.wordEnds 3

end Cursor

end JavaMutants.Yaml
