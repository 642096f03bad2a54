/-!
# Styled text

A text for a terminal, in bold or faint letters or in a colour. The codes
come before the text and are taken back after it, and a text that takes
codes back on its own gets them anew. Where styles are switched off, the
text stands alone.
-/

namespace JavaMutants.Text

/-- The colours in use. -/
inductive Colour where
  /-- For what failed. -/
  | red
  /-- For what went well. -/
  | green
  /-- For what needs a look. -/
  | yellow
deriving DecidableEq, Repr

/-- The code of a colour. -/
def Colour.code : Colour → String
  | red => "31"
  | green => "32"
  | yellow => "33"

/-- **How a text looks.** -/
structure Style where
  /-- Whether the letters are bold. -/
  bold : Bool := false
  /-- Whether the letters are faint. -/
  faint : Bool := false
  /-- The colour of the letters, if they have one. -/
  colour : Option Colour := none
deriving DecidableEq, Repr

namespace Style

/-- The codes of a style. -/
def codes (s : Style) : List String :=
  (if s.bold then ["1"] else []) ++ (if s.faint then ["2"] else [])
    ++ (s.colour.map Colour.code).toList

/-- What switches a style on. -/
def opening (s : Style) : String := "\x1b[" ++ ";".intercalate s.codes ++ "m"

/-- What switches all styles off. -/
def closing : String := "\x1b[0m"

/-- **A text in a style**, or as it is where styles are switched off. -/
def paint (s : Style) (enabled : Bool) (text : String) : String :=
  if enabled then
    s.opening ++ (closing ++ s.opening).intercalate (text.splitOn closing) ++ closing
  else text

end Style

/-- Fills a text up with blanks to a number of characters. -/
def padded (width : Nat) (text : String) : String :=
  text ++ String.ofList (List.replicate (width - text.length) ' ')

end JavaMutants.Text
