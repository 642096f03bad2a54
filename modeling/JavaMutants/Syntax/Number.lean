import JavaMutants.Syntax.Kind
import JavaMutants.Syntax.Pattern

/-!
# Number literals

The forms of number literals as patterns. A number is the longest text
that any form matches; of two forms that match equally much, the one
named first has it.
-/

namespace JavaMutants.Syntax.Number

open Pattern

/-- A digit from `0` up to the given one. -/
def upTo (last : Char) : Pattern := one fun c => '0' ≤ c && c ≤ last

/-- A hexadecimal digit. -/
def hexDigit : Pattern := one fun c =>
  c.isDigit || ('a' ≤ c && c ≤ 'f') || ('A' ≤ c && c ≤ 'F')

/-- Groups of digits with single underscores between them. -/
def groups (digit : Pattern) : Pattern := sep1 (many1 digit) (char '_')

/-- Zero, or digits that do not begin with it. -/
def plain : Pattern :=
  either (char '0')
    (both (one fun c => '1' ≤ c && c ≤ '9')
      (opt (both (opt (char '_')) (sep1 (many1 (upTo '9')) (many1 (char '_'))))))

/-- The mark of a long integer. -/
def long : Pattern := opt (among "lL")

/-- The mark of a floating point type. -/
def floating : Pattern := among "fFdD"

/-- An exponent after one of the given letters. -/
def exponent (letters : String) (digits : Pattern) : Pattern :=
  seq [among letters, opt (among "-+"), digits]

/-- Decimal digits in groups. -/
def decimal : Pattern := groups (upTo '9')

/-- Hexadecimal digits in groups. -/
def hex : Pattern := groups hexDigit

/-- The forms of decimal floating point literals. -/
def decimalFloat : Pattern := alt [
  seq [decimal, char '.', opt decimal, opt (exponent "eE" decimal), opt floating],
  seq [char '.', decimal, opt (exponent "eE" decimal), opt floating],
  seq [plain, exponent "eE" decimal, opt floating],
  seq [plain, opt (exponent "eE" decimal), floating] ]

/-- The forms of hexadecimal floating point literals. -/
def hexFloat : Pattern := seq [
  char '0', among "xX",
  either (both hex (opt (char '.'))) (seq [opt hex, char '.', hex]),
  opt (both (exponent "pP" plain) (opt floating)) ]

/-- **The forms of number literals**, each with its kind. -/
def forms : List (Kind × Pattern) := [
  (.decimalIntegerLiteral, both plain long),
  (.hexIntegerLiteral, seq [char '0', among "xX", hex, long]),
  (.octalIntegerLiteral, seq [char '0', opt (among "oO"), groups (upTo '7'), long]),
  (.binaryIntegerLiteral, seq [char '0', among "bB", groups (upTo '1'), long]),
  (.decimalFloatingPointLiteral, decimalFloat),
  (.hexFloatingPointLiteral, hexFloat) ]

/-- **The number at the front of a text**: its kind and how many
characters it has. -/
def read? (cs : List Char) : Option (Kind × Nat) :=
  forms.foldl (fun best (kind, form) =>
    match form.longest cs, best with
    | some n, some (_, m) => if m < n then some (kind, n) else best
    | some n, none => some (kind, n)
    | none, _ => best) none

end JavaMutants.Syntax.Number
