/-!
# Patterns

Regular patterns over characters, and the longest beginning of a text
that one of them matches. A pattern is read character by character: what
it leaves to be matched after a character is its derivative.
-/

namespace JavaMutants.Syntax

/-- **A regular pattern.** -/
inductive Pattern where
  /-- Matches nothing. -/
  | never
  /-- Matches the empty text. -/
  | empty
  /-- Matches one character. -/
  | one (accepts : Char → Bool)
  /-- One pattern after the other. -/
  | both (first second : Pattern)
  /-- Either pattern. -/
  | either (left right : Pattern)
  /-- A pattern any number of times. -/
  | many (body : Pattern)

namespace Pattern

/-- Whether the empty text matches. -/
def matchesEmpty : Pattern → Bool
  | never => false
  | empty => true
  | one _ => false
  | both a b => a.matchesEmpty && b.matchesEmpty
  | either a b => a.matchesEmpty || b.matchesEmpty
  | many _ => true

/-- One pattern after the other, where the first may have come to an
end. -/
def andThen : Pattern → Pattern → Pattern
  | never, _ => never
  | empty, b => b
  | a, b => both a b

/-- Either pattern, where one may have failed. -/
def orElse : Pattern → Pattern → Pattern
  | never, b => b
  | a, never => a
  | a, b => either a b

/-- What is left to match after a character. -/
def after (c : Char) : Pattern → Pattern
  | never => never
  | empty => never
  | one accepts => if accepts c then empty else never
  | both a b =>
    if a.matchesEmpty then ((a.after c).andThen b).orElse (b.after c)
    else (a.after c).andThen b
  | either a b => (a.after c).orElse (b.after c)
  | many a => (a.after c).andThen (many a)

/-- Continues a match: `read` characters have been read, and the longest
match so far has `best` of them. -/
def longestFrom (best : Option Nat) (read : Nat) : Pattern → List Char → Option Nat
  | p, cs =>
    let best := if p.matchesEmpty then some read else best
    match cs with
    | [] => best
    | c :: rest =>
      match p.after c with
      | never => best
      | q => longestFrom best (read + 1) q rest

/-- **How many characters the longest match at the front of a text has**,
if there is a match. -/
def longest (p : Pattern) (cs : List Char) : Option Nat := longestFrom none 0 p cs

/-- One given character. -/
def char (c : Char) : Pattern := one (· == c)

/-- One of some characters. -/
def among (cs : String) : Pattern := one cs.toList.contains

/-- Patterns one after the other. -/
def seq : List Pattern → Pattern
  | [] => empty
  | [p] => p
  | p :: ps => both p (seq ps)

/-- One of several patterns. -/
def alt : List Pattern → Pattern
  | [] => never
  | [p] => p
  | p :: ps => either p (alt ps)

/-- A pattern or nothing. -/
def opt (p : Pattern) : Pattern := either p empty

/-- A pattern at least once. -/
def many1 (p : Pattern) : Pattern := both p (many p)

/-- A pattern at least once, with another one between. -/
def sep1 (p separator : Pattern) : Pattern := both p (many (both separator p))

end Pattern

end JavaMutants.Syntax
