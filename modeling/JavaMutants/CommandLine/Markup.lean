/-!
# Marked-up messages

The messages of a command line as pieces that have roles. A role shows in
the letters of a terminal where styles are switched on.
-/

namespace JavaMutants.CommandLine

/-- **What a piece of a message is.** -/
inductive Role where
  /-- Running text, and names of values. -/
  | normal
  /-- What has to be typed as it stands. -/
  | literal
  /-- A heading. -/
  | heading
  /-- The word that announces an error. -/
  | error
  /-- What was typed and is wrong. -/
  | wrong
  /-- What could have been typed. -/
  | right
deriving DecidableEq, Repr

/-- What switches a role on. -/
def Role.opening : Role → String
  | normal => ""
  | literal => "\x1b[1m"
  | heading => "\x1b[1m\x1b[4m"
  | error => "\x1b[1m\x1b[31m"
  | wrong => "\x1b[33m"
  | right => "\x1b[32m"

/-- **A piece of a message.** -/
structure Piece where
  /-- What it is. -/
  role : Role
  /-- Its text. -/
  text : String
deriving DecidableEq, Repr

/-- A message. -/
abbrev Markup := List Piece

/-- Running text. -/
def plain (text : String) : Piece := ⟨.normal, text⟩

/-- What has to be typed as it stands. -/
def literal (text : String) : Piece := ⟨.literal, text⟩

/-- A heading. -/
def heading (text : String) : Piece := ⟨.heading, text⟩

/-- What was typed and is wrong. -/
def wrong (text : String) : Piece := ⟨.wrong, text⟩

/-- What could have been typed. -/
def right (text : String) : Piece := ⟨.right, text⟩

/-- A piece as it is printed. -/
def Piece.render (styled : Bool) (p : Piece) : String :=
  if styled && p.role != .normal then p.role.opening ++ p.text ++ "\x1b[0m" else p.text

/-- **A message as it is printed.** -/
def Markup.render (styled : Bool) (m : Markup) : String :=
  String.join (m.map (Piece.render styled))

/-- How many characters a message has. -/
def Markup.length (m : Markup) : Nat := (m.map (·.text.length)).foldl (· + ·) 0

end JavaMutants.CommandLine
