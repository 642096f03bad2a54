import JavaMutants.Syntax.Grammar

/-!
# Repair

A text that cannot be read by the grammar is read with **repairs**, each
made where reading had to stop: tokens are left out, before the one that
stopped it or from that one on, or a token is put in that closes
something. The repairs say where the fault is – an error where tokens
are left out, a missing token where one is put in.

Repairs have a price (`Price`), and the cheapest that let the text be
read to its end are taken. Leaving out costs by the number of nodes and
of bytes that are lost, so that what is short is left out, and what is
long is rather closed with a token. `search` tries repairs from the
cheapest on; where reading gets past the token that stopped it and stops
again, it tries the repairs of that place on top.
-/

namespace JavaMutants.Syntax

/-- How deep reading may go for a number of tokens. -/
def depth (tokens : List Token) : Nat := 200 * (tokens.length + 1)

/-- Reads tokens as a whole text. -/
def readProgram (code : List Token) : Reading :=
  (Rule.part (.node .program)).read Grammar.rules (depth code) [] code

/-! ## What repairs cost -/

namespace Price

/-- The price of any repair. -/
def repair : Nat := 500

/-- The price of a token that is put in. -/
def missing : Nat := 110

/-- The price of a node that is left out. -/
def node : Nat := 100

/-- The price of a line break that is left out. -/
def line : Nat := 30

end Price

/-- The nodes that tokens are taken together to when they are left
out. -/
def wholes : List Grammar.Rules := [
  .part .statement, .part .member, .part .modifiers, .part (.plainType .alone),
  .part .formalParameters, .part .typeArguments, .part (.switchLabel true),
  .both (.barring (Words.notInStatement.map fun k => .word (some k)))
    (.part (.expression true)) ]

/-- What is left after the longest node in front of some tokens. -/
def afterWhole (tokens : List Token) : List Token :=
  let rests := wholes.filterMap fun rule =>
    (rule.read Grammar.rules (depth tokens) [] tokens).result.map (·.2)
  rests.foldl (fun best rest => if rest.length < best.length then rest else best) tokens

/-- **How many nodes some tokens make**, the longest first that begins
in front. A stray character makes none. -/
def wholeCount : Nat → List Token → Nat
  | 0, tokens => tokens.length
  | _, [] => 0
  | fuel + 1, t :: ts =>
    let rest := afterWhole (t :: ts)
    if rest.length ≤ ts.length then wholeCount fuel rest + 1
    else wholeCount fuel ts + if t.lexeme == .stray then 0 else 1

/-! ## Repairs -/

/-- **Tokens with repairs.** -/
structure Repair where
  /-- What the repairs cost. -/
  cost : Nat
  /-- The tokens to be read. -/
  tokens : List Token
  /-- What is left out. -/
  skipped : List Span
  /-- The place that reading has to come to, so that the repairs are of
  any use. -/
  goal : Nat

/-- What repairs need to know of a text besides its tokens. -/
structure Surroundings where
  /-- The comments. -/
  comments : List Token
  /-- Where lines end. -/
  breaks : List Nat

namespace Repair

/-- No more tokens than these are left out on either side. -/
def reach : Nat := 16

/-- The tokens that are put in: a name, and the marks that close
something. -/
def closers : List Lexeme := [
  .word none, .punct .semicolon, .punct .parenClose, .punct .bracketClose,
  .punct .braceClose, .punct .gt, .punct .colon ]

/-- Whether a token can be put in before another. No name is made up for
what has brackets. -/
def canPrecede (lexeme next : Lexeme) : Bool :=
  !(lexeme == .word none && (next == .punct .parenOpen || next == .punct .braceOpen))

/-- Leaves out the nearest `k` tokens before a place, the last of them
first, and `m` tokens after it. -/
def skip? (around : Surroundings) (r : Repair) (before after : List Token) (k m : Nat) :
    Option Repair :=
  let left := (before.take k).reverse
  let right := after.take m
  match (left ++ right).head?, (left ++ right).getLast?, after.drop m with
  | some first, some last, next :: _ =>
    let lost : Span := ⟨first.span.start, last.span.stop⟩
    let lines := around.breaks.countP fun b => lost.start ≤ b && b < lost.stop
    let nodes := wholeCount k left + right.countP fun t => t.lexeme != .stray
    some {
      cost := r.cost + Price.repair + nodes * Price.node + (lost.stop - lost.start)
        + lines * Price.line
      tokens := (before.drop k).reverse ++ after.drop m
      skipped := r.skipped ++ [lost]
      goal := next.span.start + 1 }
  | _, _, _ => none

/-- Where the text before an offset has ended, comments included. -/
def endBefore (around : Surroundings) (before : List Token) (offset : Nat) : Nat :=
  let ends := (before ++ around.comments).map (·.span.stop)
  (ends.filter (· ≤ offset)).foldl max 0

/-- Puts a token in at a place. -/
def supply? (around : Surroundings) (r : Repair) (before after : List Token)
    (lexeme : Lexeme) : Option Repair :=
  match after with
  | [] => none
  | next :: _ =>
    let place := endBefore around before next.span.start
    if canPrecede lexeme next.lexeme then
      some {
        cost := r.cost + Price.repair + Price.missing
        tokens := before.reverse ++ ⟨lexeme, ⟨place, place⟩⟩ :: after
        skipped := r.skipped
        goal := next.span.start + 1 }
    else none

/-- The two parts of a token that was read up to an offset within it,
as the marks that begin with closing angle brackets can be. -/
def cut (offset : Nat) : Token → List Token
  | ⟨.punct p, s⟩ =>
    let parts : Option (Punct × Punct) := match p, offset - s.start with
      | .shr, 1 => some (.gt, .gt)
      | .ushr, 1 => some (.gt, .shr)
      | .ushr, 2 => some (.shr, .gt)
      | .ge, 1 => some (.gt, .assign)
      | .shrAssign, 1 => some (.gt, .ge)
      | .shrAssign, 2 => some (.shr, .assign)
      | .ushrAssign, 1 => some (.gt, .shrAssign)
      | .ushrAssign, 2 => some (.shr, .ge)
      | .ushrAssign, 3 => some (.ushr, .assign)
      | _, _ => none
    match parts with
    | some (p, q) => [⟨.punct p, ⟨s.start, offset⟩⟩, ⟨.punct q, ⟨offset, s.stop⟩⟩]
    | none => [⟨.punct p, s⟩]
  | t => [t]

/-- **The repairs at the token at which reading stopped**, the cheapest
first; of two at one price, the one that spares what was read before,
and one that leaves out before one that puts in. -/
def next (around : Surroundings) (r : Repair) (reached : Nat) : List Repair :=
  let tokens := r.tokens.flatMap (cut reached)
  let (past, after) := tokens.span fun t => t.span.start < reached
  let before := past.reverse
  let sides := (List.range (reach + 1)).filter (· ≤ before.length)
  let skips := sides.flatMap fun k =>
    ((List.range (reach + 1)).filter (0 < k + ·)).filterMap (r.skip? around before after k)
  let supplies := closers.filterMap (r.supply? around before after)
  (skips ++ supplies).mergeSort fun a b => a.cost ≤ b.cost

end Repair

/-! ## The search -/

mutual

/-- Whether every mark that is missing ends the node it stands in. -/
def Tree.isClosed : Tree → Bool
  | .node _ _ _ _ cs => areClosed cs

/-- Whether the missing marks among some nodes and below them end their
nodes. -/
def Tree.areClosed : List Tree → Bool
  | [] => true
  | [t] => t.isClosed
  | t :: u :: ts =>
    (match t.label with
      | .missing what => what == Kind.identifier.text || what == Kind.typeIdentifier.text
      | _ => true) && t.isClosed && areClosed (u :: ts)

end

/-- Repairs are settled when this many tokens can be read after them. -/
def settledAfter : Nat := 18

/-- Whether reading came so far with some repairs that they are
settled. -/
def Repair.isSettled (r : Repair) (reached : Nat) : Bool :=
  settledAfter ≤ r.tokens.countP fun t => r.goal ≤ t.span.start && t.span.start < reached

/-- **Tries repairs from the cheapest on**, no more than `fuel` of them,
and gives the root that the first of them lead to that reach the end of
the text. Repairs that are settled are not taken back. -/
def search (around : Surroundings) : Nat → List Repair → Option Tree
  | 0, _ => none
  | _, [] => none
  | fuel + 1, r :: others =>
    let reading := readProgram r.tokens
    match reading.result with
    | some ([root], _) =>
      if root.isClosed then
        some (r.skipped.foldl (fun t s => Tree.insert (.leaf .error s) t) root)
      else search around fuel others
    | _ =>
      if r.goal ≤ reading.reached then
        let next := r.next around reading.reached
        search around fuel (if r.isSettled reading.reached then next
          else others.merge next fun a b => a.cost ≤ b.cost)
      else search around fuel others

/-- The line feeds of a text, from an offset on. -/
def breaksFrom (offset : Nat) : List Char → List Nat
  | [] => []
  | c :: cs =>
    let rest := breaksFrom (offset + c.utf8Size) cs
    if c == '\n' then offset :: rest else rest

/-- How many repairs are tried for a number of tokens: the longer a text
is, the fewer. -/
def attempts (tokens : Nat) : Nat := 100000 / (tokens + 10)

/-- **The root of a text that is not well-formed.** If no repair is
found, all of the text is one error. -/
def repaired (text : List Char) (code comments : List Token) : Tree :=
  let around : Surroundings := ⟨comments, breaksFrom 0 text⟩
  match search around (attempts code.length) [⟨0, code, [], 0⟩] with
  | some root => root
  | none =>
    let start := (code.head?.map (·.span.start)).getD 0
    .above (.named .program) [.leaf .error ⟨start, Text.byteLength text⟩]

end JavaMutants.Syntax
