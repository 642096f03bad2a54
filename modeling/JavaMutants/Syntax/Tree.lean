import JavaMutants.Syntax.Lexeme

/-!
# Syntax trees

A node has a label, a range of bytes, its children in source order, and
the field under which its parent knows it. Tokens and comments are nodes
too: a tree holds every byte of the text that is not white space.

A text that is not well-formed still has a tree. What does not fit in is
kept in *error* nodes, and a token that would have to be there stands as
an empty *missing* node; both are **faults**. Every node carries a flag
that says whether there is a fault below it, so that a search for faults
can pass over sound subtrees (`firstFault`).
-/

namespace JavaMutants.Syntax

/-- A range of bytes, from `start` up to and without `stop`. -/
structure Span where
  /-- Where the range begins. -/
  start : Nat
  /-- Where the range has ended. -/
  stop : Nat
deriving DecidableEq, Repr

/-- **What a node is.** -/
inductive Label where
  /-- A node with a name of its own. -/
  | named (kind : Kind)
  /-- A punctuation mark or an operator. -/
  | punct (mark : Punct)
  /-- A keyword. -/
  | keyword (word : Keyword)
  /-- A part of the text that fits in nowhere. -/
  | error
  /-- A token that is not there and would have to be. -/
  | missing (what : String)
deriving DecidableEq, Repr

/-- What a label says a node is. -/
def Label.text : Label → String
  | .named kind => kind.text
  | .punct mark => mark.text
  | .keyword word => word.text
  | .error => "ERROR"
  | .missing what => what

/-- Whether a label is that of a fault. -/
def Label.isFault : Label → Bool
  | .error => true
  | .missing _ => true
  | _ => false

/-- Whether a node is more than a token. -/
def Label.isNamed : Label → Bool
  | .named _ => true
  | .error => true
  | _ => false

/-- **A syntax tree.** -/
inductive Tree where
  /-- A node. -/
  | node (label : Label) (field : Option Field) (span : Span) (faulty : Bool)
      (children : List Tree)
deriving Repr

namespace Tree

/-- What the node is. -/
def label : Tree → Label
  | node l _ _ _ _ => l

/-- The name under which the parent knows the node. -/
def field : Tree → Option Field
  | node _ f _ _ _ => f

/-- The bytes from the first token of the node to its last. -/
def span : Tree → Span
  | node _ _ s _ _ => s

/-- Whether a fault is said to be in the node. -/
def faulty : Tree → Bool
  | node _ _ _ b _ => b

/-- The nodes right below, in source order. -/
def children : Tree → List Tree
  | node _ _ _ _ cs => cs

/-- Where the node begins. -/
def start (t : Tree) : Nat := t.span.start

/-- Where the node has ended. -/
def stop (t : Tree) : Nat := t.span.stop

/-- Whether the node is of a kind. -/
def isA (t : Tree) (k : Kind) : Bool := t.label == .named k

/-- The kind of a named node. -/
def kind? (t : Tree) : Option Kind :=
  match t.label with
  | .named k => some k
  | _ => none

/-- The same node, known to its parent by a name unless it has one. -/
def withField (f : Option Field) : Tree → Tree
  | node l none s b cs => node l f s b cs
  | t => t

/-- A node without children. -/
def leaf (l : Label) (s : Span) : Tree := node l none s l.isFault []

/-- **A node over its children**: it reaches from the first to the last
of them, and a fault is in it if one is in any of them. -/
def above (l : Label) (cs : List Tree) : Tree :=
  let s := match cs.head?, cs.getLast? with
    | some first, some last => Span.mk first.start last.stop
    | _, _ => ⟨0, 0⟩
  node l none s (l.isFault || cs.any faulty) cs

/-- The first child known by a name. -/
def child? (t : Tree) (f : Field) : Option Tree :=
  t.children.find? fun c => c.field == some f

/-- The children that are more than tokens. Comments count. -/
def namedChildren (t : Tree) : List Tree := t.children.filter fun c => c.label.isNamed

mutual

/-- **The nodes in document order**, parents before children, without
those below a node for which `enter` fails. -/
def visit (enter : Tree → Bool) : Tree → List Tree
  | node l f s b cs =>
    node l f s b cs :: if enter (node l f s b cs) then visitAll enter cs else []

/-- The nodes of several trees in document order. -/
def visitAll (enter : Tree → Bool) : List Tree → List Tree
  | [] => []
  | t :: ts => visit enter t ++ visitAll enter ts

end

/-- All nodes in document order. -/
def preorder (t : Tree) : List Tree := t.visit fun _ => true

mutual

/-- **The deepest node that covers a range**, the tree itself if none
below it does. -/
def covering (r : Span) : Tree → Tree
  | node l f s b cs => (coveringAmong r cs).getD (node l f s b cs)

/-- The deepest node that covers a range in the first tree that covers
it. An empty node covers the place where it stands. -/
def coveringAmong (r : Span) : List Tree → Option Tree
  | [] => none
  | t :: ts =>
    if t.stop < r.stop then coveringAmong r ts
    else if t.stop < r.start || (t.stop == r.start && t.start != t.stop) then
      coveringAmong r ts
    else if r.start < t.start then none
    else some (covering r t)

end

mutual

/-- **The first fault of a tree**, looked for only below nodes that are
flagged. -/
def firstFault : Tree → Option Tree
  | node l f s b cs =>
    if l.isFault then some (node l f s b cs)
    else if b then firstFaultAmong cs else none

/-- The first fault of several trees. -/
def firstFaultAmong : List Tree → Option Tree
  | [] => none
  | t :: ts => (firstFault t).or (firstFaultAmong ts)

end

mutual

/-- **Puts a leaf where it stands**: into the deepest node that has tokens
on both sides of it. A comment is such a leaf, and so is what fits in
nowhere. -/
def insert (extra : Tree) : Tree → Tree
  | node l f s b cs => node l f s (b || extra.faulty) (insertAmong extra cs)

/-- Puts a leaf into the node that encloses it, else between two nodes or
at the end. -/
def insertAmong (extra : Tree) : List Tree → List Tree
  | [] => [extra]
  | t :: ts =>
    if t.stop ≤ extra.start then t :: insertAmong extra ts
    else if t.start ≤ extra.start then insert extra t :: ts
    else extra :: t :: ts

end

end Tree

end JavaMutants.Syntax
