import JavaMutants.Syntax.Token

/-!
# Rules

A grammar as data, and one function that reads tokens by it. Rules are
tried in the order in which they stand: of two alternatives the second is
read only where the first cannot be, and a repetition goes on as long as
it can. Constructs that begin with themselves – `a.b.c`, `a + b + c` –
are read from their first part on, each further part wrapping what has
been read so far (`grow`, `wrap`).

Reading gives back the nodes read and the tokens left, and in any case
how far it came: the start of the last token at which it had to stop.
-/

namespace JavaMutants.Syntax

/-- **A rule** over a set of named parts. -/
inductive Rule (Part : Type) where
  /-- Nothing. -/
  | nothing
  /-- A punctuation mark, under a label. -/
  | mark (p : Punct) (label : Label)
  /-- A word in its meaning as a keyword, under a label. -/
  | word (k : Keyword) (label : Label)
  /-- A word as a name, in a place where the meanings of some keywords
  come first. -/
  | name (kind : Kind) (taken : List Keyword)
  /-- A literal or a part of a quoted text. -/
  | piece (kind : Kind)
  /-- A closing angle bracket, be it the beginning of a longer mark. -/
  | angle
  /-- The end of the text. -/
  | finish
  /-- A named part. -/
  | part (p : Part)
  /-- One rule after the other. -/
  | both (first second : Rule Part)
  /-- The first rule, else the second. -/
  | either (first second : Rule Part)
  /-- A rule as often as it can be read. -/
  | many (body : Rule Part)
  /-- Nothing, in a place where none of some lexemes comes next. -/
  | barring (lexemes : List Lexeme)
  /-- The nodes of a rule, known by a field. -/
  | field (f : Field) (body : Rule Part)
  /-- One node over the nodes of a rule. -/
  | tree (kind : Kind) (body : Rule Part)
  /-- A beginning, and what is made of it. -/
  | onto (head step : Rule Part)
  /-- A step as often as it can be read, each on the result of the one
  before. -/
  | steps (step : Rule Part)
  /-- What was read before, as it is. -/
  | keep
  /-- A step: one node over what was read before, known by a field, and
  the nodes of a rule. It applies to nodes of some kinds only, to all if
  no kind is named. -/
  | wrap (kinds : List Kind) (kind : Kind) (left : Option Field) (body : Rule Part)

namespace Rule

variable {Part : Type}

/-- A punctuation mark as it stands. -/
def sym (p : Punct) : Rule Part := mark p (.punct p)

/-- A keyword as it stands. -/
def key (k : Keyword) : Rule Part := word k (.keyword k)

/-- Rules one after the other. -/
def seq : List (Rule Part) → Rule Part
  | [] => nothing
  | [r] => r
  | r :: rs => both r (seq rs)

/-- The first of several rules that can be read. -/
def alt : List (Rule Part) → Rule Part
  | [] => nothing
  | [r] => r
  | r :: rs => either r (alt rs)

/-- A rule or nothing. -/
def opt (r : Rule Part) : Rule Part := either r nothing

/-- A rule at least once. -/
def many1 (r : Rule Part) : Rule Part := both r (many r)

/-- A beginning, and steps that each wrap what was read before. -/
def grow (head step : Rule Part) : Rule Part := onto head (steps step)

/-- A rule at least once, with a mark between. -/
def sep1 (r : Rule Part) (p : Punct) : Rule Part := both r (many (both (sym p) r))

/-- A rule at least once, with commas between. -/
def commas1 (r : Rule Part) : Rule Part := sep1 r .comma

/-- A rule any number of times, with commas between. -/
def commas (r : Rule Part) : Rule Part := opt (commas1 r)

end Rule

/-- **How reading went.** -/
structure Reading where
  /-- The start of the last token at which reading stopped. -/
  reached : Nat
  /-- The nodes read and the tokens left, if the rule could be read. -/
  result : Option (List Tree × List Token)

namespace Reading

/-- Reading stops at a token. -/
def stopAt : List Token → Reading
  | [] => ⟨0, none⟩
  | t :: _ => ⟨t.span.start, none⟩

/-- Reading goes on after some nodes. -/
def done (nodes : List Tree) (rest : List Token) : Reading := ⟨0, some (nodes, rest)⟩

/-- Goes on with what was read, and remembers how far it came. -/
def andThen (r : Reading) (f : List Tree → List Token → Reading) : Reading :=
  match r.result with
  | none => r
  | some (nodes, rest) =>
    let next := f nodes rest
    ⟨max r.reached next.reached, next.result⟩

/-- The reading, or another one if it failed. -/
def orElse (r : Reading) (other : Unit → Reading) : Reading :=
  match r.result with
  | some _ => r
  | none =>
    let next := other ()
    ⟨max r.reached next.reached, next.result⟩

/-- Changes the nodes of a reading. -/
def map (f : List Tree → List Tree) (r : Reading) : Reading :=
  ⟨r.reached, r.result.map fun (nodes, rest) => (f nodes, rest)⟩

end Reading

/-- The leaf of a token. A token without any text is one that had to be
put in. -/
def tokenLeaf (label : Label) (s : Span) : Tree :=
  .leaf (if s.start < s.stop then label else .missing label.text) s

/-- A leaf for the token in front, if it is the one asked for. -/
def takeIf (accepts : Lexeme → Bool) (label : Label) : List Token → Reading
  | t :: rest =>
    if accepts t.lexeme then .done [tokenLeaf label t.span] rest else .stopAt (t :: rest)
  | [] => .stopAt []

/-- What is left of a mark that begins with a closing angle bracket. -/
def Punct.afterAngle? : Punct → Option (Option Punct)
  | .gt => some none
  | .ge => some (some .assign)
  | .shr => some (some .gt)
  | .shrAssign => some (some .ge)
  | .ushr => some (some .shr)
  | .ushrAssign => some (some .shrAssign)
  | _ => none

/-- Takes a closing angle bracket off the token in front. -/
def takeAngle : List Token → Reading
  | ⟨.punct p, s⟩ :: rest =>
    let bracket := tokenLeaf (.punct .gt) ⟨s.start, min (s.start + 1) s.stop⟩
    match p.afterAngle? with
    | some none => .done [bracket] rest
    | some (some q) => .done [bracket] (⟨.punct q, ⟨s.start + 1, s.stop⟩⟩ :: rest)
    | none => .stopAt (⟨.punct p, s⟩ :: rest)
  | ts => .stopAt ts

/-- Whether a step applies to what was read before. -/
def applies (kinds : List Kind) (left : List Tree) : Bool :=
  kinds.isEmpty || left.any fun t => kinds.any fun k => t.isA k

/-- **Reads tokens by a rule** of a grammar, with the nodes that a step
would wrap. Every call goes one level down, to a depth of at most
`fuel`. -/
def Rule.read {Part : Type} (grammar : Part → Rule Part) :
    Nat → Rule Part → List Tree → List Token → Reading
  | 0, _, _, ts => .stopAt ts
  | fuel + 1, rule, left, ts =>
    match rule with
    | .nothing => .done [] ts
    | .mark p label => takeIf (· == .punct p) label ts
    | .word k label => takeIf (· == .word (some k)) label ts
    | .name kind taken =>
      takeIf (fun
        | .word none => true
        | .word (some k) => !taken.contains k
        | _ => false) (.named kind) ts
    | .piece kind => takeIf (· == .piece kind) (.named kind) ts
    | .angle => takeAngle ts
    | .finish => (takeIf (· == .finish) .error ts).map fun _ => []
    | .part p => (grammar p).read grammar fuel left ts
    | .both a b =>
      (a.read grammar fuel left ts).andThen fun nodes rest =>
        (b.read grammar fuel [] rest).map (nodes ++ ·)
    | .either a b =>
      (a.read grammar fuel left ts).orElse fun _ => b.read grammar fuel left ts
    | .many a =>
      ((a.read grammar fuel [] ts).andThen fun nodes rest =>
        ((many a).read grammar fuel [] rest).map (nodes ++ ·)).orElse fun _ => .done [] ts
    | .barring lexemes =>
      match ts with
      | t :: _ => if lexemes.contains t.lexeme then .stopAt ts else .done [] ts
      | [] => .stopAt ts
    | .field f a => (a.read grammar fuel left ts).map (·.map (Tree.withField (some f)))
    | .tree kind a => (a.read grammar fuel [] ts).map fun nodes => [.above (.named kind) nodes]
    | .onto a b =>
      (a.read grammar fuel [] ts).andThen fun nodes rest => b.read grammar fuel nodes rest
    | .steps a =>
      ((a.read grammar fuel left ts).andThen fun nodes rest =>
        (steps a).read grammar fuel nodes rest).orElse fun _ => .done left ts
    | .keep => .done left ts
    | .wrap kinds kind f a =>
      if applies kinds left then
        (a.read grammar fuel [] ts).map fun nodes =>
          [.above (.named kind) (left.map (Tree.withField f) ++ nodes)]
      else .stopAt ts

end JavaMutants.Syntax
