import JavaMutants.Syntax.Repair

/-!
# Parsing

From a text to its syntax tree. Every text has one; that of a text that
is not well-formed has faults.
-/

namespace JavaMutants.Syntax

/-- The leaf of a comment. -/
def commentLeaf (t : Token) : Tree :=
  match t.lexeme with
  | .piece k => .leaf (.named k) t.span
  | _ => .leaf .error t.span

/-- The root with its comments in place, up to the end of the text. -/
def finishRoot (size : Nat) (comments : List Token) (root : Tree) : Tree :=
  match comments.foldl (fun t c => Tree.insert (commentLeaf c) t) root with
  | .node l f _ b cs => .node l f ⟨(cs.head?.map Tree.start).getD size, size⟩ b cs

/-- **The syntax tree of a text.** -/
def parse (text : String) : Tree :=
  let tokens := Token.scan text.toList
  let code := tokens.filter fun t => !t.isComment
  let comments := tokens.filter Token.isComment
  let root := match (readProgram code).result with
    | some ([root], _) => root
    | _ => repaired text.toList code comments
  finishRoot (Text.size text) comments root

end JavaMutants.Syntax
