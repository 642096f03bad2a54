import JavaMutants.Operator

/-!
# Edits of a declaration

What the built-in generators have in common: a target's text is parsed on
its own, some nodes of its declaration are chosen, and each of them is
exchanged for another text. One version has one node exchanged.
-/

namespace JavaMutants

open Syntax

/-- **An exchange of one range of bytes** of a declaration's text. -/
structure Edit where
  /-- Where the range begins. -/
  start : Nat
  /-- Where the range has ended. -/
  stop : Nat
  /-- What takes its place. -/
  text : String
deriving DecidableEq, Repr

namespace Edit

/-- Exchanges a node of a fragment, if it does not begin before the
declaration. -/
def ofNode? (fragment : Fragment) (node : Tree) (text : String) : Option Edit := do
  let (start, stop) ← fragment.localRange? node
  some ⟨start, stop, text⟩

/-- The text with the edit made. -/
def applyTo? (edit : Edit) (span : String) : Option String :=
  Text.splice? span edit.start edit.stop edit.text

end Edit

/-- The versions of a text for some nodes and what takes their place. -/
def exchangeEach (fragment : Fragment) (span : String) (sites : List (Tree × String)) :
    Option (List String) :=
  sites.mapM fun (node, text) => do (← Edit.ofNode? fragment node text).applyTo? span

/-- **Generates from the declaration of a text.** A text that cannot be
parsed on its own has no versions. -/
def withDeclaration (target : Target) (span : String)
    (generate : Fragment → Tree → Option (List String)) : Option (List String) :=
  match Fragment.parse? span (target.kind != .typeDeclaration) with
  | some fragment => generate fragment fragment.declaration
  | none => some []

end JavaMutants
