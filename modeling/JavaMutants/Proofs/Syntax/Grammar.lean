import JavaMutants.Proofs.Syntax.Insertion
import JavaMutants.Proofs.Syntax.Yield
import JavaMutants.Syntax.Grammar

/-!
# The grammar as a whole

What the analyses of rules say of the grammar. A statement about all
parts is checked part by part (`forall_part`); only the levels of the
operators are without end, and above the last of them they are all the
same.

Every part but the annotations before something gives at least one node
(`count_le`), and every rule but that of a whole program, which may be
empty, is regular (`isRegular_rules`). So the leaves of a program are its
tokens (`takes_of_program`).
-/

namespace JavaMutants.Syntax.Grammar

open Rule Syntax.Tree

/-! ## Part by part -/

/-- The parts that are not those of one kind of nodes, as far as they
differ. -/
def otherParts : List Part :=
  [true, false].flatMap (fun l => [Part.expression l, .unary l, .operand l, .switchLabel l]
    ++ (List.range 10).map (Part.binary l))
  ++ [Place.alone, .statement, .body].flatMap (fun place => [Part.plainType place, .simpleType place])
  ++ [Part.primary, .atom, .creation, .statement, .declaration, .topLevel, .member, .modifiers,
    .annotations, .annotationAny, .qualifiedName, .type, .dimensions, .declaratorId,
    .declarators, .initializer, .elementValue, .string, .formalParameters, .typeArguments,
    .arguments, .parenthesized, .block, .classBody ]

/-- From the last level on, the levels of operators are alike. -/
theorem rules_binary_high (lambdas : Bool) (n : Nat) :
    rules (.binary lambdas (n + 9)) = rules (.binary lambdas 9) := by
  show level lambdas (n + 9) = level lambdas 9
  have h9 : ¬ n + 9 < 9 := by omega
  have h6 : ¬ n + 9 = 6 := by omega
  simp only [level, h9, h6, if_false]
  rfl

/-- **A check of all parts.** -/
theorem forall_part (check : Part → Bool) (hnode : ∀ k, check (.node k) = true)
    (hother : otherParts.all check = true)
    (hhigh : ∀ l n, check (.binary l (n + 9)) = check (.binary l 9)) (p : Part) :
    check p = true := by
  have hmem : ∀ q ∈ otherParts, check q = true := List.all_eq_true.1 hother
  cases p with
  | node k => exact hnode k
  | binary l n =>
    match n with
    | 0 | 1 | 2 | 3 | 4 | 5 | 6 | 7 | 8 => exact hmem _ (by cases l <;> decide)
    | n + 9 =>
      rw [hhigh]
      exact hmem _ (by cases l <;> decide)
  | expression l | unary l | operand l | switchLabel l => exact hmem _ (by cases l <;> decide)
  | plainType place | simpleType place => exact hmem _ (by cases place <;> decide)
  | _ => exact hmem _ (by decide)

/-- The kinds of nodes. -/
def kinds : List Kind := (List.range 142).map Kind.ofNat

theorem mem_kinds (k : Kind) : k ∈ kinds := by
  have hlt : k.ctorIdx < 142 := by cases k <;> decide
  exact List.mem_map.2 ⟨k.ctorIdx, List.mem_range.2 hlt, Kind.ofNat_ctorIdx k⟩

/-- **A check of all parts that can be run.** -/
theorem forall_part_of_all (check : Part → Bool)
    (hall : (kinds.map Part.node ++ otherParts).all check = true)
    (hhigh : ∀ l n, check (.binary l (n + 9)) = check (.binary l 9)) (p : Part) :
    check p = true := by
  rw [List.all_append, Bool.and_eq_true] at hall
  refine forall_part check (fun k => ?_) hall.2 hhigh p
  exact List.all_eq_true.1 hall.1 _ (List.mem_map_of_mem (mem_kinds k))

/-- Every rule of the grammar stands where it belongs. -/
theorem isPlaced_rules (p : Part) : (rules p).isPlaced false = true :=
  forall_part_of_all (fun p => (rules p).isPlaced false) (by decide)
    (fun l n => by rw [rules_binary_high]) p

/-! ## Leaves -/

/-- How many nodes a part gives at least. -/
def count : Part → Nat
  | .annotations => 0
  | _ => 1

theorem count_le (p : Part) : count p ≤ (rules p).least count := by
  have h := forall_part_of_all (fun p => decide (count p ≤ (rules p).least count))
    (by decide +kernel) (fun l n => by rw [rules_binary_high]; rfl) p
  exact of_decide_eq_true h

/-- The parts that are not a whole program. Those kinds have no part of
which all nodes are tokens. -/
def isInner : Part → Bool
  | .node k => decide (0 < (body k).least count)
  | _ => true

theorem isRegular_rules (p : Part) (h : isInner p = true) :
    (rules p).isRegular count isInner = true := by
  have h' := forall_part_of_all (fun p => !isInner p || (rules p).isRegular count isInner)
    (by decide +kernel) (fun l n => by rw [rules_binary_high]; rfl) p
  simpa [h] using h'

/-- **The leaves of the nodes of a program are its tokens.** -/
theorem takes_of_program {ts rest : List Token} {nodes : List Tree}
    (h : Derives rules (body .program) none ts nodes rest) :
    Takes ts (leavesAll nodes) rest := by
  obtain ⟨ls, ht, hl⟩ := h.takes count_le isRegular_rules rfl
  rwa [hl]

/-! ## Comments -/

/-- The kinds of comments. -/
def isCommentKind (k : Kind) : Bool := k == .lineComment || k == .blockComment

theorem avoids_comments (p : Part) (h : isInner p = true) :
    (rules p).avoids isCommentKind isInner = true := by
  have h' := forall_part_of_all (fun p => !isInner p || (rules p).avoids isCommentKind isInner)
    (by decide) (fun l n => by rw [rules_binary_high]; rfl) p
  simpa [h] using h'

/-- **The grammar knows no comments.** -/
theorem isComment_of_program {ts rest : List Token} {nodes : List Tree}
    (h : Derives rules (body .program) none ts nodes rest) :
    ∀ c ∈ nodes, ∀ n ∈ c.preorder, n.isComment = false := by
  have hB : ∀ (k : Kind) (cs : List Tree), isCommentKind k = false → isCommentKind k = false :=
    fun _ _ h => h
  have hall := h.respects (fun p hp => respects_of_avoids hB (avoids_comments p hp))
    (respects_of_avoids hB rfl) (fun _ hn => absurd hn List.not_mem_nil)
  intro c hc n hn
  cases hl : n.label with
  | named k =>
    have hk : isCommentKind k = false := hall c hc n hn k hl
    simpa [Tree.isComment, Tree.isA, hl, isCommentKind] using hk
  | _ => simp [Tree.isComment, Tree.isA, hl]

end JavaMutants.Syntax.Grammar
