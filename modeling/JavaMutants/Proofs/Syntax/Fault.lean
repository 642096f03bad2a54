import JavaMutants.Proofs.Syntax.Parse

/-!
# The first fault of a text

The search for a fault enters only nodes that are flagged. It still finds
what a search through all nodes in document order finds first, wherever
the flags are true (`Tree.Flagged.firstFault_eq`): what it passes over has
no fault. The flags of every parsed text are true, whether the text was
read as it stands or had to be repaired (`flagged_parse`). So a text is
accepted exactly if no node of its tree is a fault, and the place that is
reported otherwise is that of the first fault (`firstFault_exact`).
-/

namespace JavaMutants.Syntax

namespace Tree

/-- The nodes of a tree with true flags have true flags. -/
theorem Flagged.of_mem_preorder {n t : Tree} (h : Flagged t) (hn : n ∈ t.preorder) :
    Flagged n := by
  induction h with
  | node hb hcs ih =>
    rcases mem_preorder_iff.1 hn with rfl | ⟨c, hc, hnc⟩
    · exact .node hb hcs
    · exact ih c hc hnc

/-- **Flags are true** if and only if each of them says whether there is a fault
in its node. -/
theorem flagged_iff {t : Tree} :
    Flagged t ↔ ∀ n ∈ t.preorder,
      (n.faulty = true ↔ ∃ m ∈ n.preorder, m.label.isFault = true) := by
  refine ⟨fun h n hn => (h.of_mem_preorder hn).faulty_eq_true_iff, fun h => ?_⟩
  induction t using induction with
  | node l f s b cs ih =>
    have hcs : ∀ c ∈ cs, Flagged c := fun c hc =>
      ih c hc fun n hn => h n (mem_preorder_of_child hc hn)
    -- the flag of the root says what the flag over its children says
    refine .node (Bool.eq_iff_iff.2 ?_) hcs
    have habove : Flagged (node l f s (l.isFault || cs.any faulty) cs) := .node rfl hcs
    refine (h _ (mem_preorder_self _)).trans (Iff.trans ?_ habove.faulty_eq_true_iff.symm)
    rw [preorder_eq, preorder_eq]
    simp only [List.mem_cons, exists_eq_or_imp]
    rfl

end Tree

/-- A text is refused for the fault that is found in it. -/
theorem parseSound_eq_error_iff {text reason : String} :
    parseSound text = .error reason
      ↔ ∃ fault, (parse text).firstFault = some fault ∧ reason = faultReason text fault := by
  unfold parseSound
  simp only
  cases (parse text).firstFault with
  | none => exact ⟨nofun, nofun⟩
  | some fault =>
    rw [Except.error.injEq]
    constructor
    · rintro rfl
      exact ⟨fault, rfl, rfl⟩
    · rintro ⟨_, h, rfl⟩
      rw [Option.some.inj h]

/-- The reason that is given ends in the place where the fault begins. -/
theorem exists_faultReason_eq (text : String) (fault : Tree) :
    ∃ what, faultReason text fault
      = what ++ " at " ++ toString (Position.ofOffset text fault.start).line
        ++ ":" ++ toString (Position.ofOffset text fault.start).column := ⟨_, rfl⟩

/-- **The search for a fault misses none.** In a tree in which every flag says
whether there is a fault in its node, it finds the first fault in document
order, and nothing exactly if there is no fault. A text is therefore
accepted, with its tree, exactly if no node of that is a fault; otherwise
the reason is that of the first fault, and its place is reported. -/
theorem firstFault_exact :
    (∀ t : Tree,
      (∀ n ∈ t.preorder, (n.faulty = true ↔ ∃ m ∈ n.preorder, m.label.isFault = true)) →
      t.firstFault = t.preorder.find? (fun n => n.label.isFault)
        ∧ (t.firstFault = none ↔ ∀ n ∈ t.preorder, n.label.isFault = false))
    ∧ ∀ text,
      (∀ tree, parseSound text = .ok tree
        ↔ tree = parse text ∧ ∀ n ∈ (parse text).preorder, n.label.isFault = false)
      ∧ ∀ reason, parseSound text = .error reason
        ↔ ∃ before fault after, (parse text).preorder = before ++ fault :: after
          ∧ (∀ n ∈ before, n.label.isFault = false) ∧ fault.label.isFault = true
          ∧ reason = faultReason text fault
          ∧ ∃ what, reason
            = what ++ " at " ++ toString (Position.ofOffset text fault.start).line
              ++ ":" ++ toString (Position.ofOffset text fault.start).column := by
  have hnone {t : Tree} (h : Tree.Flagged t) :
      t.firstFault = none ↔ ∀ n ∈ t.preorder, n.label.isFault = false := by
    rw [h.firstFault_eq, List.find?_eq_none]
    simp only [Bool.not_eq_true]
  refine ⟨fun t ht => ?_, fun text => ⟨fun tree => ?_, fun reason => ?_⟩⟩
  · have hflag := Tree.flagged_iff.2 ht
    exact ⟨hflag.firstFault_eq, hnone hflag⟩
  · rw [parseSound_eq_ok_iff, hnone (flagged_parse text)]
  · rw [parseSound_eq_error_iff, (flagged_parse text).firstFault_eq]
    constructor
    · rintro ⟨fault, hfind, rfl⟩
      obtain ⟨hf, before, after, hsplit, hbefore⟩ := List.find?_eq_some_iff_append.1 hfind
      exact ⟨before, fault, after, hsplit, fun n hn => by simpa using hbefore n hn, hf, rfl,
        exists_faultReason_eq text fault⟩
    · rintro ⟨before, fault, after, hsplit, hbefore, hf, rfl, -⟩
      refine ⟨fault, List.find?_eq_some_iff_append.2 ⟨hf, before, after, hsplit, fun n hn => ?_⟩, rfl⟩
      simp [hbefore n hn]

/-- A block without its end, between a sound statement and an error. -/
theorem firstFault_exact_missing :
    let sound : Tree := .above (.named .expressionStatement) [.leaf (.punct .semicolon) ⟨0, 1⟩]
    let missing : Tree := .leaf (.missing "\x7d") ⟨3, 3⟩
    let block : Tree := .above (.named .block) [.leaf (.punct .braceOpen) ⟨2, 3⟩, missing]
    let root : Tree := .above (.named .program) [sound, block, .leaf .error ⟨4, 5⟩]
    (∀ n ∈ root.preorder, (n.faulty = true ↔ ∃ m ∈ n.preorder, m.label.isFault = true))
      ∧ root.firstFault = some missing := by
  intro sound missing block root
  have hflags : ∀ n ∈ root.preorder,
      (n.faulty = true ↔ ∃ m ∈ n.preorder, m.label.isFault = true) := by decide
  exact ⟨hflags, (firstFault_exact.1 root hflags).1.trans rfl⟩

end JavaMutants.Syntax
