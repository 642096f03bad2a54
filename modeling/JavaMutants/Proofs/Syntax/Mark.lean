import JavaMutants.Proofs.Syntax.Sound

/-!
# The text of a mark

A leaf that is known by a mark has the text of that mark
(`IsParse.slice?_of_mark`). It is a token of the text, or the closing angle
bracket that was taken off one.
-/

namespace JavaMutants.Syntax

open Syntax.Tree Text Grammar

variable {p : Punct} {s : Span}

/-- A leaf that is known by a mark is no fault, and comes from such a token. -/
theorem eq_of_leafLabel_eq {label : Label} (h : leafLabel label s = .punct p) :
    s.start < s.stop ∧ label = .punct p := by
  unfold leafLabel at h
  split at h
  next hlt => exact ⟨hlt, h⟩
  next => cases h

theorem Lexeme.eq_of_standsAs_punct {x : Lexeme} (h : x.standsAs (.punct p) = true) :
    x = .punct p := by
  cases x with
  | punct q => exact congrArg Lexeme.punct (beq_iff_eq.1 h)
  | _ => cases h

/-- **Leaves that are known by marks have the text of these.** -/
theorem Takes.exists_spelling {ts rest : List Token} {ls : List (Label × Span)}
    (h : Takes ts ls rest) {before cs : List Char} (hlies : Lies before cs ts)
    (hp : (Label.punct p, s) ∈ ls) : ∃ a c, before ++ cs = a ++ (p.text.toList ++ c)
      ∧ s = ⟨byteLength a, byteLength (a ++ p.text.toList)⟩ := by
  induction h generalizing before cs with
  | nil => exact absurd hp List.not_mem_nil
  | @token label t ts leaves rest hl _ ih =>
    obtain ⟨a, b, c, rfl, hb, hs, hts⟩ := hlies.cons_inv
    rcases List.mem_cons.1 hp with heq | hp
    · obtain ⟨hlabel, rfl⟩ := Prod.mk.inj heq
      obtain ⟨-, rfl⟩ := eq_of_leafLabel_eq hlabel.symm
      rw [Lexeme.eq_of_standsAs_punct hl] at hb
      obtain rfl : b = p.text.toList := hb
      exact ⟨before ++ a, c, by simp only [List.append_assoc], hs⟩
    · obtain ⟨a', c', hall, hs'⟩ := ih hts hp
      exact ⟨a', c', by rw [← hall]; simp only [List.append_assoc], hs'⟩
  | @angle r q s' ts leaves rest hr _ ih =>
    obtain ⟨a, b, c, rfl, hb, hs, hts⟩ := hlies.cons_inv
    obtain rfl : b = r.text.toList := hb
    obtain rfl : s' = _ := hs
    obtain ⟨d, hd, hts⟩ := lies_afterAngle hr hts
    have hall : before ++ (a ++ (r.text.toList ++ c)) = before ++ a ++ ['>'] ++ (d ++ c) := by
      simp [← hd]
    rcases List.mem_cons.1 hp with heq | hp
    · obtain ⟨hlabel, rfl⟩ := Prod.mk.inj heq
      obtain ⟨-, hgt⟩ := eq_of_leafLabel_eq hlabel.symm
      obtain rfl : p = .gt := (Label.punct.inj hgt).symm
      refine ⟨before ++ a, d ++ c, hall.trans (List.append_assoc _ _ _), ?_⟩
      have hone : '>'.utf8Size = 1 := by decide
      have htext : Punct.gt.text.toList = ['>'] := rfl
      simp only [angleSpan, htext, ← hd, byteLength_append, byteLength_cons, byteLength_nil, hone]
      congr 1
      omega
    · obtain ⟨a', c', hall', hs'⟩ := ih hts hp
      exact ⟨a', c', hall.trans hall', hs'⟩
  | @finish s' ts leaves rest _ ih =>
    obtain ⟨a, b, c, rfl, -, -, hts⟩ := hlies.cons_inv
    obtain ⟨a', c', hall, hs'⟩ := ih hts hp
    exact ⟨a', c', by rw [← hall]; simp only [List.append_assoc], hs'⟩

section Sound

variable {text : String} {tree c node : Tree}

/-- A node that is known by a mark is a leaf of the code. -/
theorem IsParse.mem_leaves_of_mark (h : IsParse text tree) (hc : c ∈ tree.children)
    (hn : node ∈ c.preorder) (hl : node.label = .punct p) :
    (Label.punct p, node.span) ∈ leavesAll (bareAll tree.children) := by
  have hcomment : node.isComment = false := by simp [isComment, isA, hl]
  obtain ⟨d, hd, hbare⟩ := h.bare_mem hc hn hcomment
  have hnil : node.bare.children = [] :=
    h.derives.children_eq_nil hd hbare (by simp [label_bare, hl])
  refine mem_leavesAll_iff.2 ⟨d, hd, mem_leaves_of_mem_preorder hbare ?_⟩
  rw [leaves_of_children_nil hnil, label_bare, span_bare, hl]
  exact List.mem_singleton.2 rfl

/-- **The text of a node that is known by a mark** is that mark. -/
theorem IsParse.slice?_of_mark (h : IsParse text tree) (hc : c ∈ tree.children)
    (hn : node ∈ c.preorder) (hl : node.label = .punct p) :
    slice? text node.start node.stop = some p.text := by
  obtain ⟨a, b, htext, hspan⟩ :=
    h.takes.exists_spelling (Token.lies_code text.toList) (h.mem_leaves_of_mark hc hn hl)
  refine slice?_eq_some_iff.2 ⟨String.ofList a, String.ofList b, ?_, ?_, ?_⟩
  · rw [← String.toList_inj]
    simpa using htext
  · rw [size_ofList, Tree.start, hspan]
  · rw [Tree.start, Tree.stop, hspan, byteLength_append]
    rfl

end Sound

end JavaMutants.Syntax
