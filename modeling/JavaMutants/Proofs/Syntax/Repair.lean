import JavaMutants.Proofs.Syntax.Grammar
import JavaMutants.Syntax.Repair
import Mathlib.Data.List.TakeDrop

/-!
# Repairs leave a fault

A text that had to be repaired never passes for a sound one. Every
repair that is tried has left something out, which becomes an error, or
has put in a token without text, which becomes a missing one
(`Repair.Shows`); the only exception is the text as it stood, and that
could not be read. The search keeps to this from step to step, so the
root it ends with is flagged (`faulty_of_search`).
-/

namespace JavaMutants.Syntax

open Syntax.Tree Grammar

/-! ## Roots -/

/-- **A root that is read is a program over what was derived.** -/
theorem derives_of_readProgram {code rest : List Token} {nodes : List Tree}
    (h : (readProgram code).result = some (nodes, rest)) :
    ∃ cs, nodes = [above (.named .program) cs]
      ∧ Derives rules (body .program) none code cs rest := by
  have hd : Derives rules (.part (.node .program)) none code nodes rest :=
    derives_of_read isPlaced_rules (show (Rule.part _).isPlaced false = true from rfl) h
  exact hd.of_part.of_tree

/-- Nothing is left of tokens that end in the end of the text. -/
theorem rest_eq_nil {code rest : List Token} {nodes : List Tree} (hcode : Terminated code)
    (h : Derives rules (body .program) none code nodes rest) : rest = [] := by
  obtain ⟨nodes₁, mid, nodes₂, rfl, ha, hb⟩ := h.of_both
  obtain ⟨ls, htakes, -⟩ := ha.takes count_le isRegular_rules rfl
  obtain ⟨-, s, rfl⟩ := hb.of_finish
  rcases htakes.terminated hcode with hmid | hmid
  · cases hmid with
    | finish => rfl
    | cons hne => exact absurd rfl hne
  · cases hmid

/-- A leaf is a node. -/
theorem exists_mem_preorder_of_mem_leaves {t : Tree} {x : Label × Span} (hx : x ∈ t.leaves) :
    ∃ n ∈ t.preorder, n.label = x.1 ∧ n.span = x.2 := by
  induction t using induction with
  | node l f s b cs ih =>
    by_cases hnil : cs = []
    · subst hnil
      obtain rfl : x = (l, s) := by simpa [leaves] using hx
      exact ⟨_, mem_preorder_self _, rfl, rfl⟩
    · have hne : (node l f s b cs).children ≠ [] := hnil
      rw [leaves_of_children_ne_nil hne, mem_leavesAll_iff] at hx
      obtain ⟨c, hc, hx⟩ := hx
      obtain ⟨n, hn, h⟩ := ih c hc hx
      exact ⟨n, mem_preorder_of_child hc hn, h⟩

/-- A leaf that is a fault flags the nodes above it. -/
theorem faulty_above_of_leaf {kind : Kind} {cs : List Tree} (hcs : ∀ c ∈ cs, Flagged c)
    {x : Label × Span} (hx : x ∈ leavesAll cs) (hf : x.1.isFault = true) :
    (above (.named kind) cs).faulty = true := by
  obtain ⟨c, hc, hx⟩ := mem_leavesAll_iff.1 hx
  obtain ⟨n, hn, hl, -⟩ := exists_mem_preorder_of_mem_leaves hx
  refine (flagged_above hcs).faulty_eq_true_iff.2 ⟨n, mem_preorder_of_child hc hn, ?_⟩
  rw [hl, hf]

/-- **A token without text makes the root faulty.** -/
theorem faulty_of_empty {code rest : List Token} {nodes : List Tree} (hcode : Terminated code)
    (h : Derives rules (body .program) none code nodes rest) {t : Token} (ht : t ∈ code)
    (hne : t.lexeme ≠ .finish) (hempty : t.span.stop ≤ t.span.start) :
    (above (.named .program) nodes).faulty = true := by
  obtain rfl := rest_eq_nil hcode h
  rcases (takes_of_program h).fault_of_empty ht hne hempty with hrest | ⟨x, hx, hf⟩
  · exact absurd hrest List.not_mem_nil
  · exact faulty_above_of_leaf h.flagged hx hf

/-! ## What repairs do to the tokens -/

namespace Repair

/-- **A repair that will show**: something is left out, or a token without
text is put in. -/
def Shows (r : Repair) : Prop :=
  r.skipped ≠ [] ∨ ∃ t ∈ r.tokens, t.lexeme ≠ .finish ∧ t.span.stop ≤ t.span.start

/-- Repairs that will show, or a text that cannot be read as it is. -/
def Proper (r : Repair) : Prop :=
  Terminated r.tokens
    ∧ (r.Shows ∨ ∀ root rest, (readProgram r.tokens).result ≠ some ([root], rest))

theorem ne_finish_of_mem_cut {offset : Nat} {t u : Token} (ht : t.lexeme ≠ .finish)
    (hu : u ∈ cut offset t) : u.lexeme ≠ .finish := by
  unfold cut at hu
  split at hu
  next p s =>
    simp only at hu
    split at hu
    next p q _ =>
      simp only [List.mem_cons, List.not_mem_nil, or_false] at hu
      rcases hu with rfl | rfl
      · exact nofun
      · exact nofun
    next =>
      obtain rfl := List.mem_singleton.1 hu
      exact nofun
  next =>
    obtain rfl := List.mem_singleton.1 hu
    exact ht

theorem terminated_flatMap_cut {ts : List Token} (h : Terminated ts) (offset : Nat) :
    Terminated (ts.flatMap (cut offset)) := by
  induction h with
  | finish => exact .finish
  | cons ht _ ih =>
    rw [List.flatMap_cons]
    exact ih.append fun u hu => ne_finish_of_mem_cut ht hu

section Next

variable {around : Surroundings} {r r' : Repair} {past after : List Token}

/-- What is left out will show. -/
theorem shows_of_skip? {k m : Nat} (h : Terminated (past ++ after))
    (hr : r.skip? around past.reverse after k m = some r') : Terminated r'.tokens ∧ r'.Shows := by
  unfold skip? at hr
  simp only at hr
  split at hr
  next first last next rest _ _ hdrop =>
    cases hr
    have hne : after.drop m ≠ [] := hdrop ▸ List.cons_ne_nil next rest
    have hafter : after ≠ [] := fun h => hne (by rw [h, List.drop_nil])
    obtain ⟨hpast, hter⟩ := h.of_append hafter
    rw [← List.take_append_drop m after] at hter
    obtain ⟨-, hter⟩ := hter.of_append hne
    refine ⟨hter.append fun t ht => hpast t ?_, .inl (by simp)⟩
    rw [List.mem_reverse] at ht
    exact List.mem_reverse.1 (List.mem_of_mem_drop ht)
  next => cases hr

/-- What is put in will show. -/
theorem shows_of_supply? {lexeme : Lexeme} (hl : lexeme ≠ .finish)
    (h : Terminated (past ++ after))
    (hr : r.supply? around past.reverse after lexeme = some r') :
    Terminated r'.tokens ∧ r'.Shows := by
  unfold supply? at hr
  split at hr
  next => cases hr
  next next rest =>
    simp only at hr
    split at hr
    next =>
      cases hr
      obtain ⟨hpast, hter⟩ := h.of_append (List.cons_ne_nil next rest)
      refine ⟨?_, .inr ⟨_, List.mem_append_right _ List.mem_cons_self, hl, Nat.le_refl _⟩⟩
      rw [List.reverse_reverse]
      exact (Terminated.cons hl hter).append hpast
    next => cases hr

/-- **Every further repair will show.** -/
theorem shows_of_mem_next {reached : Nat} (h : Terminated r.tokens)
    (hr : r' ∈ r.next around reached) : Terminated r'.tokens ∧ r'.Shows := by
  unfold next at hr
  simp only at hr
  rw [List.mem_mergeSort, List.mem_append] at hr
  have hter := terminated_flatMap_cut h reached
  rw [← List.takeWhile_append_dropWhile (p := fun t => t.span.start < reached)
    (l := r.tokens.flatMap (cut reached))] at hter
  rcases hr with hr | hr
  · obtain ⟨k, -, hr⟩ := List.mem_flatMap.1 hr
    obtain ⟨m, -, hr⟩ := List.mem_filterMap.1 hr
    rw [List.span_eq_takeWhile_dropWhile] at hr
    exact shows_of_skip? hter hr
  · obtain ⟨lexeme, hl, hr⟩ := List.mem_filterMap.1 hr
    rw [List.span_eq_takeWhile_dropWhile] at hr
    refine shows_of_supply? ?_ hter hr
    rintro rfl
    exact absurd hl (by decide)

end Next

end Repair

/-! ## The search -/

/-- Flags stay true when errors are put in, and each of them is found. -/
theorem flagged_foldl_error (spans : List Span) {root : Tree} (h : Flagged root) :
    Flagged (spans.foldl (fun t s => Tree.insert (.leaf .error s) t) root)
      ∧ (spans.foldl (fun t s => Tree.insert (.leaf .error s) t) root).faulty
        = (root.faulty || !spans.isEmpty) := by
  induction spans generalizing root with
  | nil => exact ⟨h, by simp⟩
  | cons s spans ih =>
    obtain ⟨hflag, hfaulty⟩ := ih (h.insert (flagged_leaf .error s))
    refine ⟨hflag, hfaulty.trans ?_⟩
    rw [faulty_insert]
    simp [Tree.leaf, Tree.faulty, Label.isFault]

/-- **The search ends with a root that is flagged.** -/
theorem faulty_of_search {around : Surroundings} {fuel : Nat} {queue : List Repair}
    (hq : ∀ r ∈ queue, r.Proper) {root : Tree} (h : search around fuel queue = some root) :
    Flagged root ∧ root.faulty = true := by
  induction fuel generalizing queue with
  | zero => cases h
  | succ fuel ih =>
    cases queue with
    | nil => cases h
    | cons r others =>
      obtain ⟨⟨hter, hshow⟩, hothers⟩ := List.forall_mem_cons.1 hq
      have hnext : ∀ reached, ∀ r' ∈ r.next around reached, r'.Proper := fun reached r' hr' =>
        (Repair.shows_of_mem_next hter hr').imp_right .inl
      rw [search] at h
      simp only at h
      split at h
      next root' rest hread =>
        split at h
        next =>
          cases h
          obtain ⟨cs, hroot, hd⟩ := derives_of_readProgram hread
          cases hroot
          obtain ⟨hflag, hfaulty⟩ := flagged_foldl_error r.skipped (flagged_above hd.flagged)
          refine ⟨hflag, hfaulty.trans ?_⟩
          rcases hshow with (hskip | ⟨t, ht, hne, hempty⟩) | hunread
          · simp [hskip]
          · rw [faulty_of_empty hter hd ht hne hempty, Bool.true_or]
          · exact absurd hread (hunread _ _)
        next => exact ih hothers h
      next =>
        split at h
        next =>
          refine ih ?_ h
          split
          next => exact hnext _
          next =>
            intro r' hr'
            rcases List.mem_merge.1 hr' with hr' | hr'
            · exact hothers r' hr'
            · exact hnext _ r' hr'
        next => exact ih hothers h

/-- **The root of a text that cannot be read is flagged.** -/
theorem faulty_repaired (text : List Char) {code : List Token} (comments : List Token)
    (hcode : Terminated code)
    (hread : ∀ root rest, (readProgram code).result ≠ some ([root], rest)) :
    Flagged (repaired text code comments) ∧ (repaired text code comments).faulty = true := by
  unfold repaired
  simp only
  split
  next root h =>
    refine faulty_of_search ?_ h
    intro r hr
    obtain rfl := List.mem_singleton.1 hr
    exact ⟨hcode, .inr hread⟩
  next =>
    refine ⟨flagged_above fun c hc => ?_, rfl⟩
    exact List.mem_singleton.1 hc ▸ flagged_leaf _ _

end JavaMutants.Syntax
