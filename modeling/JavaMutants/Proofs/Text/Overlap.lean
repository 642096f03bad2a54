import Mathlib.Data.List.Infix

/-!
# Two exchanges that give the same text

A text in which two things stand, with something in between, can be changed at
the first of them or at the second. If the same text comes out of both, then
what was at the first place begins with what has come there, or the other way
round, and what stands in between has no characters but those of the two
(`subset_of_exchanges`).
-/

namespace JavaMutants.Text

/-- Two lists are taken apart at the same place if neither holds the
character before it. -/
theorem append_cons_inj_of_notMem {x : Char} {a b c d : List Char} (ha : x ∉ a) (hc : x ∉ c)
    (h : a ++ x :: b = c ++ x :: d) : a = c ∧ b = d := by
  induction a generalizing c with
  | nil =>
    cases c with
    | nil => exact ⟨rfl, (List.cons.inj h).2⟩
    | cons e c => exact absurd (List.cons.inj h).1 fun he => hc (he ▸ List.mem_cons_self)
  | cons e a ih =>
    cases c with
    | nil => exact absurd (List.cons.inj h).1.symm fun he => ha (he ▸ List.mem_cons_self)
    | cons f c =>
      obtain ⟨rfl, hrest⟩ := List.cons.inj h
      obtain ⟨rfl, hbd⟩ := ih (fun hm => ha (List.mem_cons_of_mem e hm))
        (fun hm => hc (List.mem_cons_of_mem e hm)) hrest
      exact ⟨rfl, hbd⟩

variable {a b m p q z : List Char}

/-- Characters that come again after others have been put before them are made
of these. -/
theorem subset_of_prefix_append (hz : z ≠ []) (h : m <+: z ++ m) : m ⊆ z := by
  -- as long as there is a whole `z` in front, that is taken off
  induction hn : m.length using Nat.strong_induction_on generalizing m with
  | h n ih =>
    obtain ⟨w, hw⟩ := h
    rcases List.append_eq_append_iff.1 hw with ⟨r, rfl, -⟩ | ⟨r, rfl, hr⟩
    · exact List.subset_append_left m r
    · have hlt : r.length < n := by
        have hpos := List.length_pos_of_ne_nil hz
        rw [List.length_append] at hn
        omega
      have hsub : r ⊆ z := ih _ hlt ⟨w, by simpa using hr.symm⟩ rfl
      exact List.append_subset.2 ⟨List.Subset.refl z, hsub⟩

theorem subset_of_append_eq (h : m ++ p = z ++ (m ++ q)) (hz : z ≠ []) : m ⊆ z := by
  refine subset_of_prefix_append hz (List.prefix_of_prefix_length_le ⟨p, h⟩ ⟨q, ?_⟩ (by simp))
  rw [List.append_assoc]

/-- **Two exchanges that give the same text.** One of the two texts at the first
place begins with the other, and what is between the places is made of them. -/
theorem subset_of_exchanges (h : a ++ (m ++ p) = b ++ (m ++ q)) (hne : a ≠ b) :
    (a <+: b ∨ b <+: a) ∧ m ⊆ a ++ b := by
  rcases List.append_eq_append_iff.1 h with ⟨z, rfl, hz⟩ | ⟨z, rfl, hz⟩
  · have hsub : m ⊆ z := subset_of_append_eq hz fun hnil => hne (by rw [hnil, List.append_nil])
    exact ⟨.inl (List.prefix_append a z), fun c hc => by simp [hsub hc]⟩
  · have hsub : m ⊆ z := subset_of_append_eq hz fun hnil => hne (by rw [hnil, List.append_nil])
    exact ⟨.inr (List.prefix_append b z), fun c hc => by simp [hsub hc]⟩

end JavaMutants.Text
