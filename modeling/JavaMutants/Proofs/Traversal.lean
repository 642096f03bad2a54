import Mathlib.Data.List.Forall2
import Mathlib.Data.List.Nodup

/-!
# Lists that are worked through

What a mapping that can fail gives, element by element, and how members
of two lists that go together are found in each other.
-/

namespace JavaMutants

variable {α β : Type}

/-- A mapping that can fail goes through exactly if it does so for every
element. -/
theorem mapM_eq_some_iff (f : α → Option β) (xs : List α) (ys : List β) :
    xs.mapM f = some ys ↔ List.Forall₂ (fun x y => f x = some y) xs ys := by
  induction xs generalizing ys with
  | nil => cases ys <;> simp
  | cons x xs ih =>
    rw [List.mapM_cons]
    cases hx : f x with
    | none => cases ys <;> simp [hx]
    | some y =>
      cases hxs : xs.mapM f with
      | none => cases ys <;> simp [hx, ← ih, hxs]
      | some zs => cases ys <;> simp [hx, ← ih, hxs]

/-- A mapping that fails for no element goes through. -/
theorem exists_mapM_eq_some {f : α → Option β} {xs : List α}
    (h : ∀ x ∈ xs, ∃ y, f x = some y) : ∃ ys, xs.mapM f = some ys := by
  induction xs with
  | nil => exact ⟨[], rfl⟩
  | cons x xs ih =>
    obtain ⟨y, hy⟩ := h x List.mem_cons_self
    obtain ⟨ys, hys⟩ := ih fun z hz => h z (List.mem_cons_of_mem x hz)
    exact ⟨y :: ys, by simp [List.mapM_cons, hy, hys]⟩

/-- A member of the second list goes with one of the first. -/
theorem exists_mem_left {R : α → β → Prop} {xs : List α} {ys : List β}
    (h : List.Forall₂ R xs ys) {y : β} (hy : y ∈ ys) : ∃ x ∈ xs, R x y := by
  induction h with
  | nil => exact absurd hy List.not_mem_nil
  | @cons x y' xs ys hxy _ ih =>
    rcases List.mem_cons.1 hy with rfl | hy
    · exact ⟨x, List.mem_cons_self, hxy⟩
    · obtain ⟨z, hz, hzy⟩ := ih hy
      exact ⟨z, List.mem_cons_of_mem x hz, hzy⟩

/-- Members of the second list go with members of the first in the same order. -/
theorem pairwise_of_forall₂ {R : α → β → Prop} {S : α → α → Prop} {xs : List α} {ys : List β}
    (h : List.Forall₂ R xs ys) (hS : xs.Pairwise S) :
    ys.Pairwise fun y z => ∃ a ∈ xs, ∃ b ∈ xs, S a b ∧ R a y ∧ R b z := by
  induction h with
  | nil => exact .nil
  | @cons x y xs ys hxy hall ih =>
    obtain ⟨hx, hxs⟩ := List.pairwise_cons.1 hS
    refine .cons (fun z hz => ?_) ((ih hxs).imp ?_)
    · obtain ⟨b, hb, hbz⟩ := exists_mem_left hall hz
      exact ⟨x, List.mem_cons_self, b, List.mem_cons_of_mem x hb, hx b hb, hxy, hbz⟩
    · rintro y z ⟨a, ha, b, hb, hab⟩
      exact ⟨a, List.mem_cons_of_mem x ha, b, List.mem_cons_of_mem x hb, hab⟩

/-- Lists that agree element by element agree. -/
theorem map_eq_map_of_forall₂ {γ : Type} {f : α → γ} {g : β → γ} {xs : List α} {ys : List β}
    (h : List.Forall₂ (fun x y => f x = g y) xs ys) : xs.map f = ys.map g := by
  induction h with
  | nil => rfl
  | cons hxy _ ih => rw [List.map_cons, List.map_cons, hxy, ih]

/-- What a mapping that can fail gives goes with the elements for which it
does not. -/
theorem forall₂_filterMap (f : α → Option β) (xs : List α) :
    List.Forall₂ (fun x y => f x = some y) (xs.filter fun x => (f x).isSome)
      (xs.filterMap f) := by
  induction xs with
  | nil => exact .nil
  | cons x xs ih =>
    cases hx : f x with
    | none => simpa [hx] using ih
    | some y => simpa [hx] using ih

/-- What goes together by way of a third list. -/
theorem forall₂_comp {γ : Type} {R : α → β → Prop} {S : β → γ → Prop} {xs : List α}
    {ys : List β} {zs : List γ} (hR : List.Forall₂ R xs ys) (hS : List.Forall₂ S ys zs) :
    List.Forall₂ (fun x z => ∃ y, R x y ∧ S y z) xs zs := by
  induction hR generalizing zs with
  | nil =>
    cases hS with
    | nil => exact .nil
  | cons hxy _ ih =>
    cases hS with
    | cons hyz hS => exact .cons ⟨_, hxy, hyz⟩ (ih hS)

end JavaMutants
