import JavaMutants.Source
import Mathlib.Order.Compare

/-!
# The order of paths

Paths compare by their components, and inputs by their roots and paths.
Both comparisons are total preorders, and what they hold equal are paths
with the same components: the spelling does not count, and nothing else
is lost (`Path.compare_eq_eq_iff`).

Each comparison is put together from one of the standard library: by one
key after another, or through a list from its front. That is all there is
to be shown; the laws come with it.
-/

namespace JavaMutants

open Std

namespace Component

/-- The name in a component, empty where there is none. -/
def label : Component → String
  | normal name => name
  | _ => ""

/-- Components compare by the form, and then by the name. -/
theorem compare_eq : Component.compare = compareLex (compareOn rank) (compareOn label) := by
  funext a b
  cases a <;> cases b <;> rfl

instance : TransCmp Component.compare := by
  rw [compare_eq]
  infer_instance

theorem eq_of_rank_of_label {a b : Component} (hrank : a.rank = b.rank)
    (hlabel : a.label = b.label) : a = b := by
  cases a <;> cases b <;> simp_all [rank, label]

instance : LawfulEqCmp Component.compare where
  eq_of_compare := by
    intro a b h
    rw [compare_eq] at h
    obtain ⟨hrank, hlabel⟩ := Ordering.then_eq_eq.1 h
    exact eq_of_rank_of_label (LawfulEqCmp.eq_of_compare hrank)
      (LawfulEqCmp.eq_of_compare hlabel)

end Component

namespace Path

theorem compareComponents_eq : compareComponents = List.compareLex Component.compare := by
  funext as bs
  fun_induction compareComponents as bs with
  | case1 => rfl
  | case2 => rfl
  | case3 => rfl
  | case4 a as b bs ih => rw [List.compareLex_cons_cons, ih]

instance : TransCmp compareComponents := by
  rw [compareComponents_eq]
  infer_instance

instance : LawfulEqCmp compareComponents := by
  rw [compareComponents_eq]
  infer_instance

instance : TransCmp Path.compare :=
  have h : TransCmp compareComponents := inferInstance
  { eq_swap := h.eq_swap
    isLE_trans := h.isLE_trans }

instance : TransOrd Path := inferInstanceAs (TransCmp Path.compare)

/-- **Two paths compare as equal exactly if they have the same
components.** -/
theorem compare_eq_eq_iff {p q : Path} : p.compare q = .eq ↔ p.components = q.components := by
  unfold Path.compare
  exact LawfulEqCmp.compare_eq_iff_eq

end Path

namespace SourceInput

theorem compare_eq : SourceInput.compare = compareLex (compareOn root) (compareOn path) := rfl

instance : TransCmp SourceInput.compare := by
  rw [compare_eq]
  infer_instance

/-- Two inputs compare as equal exactly if their roots have the same
components and so have their paths. -/
theorem compare_eq_eq_iff {a b : SourceInput} :
    a.compare b = .eq
      ↔ a.root.components = b.root.components ∧ a.path.components = b.path.components := by
  rw [← Path.compare_eq_eq_iff, ← Path.compare_eq_eq_iff]
  exact Ordering.then_eq_eq

end SourceInput

end JavaMutants
