import JavaMutants.Syntax.Number
import Mathlib.Data.List.Basic

/-!
# Characters that a pattern has no use for

A match of a pattern never reaches past a character that the pattern does
not accept anywhere (`Pattern.notMem_take_longest`). No form of a number
accepts the end of a line, so a number lies on one line
(`Number.notMem_take_read?`).
-/

namespace JavaMutants.Syntax

namespace Pattern

/-- **Whether a character stands nowhere in a pattern.** -/
def excludes (c : Char) : Pattern → Bool
  | never | empty => true
  | one accepts => !accepts c
  | both a b | either a b => a.excludes c && b.excludes c
  | many a => a.excludes c

variable {c : Char}

theorem excludes_andThen {a b : Pattern} (ha : a.excludes c = true) (hb : b.excludes c = true) :
    (a.andThen b).excludes c = true := by
  cases a with
  | never => rfl
  | empty => exact hb
  | _ => exact Bool.and_eq_true_iff.2 ⟨ha, hb⟩

theorem excludes_orElse {a b : Pattern} (ha : a.excludes c = true) (hb : b.excludes c = true) :
    (a.orElse b).excludes c = true := by
  unfold orElse
  split
  next => exact hb
  next => exact ha
  next => exact Bool.and_eq_true_iff.2 ⟨ha, hb⟩

/-- What is left to match has no use for the character either. -/
theorem excludes_after (d : Char) {p : Pattern} (h : p.excludes c = true) :
    (p.after d).excludes c = true := by
  induction p with
  | never | empty => rfl
  | one accepts =>
    rw [after]
    split
    next => rfl
    next => rfl
  | both a b iha ihb =>
    obtain ⟨ha, hb⟩ := Bool.and_eq_true_iff.1 h
    rw [after]
    split
    next => exact excludes_orElse (excludes_andThen (iha ha) hb) (ihb hb)
    next => exact excludes_andThen (iha ha) hb
  | either a b iha ihb =>
    obtain ⟨ha, hb⟩ := Bool.and_eq_true_iff.1 h
    exact excludes_orElse (iha ha) (ihb hb)
  | many a ih => exact excludes_andThen (ih h) h

/-- After such a character nothing can match. -/
theorem after_eq_never {p : Pattern} (h : p.excludes c = true) : p.after c = never := by
  induction p with
  | never | empty => rfl
  | one accepts =>
    have hc : accepts c = false := by simpa [excludes] using h
    rw [after, if_neg (by simp [hc])]
  | both a b iha ihb =>
    obtain ⟨ha, hb⟩ := Bool.and_eq_true_iff.1 h
    rw [after, iha ha, ihb hb]
    split
    next => rfl
    next => rfl
  | either a b iha ihb =>
    obtain ⟨ha, hb⟩ := Bool.and_eq_true_iff.1 h
    rw [after, iha ha, ihb hb]
    rfl
  | many a ih =>
    rw [after, ih h]
    rfl

/-- A match that goes on ends before the next such character. -/
theorem notMem_take_longestFrom {p : Pattern} (h : p.excludes c = true) {best : Option Nat}
    {read n : Nat} {cs : List Char} (hn : longestFrom best read p cs = some n) :
    best = some n ∨ read ≤ n ∧ c ∉ cs.take (n - read) := by
  have hbest : (if p.matchesEmpty then some read else best) = some n →
      best = some n ∨ read ≤ n ∧ c ∉ cs.take (n - read) := by
    intro hb
    split at hb
    next =>
      cases hb
      exact .inr ⟨Nat.le_refl _, by simp⟩
    next => exact .inl hb
  induction cs generalizing p best read with
  | nil =>
    rw [longestFrom] at hn
    exact hbest hn
  | cons d cs ih =>
    rw [longestFrom] at hn
    split at hn
    next => exact hbest hn
    next hnever =>
      have hd : d ≠ c := by
        rintro rfl
        exact hnever (after_eq_never h)
      have hafter := excludes_after d h
      rcases ih hafter hn (fun hb => by
        split at hb
        next =>
          cases hb
          exact .inr ⟨Nat.le_refl _, by simp⟩
        next => exact .inl hb) with hb | ⟨hle, hmem⟩
      · exact hbest hb
      · refine .inr ⟨by omega, ?_⟩
        rw [show n - read = (n - (read + 1)) + 1 by omega, List.take_succ_cons]
        exact fun hc => (List.mem_cons.1 hc).elim (fun h => hd h.symm) hmem

/-- What comes after such a character does not matter to a match. -/
theorem longestFrom_append {p : Pattern} (h : p.excludes c = true) {cs : List Char}
    (hc : c ∈ cs) (best : Option Nat) (read : Nat) (a b : List Char) :
    longestFrom best read p (cs ++ a) = longestFrom best read p (cs ++ b) := by
  induction cs generalizing p best read with
  | nil => exact absurd hc List.not_mem_nil
  | cons d cs ih =>
    rw [List.cons_append, List.cons_append, longestFrom, longestFrom]
    rcases List.mem_cons.1 hc with rfl | hc
    · rw [after_eq_never h]
    · split
      next => rfl
      next hq => exact ih (excludes_after d h) hc _ _

/-- **The longest match does not reach past such a character.** -/
theorem notMem_take_longest {p : Pattern} (h : p.excludes c = true) {n : Nat} {cs : List Char}
    (hn : p.longest cs = some n) : c ∉ cs.take n := by
  rcases notMem_take_longestFrom h hn with h | ⟨-, hmem⟩
  · cases h
  · exact hmem

end Pattern

/-- **A number is the longest match of one of the forms.** -/
theorem Number.exists_form_of_read? {cs : List Char} {kind : Kind} {n : Nat}
    (h : Number.read? cs = some (kind, n)) :
    ∃ form, (kind, form) ∈ Number.forms ∧ form.longest cs = some n := by
  let Good (best : Option (Kind × Nat)) : Prop :=
    ∀ b ∈ best, ∃ form, (b.1, form) ∈ Number.forms ∧ form.longest cs = some b.2
  have hgood : Good (Number.read? cs) := by
    unfold Number.read?
    refine List.foldlRecOn (motive := Good) Number.forms _ (fun b hb => by cases hb) ?_
    intro best hbest f hf
    dsimp only
    split
    next hn =>
      split
      next => rintro b ⟨⟩; exact ⟨f.2, hf, hn⟩
      next => exact hbest
    next hn => rintro b ⟨⟩; exact ⟨f.2, hf, hn⟩
    next => exact hbest
  exact hgood (kind, n) h

/-- **A number is the same** whatever comes after a character that no form
accepts. -/
theorem Number.read?_append {c : Char} (h : ∀ f ∈ Number.forms, f.2.excludes c = true)
    {cs : List Char} (hc : c ∈ cs) (a b : List Char) :
    Number.read? (cs ++ a) = Number.read? (cs ++ b) := by
  unfold Number.read?
  refine List.foldl_ext _ _ none fun best f hf => ?_
  have hlongest : f.2.longest (cs ++ a) = f.2.longest (cs ++ b) :=
    Pattern.longestFrom_append (h f hf) hc none 0 a b
  obtain ⟨kind, form⟩ := f
  simp only [hlongest]

/-- **A number lies on one line.** -/
theorem Number.notMem_take_read? {cs : List Char} {kind : Kind} {n : Nat}
    (h : Number.read? cs = some (kind, n)) : '\n' ∉ cs.take n := by
  obtain ⟨form, hform, hn⟩ := Number.exists_form_of_read? h
  have hall : ∀ f ∈ Number.forms, f.2.excludes '\n' = true := by decide
  exact Pattern.notMem_take_longest (hall _ hform) hn

end JavaMutants.Syntax
