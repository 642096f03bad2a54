/-!
# Sets of code points

A set of characters is written as the rising list of the code points
where it is entered and left: `[a, b, c, d]` holds `a ≤ x < b` and
`c ≤ x < d`. The tables of character properties are such lists.
-/

namespace JavaMutants.Text

/-- Whether a code point is in the set with the given ends. A list of odd
length never leaves its last range. -/
def within : List Nat → Nat → Bool
  | [], _ => false
  | [a], x => a ≤ x
  | a :: b :: rest, x => if x < a then false else if x < b then true else within rest x

/-- A code point below every end is in no range. -/
theorem within_eq_false_of_lt {ends : List Nat} {x : Nat}
    (h : ∀ a ∈ ends, x < a) : within ends x = false := by
  match ends with
  | [] => rfl
  | [a] => simpa [within] using h a (by simp)
  | a :: b :: rest => simp [within, h a (by simp)]

end JavaMutants.Text
