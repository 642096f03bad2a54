import JavaMutants.Mutant
import JavaMutants.Proofs.Text.Overlap

/-!
# The name of a mutant can be read back

A name is put together with `_` as its only separator, and a tag may hold
any characters, underscores and digits among them. It can be taken apart
again all the same. After the simple name comes one of three labels, no
two of which begin with the same letter; the ordinal that follows is a
number, which holds no underscore, so it ends at the first one
(`append_sep_inj`); and the index of the version is a number, so it begins
after the last one (`sep_append_inj`). What is left between is the tag of
the operator.
-/

namespace JavaMutants

/-! ## Separators -/

/-- A number is written without the separator. -/
theorem underscore_notMem_toString (n : Nat) : '_' ∉ (toString n).toList := by
  rw [Nat.toString_eq_repr, Nat.toList_repr]
  exact Nat.underscore_not_in_toDigits

/-- A number can be read off its digits. -/
theorem toString_nat_inj {m n : Nat} (h : toString m = toString n) : m = n := by
  have hdigits : Nat.toDigits 10 m = Nat.toDigits 10 n := by
    rw [← Nat.toList_repr, ← Nat.toList_repr, ← Nat.toString_eq_repr, h, Nat.toString_eq_repr]
  rw [← Nat.ofDigitChars_ten_toDigits (n := m), hdigits, Nat.ofDigitChars_ten_toDigits]

/-- Two texts with the separator in them, as lists of characters. -/
theorem toList_sep (a b : String) : (a ++ "_" ++ b).toList = a.toList ++ '_' :: b.toList := by
  rw [String.toList_append, String.toList_append, List.append_assoc]
  rfl

/-- **What comes first ends at the first separator**, if it holds none. -/
theorem append_sep_inj {a b c d : String} (ha : '_' ∉ a.toList) (hc : '_' ∉ c.toList)
    (h : a ++ "_" ++ b = c ++ "_" ++ d) : a = c ∧ b = d := by
  rw [← String.toList_inj, toList_sep, toList_sep] at h
  rw [← String.toList_inj, ← String.toList_inj]
  exact Text.append_cons_inj_of_notMem ha hc h

/-- **What comes last begins after the last separator**, if it holds
none. -/
theorem sep_append_inj {a b c d : String} (hb : '_' ∉ b.toList) (hd : '_' ∉ d.toList)
    (h : a ++ "_" ++ b = c ++ "_" ++ d) : a = c ∧ b = d := by
  rw [← String.toList_inj, toList_sep, toList_sep] at h
  -- read from the back, the last separator is the first one
  have hr := congrArg List.reverse h
  simp only [List.reverse_append, List.reverse_cons, List.append_assoc, List.singleton_append] at hr
  obtain ⟨hbd, hac⟩ := Text.append_cons_inj_of_notMem (mt List.mem_reverse.1 hb)
    (mt List.mem_reverse.1 hd) hr
  rw [← String.toList_inj, ← String.toList_inj]
  exact ⟨List.reverse_injective hac, List.reverse_injective hbd⟩

/-! ## Tags and names -/

/-- **The tag of a version tells its operator and its place.** -/
theorem tag_inj {o o' : String} {i i' : Nat}
    (h : o ++ "_" ++ toString i = o' ++ "_" ++ toString i') : o = o' ∧ i = i' :=
  (sep_append_inj (underscore_notMem_toString i) (underscore_notMem_toString i') h).imp id
    toString_nat_inj

/-- A label and what follows it are told apart by the first letter. -/
theorem label_append_inj {k k' : TargetKind} {a b : String}
    (h : k.label ++ a = k'.label ++ b) : k = k' ∧ a = b := by
  rw [← String.toList_inj, String.toList_append, String.toList_append] at h
  have hk : k = k' := by
    have hhead := congrArg List.head? h
    cases k <;> cases k' <;> first | rfl | (exact absurd hhead (by simp [TargetKind.label]))
  subst hk
  exact ⟨rfl, String.toList_inj.1 (List.append_cancel_left h)⟩

/-- **The name of a mutant tells the kind and the number of its target and
its tag**, once the simple name is known. -/
theorem Mutant.nameOf_inj {simple tag tag' : String} {k k' : TargetKind} {n n' : Nat}
    (h : nameOf simple k n tag = nameOf simple k' n' tag') : k = k' ∧ n = n' ∧ tag = tag' := by
  have hrest : k.label ++ (toString n ++ "_" ++ tag)
      = k'.label ++ (toString n' ++ "_" ++ tag') := by
    have hlist := String.toList_inj.2 h
    simp only [nameOf, String.toList_append, List.append_assoc,
      List.append_cancel_left_eq] at hlist
    rw [← String.toList_inj]
    simpa only [String.toList_append, List.append_assoc] using hlist
  obtain ⟨hk, hrest⟩ := label_append_inj hrest
  obtain ⟨hn, htag⟩ := append_sep_inj (underscore_notMem_toString n)
    (underscore_notMem_toString n') hrest
  exact ⟨hk, toString_nat_inj hn, htag⟩

end JavaMutants
