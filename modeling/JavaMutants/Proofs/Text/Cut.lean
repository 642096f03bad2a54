import JavaMutants.Text.Bytes

/-!
# Cuts

A byte offset is a **cut** of a text if it stands between two of its
characters, or at one of its ends. The partial operations on byte ranges
are total on cuts: `slice?` gives the text between two of them
(`slice?_eq_some_iff`) and `splice?` exchanges it (`splice?_append`).
Both statements are put as a text in three parts, `a ++ s ++ b`, because
that is how the inverse of a splice is read off: the parts around stay
where they are. So what stands beside a splice can be read afterwards
(`slice?_before`, `slice?_after`).
-/

namespace JavaMutants.Text

/-! ## Sizes -/

@[simp]
theorem size_append (a b : String) : size (a ++ b) = size a + size b := by
  simp [size]

@[simp]
theorem size_ofList (cs : List Char) : size (String.ofList cs) = byteLength cs := by
  simp [size]

/-- Characters take bytes. -/
theorem byteLength_pos {cs : List Char} (h : cs ≠ []) : 0 < byteLength cs := by
  cases cs with
  | nil => exact absurd rfl h
  | cons c cs =>
    rw [byteLength_cons]
    exact Nat.add_pos_left (Char.utf8Size_pos c) _

theorem size_pos_iff {s : String} : 0 < size s ↔ s.toList ≠ [] := by
  constructor
  · rintro hpos hnil
    rw [size, hnil] at hpos
    cases hpos
  · exact byteLength_pos

/-! ## Cuts of a list of characters -/

/-- **A cut**: so many bytes are those of some characters in front. -/
def IsCut (cs : List Char) (n : Nat) : Prop :=
  ∃ a b, cs = a ++ b ∧ byteLength a = n

theorem isCut_zero (cs : List Char) : IsCut cs 0 := ⟨[], cs, rfl, rfl⟩

/-- A cut of what follows is a cut of the whole. -/
theorem IsCut.append_left {cs : List Char} {n : Nat} (h : IsCut cs n) (a : List Char) :
    IsCut (a ++ cs) (byteLength a + n) := by
  obtain ⟨x, y, rfl, rfl⟩ := h
  exact ⟨a ++ x, y, (List.append_assoc a x y).symm, byteLength_append a x⟩

theorem IsCut.le {cs : List Char} {n : Nat} (h : IsCut cs n) : n ≤ byteLength cs := by
  obtain ⟨a, b, rfl, rfl⟩ := h
  rw [byteLength_append]
  omega

/-- Of two beginnings of a text with the same size both are the same, and
so are the rests. -/
theorem append_inj_of_byteLength {a b c d : List Char} (h : a ++ b = c ++ d)
    (hl : byteLength a = byteLength c) : a = c ∧ b = d := by
  have ha := splitAt?_byteLength a b
  rw [h, hl, splitAt?_byteLength c d] at ha
  exact (Prod.mk.inj (Option.some.inj ha)).imp Eq.symm Eq.symm

/-- Of two cuts the earlier one is a cut of what the later one cuts off. -/
theorem IsCut.of_append {a b : List Char} {n : Nat} (h : IsCut (a ++ b) n)
    (hn : n ≤ byteLength a) : IsCut a n := by
  induction a generalizing n with
  | nil =>
    obtain rfl : n = 0 := Nat.le_zero.mp hn
    exact isCut_zero []
  | cons c cs ih =>
    obtain ⟨x, y, hxy, rfl⟩ := h
    cases x with
    | nil => exact isCut_zero _
    | cons d x =>
      obtain ⟨rfl, hrest⟩ := List.cons.inj hxy
      rw [byteLength_cons, byteLength_cons] at hn
      have hcs : IsCut cs (byteLength x) := ih ⟨x, y, hrest, rfl⟩ (by omega)
      exact hcs.append_left [c]

/-- A cut that does not lie before `a` is a cut of what comes after it. -/
theorem IsCut.of_append_right {a b : List Char} {n : Nat} (h : IsCut (a ++ b) n)
    (hn : byteLength a ≤ n) : IsCut b (n - byteLength a) := by
  induction a generalizing n with
  | nil => simpa using h
  | cons c cs ih =>
    obtain ⟨x, y, hxy, rfl⟩ := h
    rw [byteLength_cons] at hn
    cases x with
    | nil =>
      have hc := c.utf8Size_pos
      rw [byteLength_nil] at hn
      omega
    | cons d x =>
      obtain ⟨rfl, hrest⟩ := List.cons.inj hxy
      rw [byteLength_cons] at hn
      have hb : IsCut b (byteLength x - byteLength cs) := ih ⟨x, y, hrest, rfl⟩ (by omega)
      rw [byteLength_cons, byteLength_cons, Nat.add_sub_add_left]
      exact hb

/-! ## Slices and splices -/

/-- A text in three parts: the middle one is the slice between them. -/
theorem slice?_append (a s b : String) :
    slice? (a ++ s ++ b) (size a) (size a + size s) = some s := by
  have hfirst : splitAt? (size a) (a ++ s ++ b).toList
      = some (a.toList, s.toList ++ b.toList) := by
    rw [String.toList_append, String.toList_append, List.append_assoc]
    exact splitAt?_byteLength _ _
  have hsecond : splitAt? (size s) (s.toList ++ b.toList) = some (s.toList, b.toList) :=
    splitAt?_byteLength _ _
  rw [slice?, if_pos (Nat.le_add_right _ _), hfirst]
  simp only [Nat.add_sub_cancel_left, hsecond, Option.map_some, String.ofList_toList]

/-- **A slice is the middle one of three parts.** -/
theorem slice?_eq_some_iff {text s : String} {start stop : Nat} :
    slice? text start stop = some s
      ↔ ∃ a b, text = a ++ s ++ b ∧ size a = start ∧ start + size s = stop := by
  constructor
  · intro h
    unfold slice? at h
    split at h
    next hle =>
      split at h
      next before after hfirst =>
        obtain ⟨⟨between, rest⟩, hsecond, rfl⟩ := Option.map_eq_some_iff.1 h
        refine ⟨String.ofList before, String.ofList rest, ?_, ?_, ?_⟩
        · rw [← String.toList_inj]
          simp [← splitAt?_append hfirst, ← splitAt?_append hsecond]
        · rw [size_ofList, byteLength_of_splitAt? hfirst]
        · rw [size_ofList, byteLength_of_splitAt? hsecond]
          omega
      next => simp at h
    next => simp at h
  · rintro ⟨a, b, rfl, rfl, rfl⟩
    exact slice?_append a s b

/-- The two ends of a slice are cuts. -/
theorem isCut_of_slice? {text s : String} {start stop : Nat}
    (h : slice? text start stop = some s) : IsCut text.toList start ∧ IsCut text.toList stop := by
  obtain ⟨a, b, rfl, rfl, rfl⟩ := slice?_eq_some_iff.1 h
  refine ⟨⟨a.toList, s.toList ++ b.toList, ?_, rfl⟩, (a ++ s).toList, b.toList, ?_, ?_⟩
  · rw [String.toList_append, String.toList_append, List.append_assoc]
  · rw [String.toList_append]
  · exact size_append a s

/-- Between two cuts in order there is a slice. -/
theorem exists_slice? {text : String} {start stop : Nat} (hle : start ≤ stop)
    (hstart : IsCut text.toList start) (hstop : IsCut text.toList stop) :
    ∃ s, slice? text start stop = some s := by
  obtain ⟨a, b, hab, rfl⟩ := hstart
  rw [hab] at hstop
  obtain ⟨s, c, rfl, hs⟩ := hstop.of_append_right hle
  refine ⟨String.ofList s, slice?_eq_some_iff.2
    ⟨String.ofList a, String.ofList c, ?_, size_ofList a, ?_⟩⟩
  · rw [← String.toList_inj]
    simp [hab]
  · rw [size_ofList, hs]
    omega

/-- **A splice exchanges the middle one of three parts.** -/
theorem splice?_append (a s b replacement : String) :
    splice? (a ++ s ++ b) (size a) (size a + size s) replacement
      = some (a ++ replacement ++ b) := by
  have hbefore : splitAt? (size a) (a ++ s ++ b).toList
      = some (a.toList, s.toList ++ b.toList) := by
    rw [String.toList_append, String.toList_append, List.append_assoc]
    exact splitAt?_byteLength _ _
  have hafter : splitAt? (size a + size s) (a ++ s ++ b).toList
      = some (a.toList ++ s.toList, b.toList) := by
    rw [String.toList_append, String.toList_append, size, size, ← byteLength_append]
    exact splitAt?_byteLength _ _
  simp only [splice?, upTo?, from?, hbefore, hafter, Option.map_some, String.ofList_toList]

/-- Between two cuts in order there is a splice. -/
theorem exists_splice? {text : String} {start stop : Nat} (hle : start ≤ stop)
    (hstart : IsCut text.toList start) (hstop : IsCut text.toList stop) (replacement : String) :
    ∃ t, splice? text start stop replacement = some t := by
  obtain ⟨s, hs⟩ := exists_slice? hle hstart hstop
  obtain ⟨a, b, rfl, rfl, rfl⟩ := slice?_eq_some_iff.1 hs
  exact ⟨_, splice?_append a s b replacement⟩

/-! ## Beside a splice -/

/-- Of two beginnings of a text the shorter is a beginning of the longer. -/
theorem exists_append_of_byteLength {a b c d : List Char} (h : a ++ b = c ++ d)
    (hle : byteLength a ≤ byteLength c) : ∃ w, c = a ++ w ∧ b = w ++ d := by
  rcases List.append_eq_append_iff.1 h with ⟨w, hc, hb⟩ | ⟨w, rfl, rfl⟩
  · exact ⟨w, hc, hb⟩
  · -- the first one is no longer than the second
    rw [byteLength_append] at hle
    obtain rfl : w = [] := Decidable.not_not.1 fun hne => by
      have hpos := byteLength_pos hne
      omega
    exact ⟨[], by simp, rfl⟩

/-- The same of texts. -/
theorem exists_of_append_eq {a b c d : String} (h : a ++ b = c ++ d) (hle : size a ≤ size c) :
    ∃ w, c = a ++ w ∧ b = w ++ d := by
  have hlist := congrArg String.toList h
  rw [String.toList_append, String.toList_append] at hlist
  obtain ⟨w, hc, hb⟩ := exists_append_of_byteLength hlist hle
  refine ⟨String.ofList w, ?_, ?_⟩
  · rw [← String.toList_inj, hc, String.toList_append, String.toList_ofList]
  · rw [← String.toList_inj, hb, String.toList_append, String.toList_ofList]

/-- What stands within a part of a text is in it. -/
theorem infix_of_byteLength {a b c u x w : List Char} (h : a ++ (b ++ c) = u ++ (x ++ w))
    (hstart : byteLength u ≤ byteLength a)
    (hstop : byteLength (a ++ b) ≤ byteLength (u ++ x)) : b <:+: x := by
  obtain ⟨v, rfl, hv⟩ := exists_append_of_byteLength h.symm hstart
  have hle : byteLength (v ++ b) ≤ byteLength x := by
    simp only [byteLength_append] at hstop ⊢
    omega
  obtain ⟨z, rfl, -⟩ := exists_append_of_byteLength
    (show (v ++ b) ++ c = x ++ w by rw [List.append_assoc, hv]) hle
  exact ⟨v, z, rfl⟩

variable {a s b x : String} {start stop : Nat}

/-- **What stands before a splice stays where it is.** -/
theorem slice?_before (h : slice? (a ++ s ++ b) start stop = some x) (hstop : stop ≤ size a)
    (s' : String) : slice? (a ++ s' ++ b) start stop = some x := by
  obtain ⟨y, z, htext, rfl, rfl⟩ := slice?_eq_some_iff.1 h
  rw [String.append_assoc] at htext
  obtain ⟨w, rfl, -⟩ := exists_of_append_eq htext.symm (by rwa [size_append])
  refine slice?_eq_some_iff.2 ⟨y, w ++ s' ++ b, ?_, rfl, rfl⟩
  simp only [String.append_assoc]

/-- **What stands after a splice moves with the text.** -/
theorem slice?_after (h : slice? (a ++ s ++ b) start stop = some x)
    (hstart : size (a ++ s) ≤ start) (s' : String) :
    slice? (a ++ s' ++ b) (start - size (a ++ s) + size (a ++ s'))
      (stop - size (a ++ s) + size (a ++ s')) = some x := by
  obtain ⟨y, z, htext, rfl, rfl⟩ := slice?_eq_some_iff.1 h
  have hrest : a ++ s ++ b = y ++ (x ++ z) := htext.trans String.append_assoc
  obtain ⟨w, rfl, rfl⟩ := exists_of_append_eq hrest hstart
  refine slice?_eq_some_iff.2 ⟨a ++ s' ++ w, z, ?_, ?_, ?_⟩
  · simp only [String.append_assoc]
  · simp only [size_append]
    omega
  · simp only [size_append]
    omega

end JavaMutants.Text
