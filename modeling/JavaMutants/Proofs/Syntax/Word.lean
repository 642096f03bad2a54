import JavaMutants.Proofs.Syntax.Mark
import JavaMutants.Proofs.Syntax.Passage

/-!
# The text of a word

A word ends only where no more of its characters come, and it is the keyword that
all of them spell (`IsParse.exists_word`). So the text of a keyword is that keyword
(`IsParse.slice?_of_word`), and where the text of a keyword begins with a word it is
that word: no other word is a part of it (`IsParse.eq_of_slice?_word`).
-/

namespace JavaMutants.Syntax

open Text

theorem Keyword.ofText?_text (k : Keyword) : ofText? k.text = some k := by
  cases k <;> decide

theorem Keyword.text_of_ofText? {k : Keyword} {s : String} (h : ofText? s = some k) :
    k.text = s := by
  simpa using List.find?_some (show Keyword.all.find? (fun k => k.text == s) = some k from h)

theorem Keyword.isWordPart_of_mem_text {k : Keyword} {c : Char} (hc : c ∈ k.text.toList) :
    isWordPart c = true := by
  have hall : Keyword.all.all (fun k => k.text.toList.all isWordPart) = true := by decide
  have hk : k ∈ Keyword.all := List.mem_of_find?_eq_some k.ofText?_text
  exact List.all_eq_true.1 (List.all_eq_true.1 hall k hk) c hc

/-- **A word takes all of its characters**, and they tell which keyword it is. -/
theorem Token.next_of_word {m m' : Mode} {i i' : List (Bool × Nat)} {cs : List Char}
    {w : Option Keyword} {n : Nat} (h : next m i cs = (some (.word w), n, m', i')) :
    w = Keyword.ofText? (String.ofList (cs.takeWhile isWordPart))
      ∧ n = (cs.takeWhile isWordPart).length := by
  cases m with
  | quoted triple =>
    rcases lexeme_of_quoted h with hmem | hstray | ⟨k, hk⟩
    · exact absurd hmem (by simp [quotedMarks])
    · cases hstray
    · cases hk
  | code =>
    unfold next at h
    dsimp only at h
    repeat' split at h
    all_goals cases h
    exact ⟨rfl, rfl⟩

section Words

variable {text : String} {tree : Tree} {t : Token}

/-- **A word of a sound text** and its characters. -/
theorem IsParse.exists_word (h : IsParse text tree) (ht : t ∈ Token.code text.toList)
    {w : Option Keyword} (hw : t.lexeme = .word w) : ∃ a c, text.toList = a ++ c
      ∧ w = Keyword.ofText? (String.ofList (c.takeWhile isWordPart))
      ∧ t.span = ⟨byteLength a, byteLength (a ++ c.takeWhile isWordPart)⟩ := by
  have hfin : t.lexeme ≠ .finish := by
    rw [hw]
    nofun
  obtain ⟨mark, cs, htext, hscans, -⟩ := h.exists_scans
  obtain ⟨ts, us, hts⟩ := List.append_of_mem (List.mem_filter.1 ht).1
  rw [hts] at hscans
  obtain ⟨v, c, m, i, rfl, -, hscans, hstart⟩ := hscans.exists_passes hfin
  obtain ⟨n, m', i', hnext, -, hstop, -⟩ := hscans.next_of_start hfin hstart
  rw [hw] at hnext
  obtain ⟨hk, rfl⟩ := Token.next_of_word hnext
  refine ⟨mark ++ v, c, by rw [htext, List.append_assoc], hk, ?_⟩
  rw [Token.take_length_takeWhile] at hstop
  rw [← hstart, ← hstop]

/-- **The text of a keyword** is that keyword. -/
theorem IsParse.slice?_of_word (h : IsParse text tree) (ht : t ∈ Token.code text.toList)
    {k : Keyword} (hk : t.lexeme = .word (some k)) :
    slice? text t.span.start t.span.stop = some k.text := by
  obtain ⟨a, c, htext, hword, hspan⟩ := h.exists_word ht hk
  have hk := Keyword.text_of_ofText? hword.symm
  refine slice?_eq_some_iff.2 ⟨String.ofList a, String.ofList (c.dropWhile isWordPart), ?_, ?_, ?_⟩
  · rw [← String.toList_inj, htext, hk]
    simp [List.takeWhile_append_dropWhile]
  · rw [hspan, size_ofList]
  · rw [hspan, hk, size_ofList, byteLength_append]

/-- **The text of a keyword begins with no other word.** -/
theorem IsParse.eq_of_slice?_word (h : IsParse text tree) (ht : t ∈ Token.code text.toList)
    {w : Option Keyword} (hw : t.lexeme = .word w) {k : Keyword} {stop : Nat}
    (hle : t.span.stop ≤ stop) (hs : slice? text t.span.start stop = some k.text) :
    w = some k := by
  obtain ⟨a, c, htext, hword, hspan⟩ := h.exists_word ht hw
  obtain ⟨b, d, hparts, hb, hstop⟩ := slice?_eq_some_iff.1 hs
  have hlist : a ++ c = b.toList ++ (k.text.toList ++ d.toList) := by
    rw [← htext, hparts]
    simp
  obtain ⟨-, rfl⟩ := append_inj_of_byteLength hlist (by rw [← size, hb, hspan])
  -- all of the keyword is in the word, which does not reach beyond it
  have htake : (k.text.toList ++ d.toList).takeWhile isWordPart
      = k.text.toList ++ d.toList.takeWhile isWordPart :=
    List.takeWhile_append_of_pos fun _ => Keyword.isWordPart_of_mem_text
  have hnil : d.toList.takeWhile isWordPart = [] := by
    by_contra hne
    have hpos := byteLength_pos hne
    rw [← hstop, hspan, htake, byteLength_append, byteLength_append, ← size] at hle
    dsimp only at hle
    omega
  rw [hword, htake, hnil, List.append_nil, String.ofList_toList, Keyword.ofText?_text]

end Words

/-- **A node that is read from a word on** begins with it and does not end before it. -/
theorem Tree.Nested.bounds_of_word {n : Tree} (hn : Nested n) {t : Token} {us rest : List Token}
    {w : Option Keyword} (hw : t.lexeme = .word w) (h : Takes (t :: us) n.leaves rest)
    {before cs : List Char} (hlies : Lies before cs (t :: us)) :
    n.start = t.span.start ∧ t.span.stop ≤ n.stop := by
  -- the word becomes a leaf of the node
  obtain ⟨l, hl⟩ : ∃ l, (l, t.span) ∈ n.leaves := by
    have hne := leaves_ne_nil n
    generalize n.leaves = ls at h hne
    cases h with
    | nil => exact absurd rfl hne
    | token => exact ⟨_, List.mem_cons_self⟩
    | angle => cases hw
    | finish => cases hw
  obtain ⟨hlo, hhi⟩ : n.start ≤ t.span.start ∧ t.span.stop ≤ n.stop := hn.bounds_leaf hl
  -- and no other one begins before it
  obtain ⟨x, hx, hstart, -⟩ := hn.exists_leaf_start
  obtain ⟨v, hv, hle, -⟩ := h.exists_token hx
  have hfirst : t.span.start ≤ v.span.start := by
    rcases List.mem_cons.1 hv with rfl | hv
    · exact Nat.le_refl _
    · have hpair := (List.pairwise_cons.1 hlies.pairwise).1 v hv
      have ht := (hlies.start_le_stop List.mem_cons_self).2
      omega
  omega

end JavaMutants.Syntax
