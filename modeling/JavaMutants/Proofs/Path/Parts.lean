import JavaMutants.Path
import Mathlib.Data.List.Basic

/-!
# Paths put together and taken apart

What joining, parting and stripping do to the components of a path,
whatever its spelling. A join has the components of both parts
(`Path.components_join`), the parent of a path has all but the last
(`Path.components_of_parent?`), and stripping undoes a join with names
(`Path.strip?_join_ofNames`). Of paths made of names more is known than their
components: the text of their parent (`Path.parent?_ofNames`), and that they can be
put after a path one by one (`Path.join_ofNames_append`).

Everything goes through the pieces between separators. A piece stands for
the same component wherever it comes, a `.` in the first place excepted, so
pieces that are put one after the other can be read one after the other
(`Path.locatedFrom_append`).
-/

namespace JavaMutants

/-- **A name that an entry can have**: a piece of a path that stands for
itself. -/
def IsName (n : String) : Prop :=
  n ≠ "" ∧ n ≠ "." ∧ n ≠ ".." ∧ '/' ∉ n.toList

instance : DecidablePred IsName := fun n =>
  inferInstanceAs (Decidable (n ≠ "" ∧ n ≠ "." ∧ n ≠ ".." ∧ '/' ∉ n.toList))

/-- The name in a component. -/
def Component.name? : Component → Option String
  | .normal name => some name
  | _ => none

namespace Path

/-! ## Pieces -/

theorem split_eq_splitOn (cs : List Char) : split cs = cs.splitOn '/' := by
  induction cs with
  | nil => rfl
  | cons c cs ih =>
    rw [split, List.splitOn, List.splitOnP_cons_eq_if_modifyHead, ← List.splitOn, ih]
    cases hcs : cs.splitOn '/' with
    | nil => exact absurd hcs (List.splitOn_ne_nil _ _)
    | cons piece rest => rfl

theorem pieces_ne_nil (p : Path) : p.pieces ≠ [] := by
  rw [pieces, split_eq_splitOn]
  exact fun h => List.splitOn_ne_nil _ _ (List.map_eq_nil_iff.1 h)

/-- Two texts with a separator between them have the pieces of both. -/
theorem pieces_append_sep (a b : String) :
    pieces ⟨a ++ "/" ++ b⟩ = pieces ⟨a⟩ ++ pieces ⟨b⟩ := by
  have hlist : (a ++ "/" ++ b).toList = a.toList ++ '/' :: b.toList := by
    simp [String.toList_append]
  simp only [pieces, hlist, split_eq_splitOn, List.splitOn]
  rw [List.splitOnP_append_cons _ _ rfl, List.map_append]

/-- Pieces that are put together are read again. -/
theorem pieces_intercalate {ps : List String} (hne : ps ≠ [])
    (h : ∀ n ∈ ps, '/' ∉ n.toList) : pieces ⟨"/".intercalate ps⟩ = ps := by
  have hsep : ("/" : String).toList = ['/'] := rfl
  simp only [pieces, String.toList_intercalate, hsep, split_eq_splitOn]
  rw [List.splitOn_intercalate, List.map_map]
  · exact (List.map_congr_left fun n _ => String.ofList_toList).trans (List.map_id ps)
  · exact List.forall_mem_map.2 h
  · exact fun hnil => hne (List.map_eq_nil_iff.1 hnil)

theorem slash_notMem_of_mem_split {text piece : List Char} (h : piece ∈ split text) :
    '/' ∉ piece := by
  induction text generalizing piece with
  | nil =>
    rw [List.mem_singleton.1 h]
    exact List.not_mem_nil
  | cons c text ih =>
    rw [split] at h
    split at h
    · rcases List.mem_cons.1 h with rfl | h
      · exact List.not_mem_nil
      · exact ih h
    next hc =>
      have hne : '/' ≠ c := fun heq => hc (beq_iff_eq.2 heq.symm)
      cases hsplit : split text with
      | nil => exact absurd (split_eq_splitOn text ▸ hsplit) (List.splitOn_ne_nil _ _)
      | cons first rest =>
        rw [hsplit] at h ih
        rcases List.mem_cons.1 h with rfl | h
        · exact fun hmem => (List.mem_cons.1 hmem).elim hne (ih List.mem_cons_self)
        · exact ih (List.mem_cons_of_mem _ h)

theorem slash_notMem_of_mem_pieces {p : Path} {n : String} (h : n ∈ p.pieces) :
    '/' ∉ n.toList := by
  obtain ⟨cs, hcs, rfl⟩ := List.mem_map.1 h
  rw [String.toList_ofList]
  exact slash_notMem_of_mem_split hcs

/-- **An absolute path is one with nothing before its first separator.** -/
theorem isAbsolute_iff {p : Path} : p.isAbsolute = true ↔ ∃ n ps, p.pieces = "" :: n :: ps := by
  unfold isAbsolute pieces
  cases p.text.toList with
  | nil => simp [split]
  | cons c cs =>
    cases hcs : split cs with
    | nil => exact absurd (split_eq_splitOn cs ▸ hcs) (List.splitOn_ne_nil _ _)
    | cons piece rest =>
      by_cases hc : c = '/'
      · simp [split, hc, hcs]
      · simp [split, hc, hcs]

/-- A path that ends in a separator has nothing after it. -/
theorem exists_of_isOpen {p : Path} (h : p.isOpen = true) : ∃ a, p.text = a ++ "/" := by
  obtain ⟨cs, hcs⟩ := List.getLast?_eq_some_iff.1 (beq_iff_eq.1 h)
  refine ⟨String.ofList cs, ?_⟩
  rw [← String.toList_inj, hcs, String.toList_append, String.toList_ofList]
  rfl

/-! ## Pieces that count -/

/-- **The components among pieces**, with their places counted from some place
on. -/
def locatedFrom (k : Nat) (ps : List String) : List (Nat × Component) :=
  (ps.zipIdx k).filterMap fun (piece, i) => (component? (i == 0) piece).map fun c => (i, c)

theorem located_eq (p : Path) : p.located = locatedFrom 0 p.pieces := by
  have hswap : ∀ k (ps : List String), (List.range' k ps.length).zip ps
      = (ps.zipIdx k).map fun (piece, i) => (i, piece) := by
    intro k ps
    induction ps generalizing k with
    | nil => rfl
    | cons n ps ih => rw [List.length_cons, List.range'_succ, List.zip_cons_cons, ih]; rfl
  rw [located, List.range_eq_range', hswap, List.filterMap_map]
  rfl

/-- **Pieces are read one after the other.** -/
theorem locatedFrom_append (k : Nat) (ps qs : List String) :
    locatedFrom k (ps ++ qs) = locatedFrom k ps ++ locatedFrom (k + ps.length) qs := by
  rw [locatedFrom, List.zipIdx_append, List.filterMap_append]
  rfl

theorem le_of_mem_locatedFrom {k i : Nat} {c : Component} {ps : List String}
    (h : (i, c) ∈ locatedFrom k ps) : k ≤ i ∧ i < k + ps.length := by
  obtain ⟨⟨n, j⟩, hmem, hj⟩ := List.mem_filterMap.1 h
  obtain ⟨d, -, heq⟩ := Option.map_eq_some_iff.1 hj
  obtain rfl : j = i := (Prod.mk.inj heq).1
  exact ⟨List.le_snd_of_mem_zipIdx hmem, List.snd_lt_add_of_mem_zipIdx hmem⟩

/-- Not in the first place, a piece stands for the same component wherever it
comes. -/
theorem map_snd_locatedFrom {k : Nat} (hk : k ≠ 0) (ps : List String) :
    (locatedFrom k ps).map (·.2) = ps.filterMap (component? false) := by
  induction ps generalizing k with
  | nil => rfl
  | cons n ps ih =>
    have hk' : (k == 0) = false := beq_false_of_ne hk
    have hcons : locatedFrom k (n :: ps)
        = ((component? (k == 0) n).map fun c => (k, c)).toList ++ locatedFrom (k + 1) ps := by
      rw [← List.singleton_append, locatedFrom_append]
      cases h : component? (k == 0) n <;> simp [locatedFrom, h]
    rw [hcons, hk', List.map_append, ih (Nat.succ_ne_zero k), List.filterMap_cons]
    cases component? false n <;> rfl

/-- The places of the pieces that count go up. -/
theorem pairwise_locatedFrom (k : Nat) (ps : List String) :
    (locatedFrom k ps).Pairwise fun a b => a.1 < b.1 := by
  induction ps generalizing k with
  | nil => exact .nil
  | cons n ps ih =>
    rw [← List.singleton_append, locatedFrom_append]
    refine List.pairwise_append.2 ⟨?_, ih _, fun a ha b hb => ?_⟩
    · unfold locatedFrom
      cases h : component? (k == 0) n <;> simp [h]
    · have hlt := (le_of_mem_locatedFrom (i := a.1) (c := a.2) ha).2
      exact Nat.lt_of_lt_of_le hlt (le_of_mem_locatedFrom (i := b.1) (c := b.2) hb).1

/-- The first pieces that count are those with the first places. -/
theorem locatedFrom_take (ps : List String) (m : Nat) :
    locatedFrom 0 (ps.take m) = (locatedFrom 0 ps).filter fun x => x.1 < m := by
  conv_rhs => rw [← List.take_append_drop m ps, locatedFrom_append, List.filter_append]
  rw [List.filter_eq_self.2, List.filter_eq_nil_iff.2, List.append_nil]
  · intro x hx
    have hle := (le_of_mem_locatedFrom (i := x.1) (c := x.2) hx).1
    have hdrop : ps.drop m ≠ [] := by
      intro hnil
      rw [hnil] at hx
      exact absurd hx List.not_mem_nil
    have hm : m < ps.length := by simpa using hdrop
    rw [List.length_take, Nat.min_eq_left (Nat.le_of_lt hm)] at hle
    simpa using hle
  · intro x hx
    have hlt := (le_of_mem_locatedFrom (i := x.1) (c := x.2) hx).2
    rw [List.length_take] at hlt
    simp only [decide_eq_true_eq]
    omega

/-- Names stand for themselves. -/
theorem locatedFrom_names (k : Nat) {ns : List String} (h : ∀ n ∈ ns, IsName n) :
    locatedFrom k ns = (ns.zipIdx k).map fun (n, i) => (i, .normal n) := by
  unfold locatedFrom
  rw [← List.filterMap_eq_map]
  refine List.filterMap_congr fun x hx => ?_
  obtain ⟨hempty, hdot, hup, -⟩ := h x.1 (List.fst_mem_of_mem_zipIdx hx)
  simp [component?, hempty, hdot, hup]

/-! ## Components -/

theorem components_eq (p : Path) :
    p.components
      = (if p.isAbsolute then [.root] else []) ++ (locatedFrom 0 p.pieces).map (·.2) := by
  rw [components, located_eq]

theorem root_mem_components {p : Path} (h : p.isAbsolute = true) : .root ∈ p.components := by
  rw [components, if_pos h]
  exact List.mem_cons_self

theorem components_of_text_eq_empty {p : Path} (h : p.text = "") : p.components = [] := by
  obtain rfl : p = ⟨""⟩ := by rw [← h]
  decide

theorem components_ne_nil {p : Path} (h : p.text ≠ "") : p.components ≠ [] := by
  by_cases habsolute : p.isAbsolute = true
  · exact List.ne_nil_of_mem (root_mem_components habsolute)
  · obtain ⟨c, cs, hcs⟩ := List.exists_cons_of_ne_nil (mt String.toList_eq_nil_iff.1 h)
    have hc : (c == '/') = false := by simpa [isAbsolute, hcs] using habsolute
    obtain ⟨n, ps, hpieces, hn⟩ : ∃ n ps, p.pieces = n :: ps ∧ n ≠ "" := by
      rw [pieces, hcs, split, if_neg (by rw [hc]; nofun)]
      cases split cs with
      | nil => exact ⟨_, _, rfl, by simp⟩
      | cons piece rest => exact ⟨_, _, rfl, by simp⟩
    have hfirst : (locatedFrom 0 [n]).map (·.2) ≠ [] := by
      by_cases hdot : n = "."
      · rw [hdot]
        decide
      · by_cases hup : n = ".." <;> simp [locatedFrom, component?, hn, hdot, hup]
    have happend := locatedFrom_append 0 [n] ps
    rw [List.singleton_append] at happend
    rw [components_eq, hpieces, happend, List.map_append]
    simp [hfirst]

/-- **What comes last in a path is its last component**, if that is a name. -/
theorem fileName?_eq (p : Path) : p.fileName? = p.components.getLast?.bind Component.name? := by
  unfold fileName? components
  rw [List.getLast?_append, List.getLast?_map]
  cases p.located.getLast? with
  | none => cases p.isAbsolute <;> rfl
  | some x =>
    obtain ⟨i, c⟩ := x
    cases c <;> rfl

/-- **A join has the pieces of its second part at the end**, and before them
what counts of the first part. -/
theorem exists_pieces_join {p q : Path} (hp : p.text ≠ "") (hq : q.isAbsolute = false) :
    ∃ ps, ps ≠ [] ∧ (p.join q).pieces = ps ++ q.pieces ∧ locatedFrom 0 ps = p.located
      ∧ (p.join q).isAbsolute = p.isAbsolute := by
  obtain ⟨c, cs, hcs⟩ := List.exists_cons_of_ne_nil (mt String.toList_eq_nil_iff.1 hp)
  have habsolute : ∀ b : String, isAbsolute ⟨p.text ++ b⟩ = p.isAbsolute := by
    intro b
    simp [isAbsolute, String.toList_append, hcs]
  have hempty : p.text.isEmpty = false := by simpa using hp
  by_cases hopen : p.isOpen = true
  · obtain ⟨a, ha⟩ := exists_of_isOpen hopen
    have hjoin : p.join q = ⟨p.text ++ q.text⟩ := by simp [join, hq, hopen]
    have hpieces : p.pieces = pieces ⟨a⟩ ++ [""] := by
      have hp' : p = ⟨a ++ "/" ++ ""⟩ := by rw [String.append_empty, ← ha]
      rw [hp', pieces_append_sep]
      rfl
    refine ⟨pieces ⟨a⟩, pieces_ne_nil _, ?_, ?_, ?_⟩
    · rw [hjoin, ha, pieces_append_sep]
    · rw [located_eq, hpieces, locatedFrom_append]
      exact (List.append_nil _).symm
    · rw [hjoin, habsolute]
  · have hjoin : p.join q = ⟨p.text ++ "/" ++ q.text⟩ := by simp [join, hq, hopen, hempty]
    refine ⟨p.pieces, pieces_ne_nil p, ?_, (located_eq p).symm, ?_⟩
    · rw [hjoin, pieces_append_sep]
    · rw [hjoin, String.append_assoc, habsolute]

/-- **A join has the components of both parts**, if the second part is relative
and does not begin with a `.`. -/
theorem components_join {p q : Path} (hq : q.isAbsolute = false) (hhere : .here ∉ q.components) :
    (p.join q).components = p.components ++ q.components := by
  by_cases hp : p.text = ""
  · have hjoin : p.join q = q := by simp [join, hq, hp]
    rw [hjoin, components_of_text_eq_empty hp, List.nil_append]
  · obtain ⟨ps, hps, hpieces, hlocated, habsolute⟩ := exists_pieces_join hp hq
    have hfirst : (locatedFrom 0 q.pieces).map (·.2) = q.pieces.filterMap (component? false) := by
      cases hqs : q.pieces with
      | nil => rfl
      | cons n qs =>
        have hdot : n ≠ "." := by
          rintro rfl
          refine hhere ?_
          rw [components_eq, hqs]
          exact List.mem_append_right _ List.mem_cons_self
        have hn : component? true n = component? false n := by simp [component?, hdot]
        have hrest : (locatedFrom (0 + [n].length) qs).map (·.2)
            = qs.filterMap (component? false) := map_snd_locatedFrom (Nat.succ_ne_zero 0) qs
        rw [← List.singleton_append, locatedFrom_append, List.map_append, hrest,
          List.filterMap_append]
        refine congrArg (· ++ _) ?_
        rw [List.filterMap_cons, ← hn]
        cases h : component? true n <;> simp [locatedFrom, h]
    rw [components_eq (p.join q), habsolute, hpieces, locatedFrom_append, hlocated, Nat.zero_add,
      List.map_append, map_snd_locatedFrom (by simpa using hps), components_eq q, hq, hfirst,
      components, List.append_assoc]
    rfl

/-- **The parent of a path has all components but the last.** -/
theorem components_of_parent? {p q : Path} (h : p.parent? = some q) :
    q.components = p.components.dropLast := by
  unfold parent? at h
  split at h
  · cases h
  next x hx =>
    obtain rfl := Option.some.inj h
    have hlocated : p.located = [x] := by rw [← List.reverse_reverse p.located, hx]; rfl
    have hcomponents : p.components = (if p.isAbsolute then [.root] else []) ++ [x.2] := by
      rw [components, hlocated]
      rfl
    rw [hcomponents, List.dropLast_concat]
    cases p.isAbsolute <;> decide
  next x i c rest hx =>
    obtain rfl := Option.some.inj h
    have hlocated : p.located = rest.reverse ++ [(i, c)] ++ [x] := by
      rw [← List.reverse_reverse p.located, hx]
      simp
    have hpairwise : (rest.reverse ++ [(i, c)] ++ [x]).Pairwise fun a b => a.1 < b.1 := by
      rw [← hlocated, located_eq]
      exact pairwise_locatedFrom 0 _
    obtain ⟨hfront, -, hlast⟩ := List.pairwise_append.1 hpairwise
    have hic : (i, c) ∈ locatedFrom 0 p.pieces := by
      rw [← located_eq, hlocated]
      simp
    obtain ⟨-, hi⟩ := le_of_mem_locatedFrom hic
    have hpieces : (p.between 0 (i + 1)).pieces = p.pieces.take (i + 1) := by
      rw [between, List.drop_zero]
      refine pieces_intercalate (fun hnil => ?_) fun n hn =>
        slash_notMem_of_mem_pieces (List.mem_of_mem_take hn)
      exact pieces_ne_nil p (List.take_eq_nil_iff.1 hnil |>.resolve_left (Nat.succ_ne_zero i))
    -- what is left are the components before the last one
    have hkept : locatedFrom 0 (p.pieces.take (i + 1)) = rest.reverse ++ [(i, c)] := by
      rw [locatedFrom_take, ← located_eq, hlocated, List.filter_append, List.filter_eq_self.2,
        List.filter_eq_nil_iff.2, List.append_nil]
      · intro y hy
        rw [List.mem_singleton.1 hy]
        have := hlast (i, c) (by simp) x (by simp)
        simp only [decide_eq_true_eq]
        omega
      · intro y hy
        have hle : y.1 ≤ i := by
          rcases List.mem_append.1 hy with hy | hy
          · exact Nat.le_of_lt ((List.pairwise_append.1 hfront).2.2 y hy (i, c) (by simp))
          · exact Nat.le_of_eq (congrArg Prod.fst (List.mem_singleton.1 hy))
        simpa using Nat.lt_succ_of_le hle
    have habsolute : (p.between 0 (i + 1)).isAbsolute = p.isAbsolute := by
      rw [Bool.eq_iff_iff, isAbsolute_iff, isAbsolute_iff, hpieces]
      constructor
      · rintro ⟨n, ps, htake⟩
        have hsplit := List.take_append_drop (i + 1) p.pieces
        rw [htake] at hsplit
        exact ⟨n, _, hsplit.symm⟩
      · rintro ⟨n, ps, hps⟩
        -- an empty piece does not count
        have hi : i ≠ 0 := by
          rintro rfl
          rw [hps] at hic
          obtain ⟨⟨m, j⟩, hmem, hj⟩ := List.mem_filterMap.1 hic
          obtain ⟨d, hd, heq⟩ := Option.map_eq_some_iff.1 hj
          obtain rfl : j = 0 := (Prod.mk.inj heq).1
          have hm := List.mk_mem_zipIdx_iff_getElem?.1 hmem
          obtain rfl : "" = m := Option.some.inj hm
          cases hd
        obtain ⟨j, rfl⟩ := Nat.exists_eq_succ_of_ne_zero hi
        exact ⟨n, ps.take j, by rw [hps]; rfl⟩
    have hcomponents : p.components = (if p.isAbsolute then [.root] else [])
        ++ (rest.reverse ++ [(i, c)]).map (·.2) ++ [x.2] := by
      rw [components, hlocated, List.map_append]
      exact (List.append_assoc _ _ _).symm
    rw [components_eq, habsolute, hpieces, hkept, hcomponents, List.dropLast_concat]

theorem components_of_parent?_eq_none {p : Path} (h : p.parent? = none) :
    p.components = if p.isAbsolute then [.root] else [] := by
  unfold parent? at h
  split at h
  next hnil =>
    rw [components, List.reverse_eq_nil_iff.1 hnil]
    exact List.append_nil _
  · cases h
  · cases h

/-! ## Names -/

/-- **The path of some names.** -/
def ofNames (ns : List String) : Path := ⟨"/".intercalate ns⟩

variable {ns : List String}

theorem pieces_ofNames (hne : ns ≠ []) (h : ∀ n ∈ ns, IsName n) : (ofNames ns).pieces = ns :=
  pieces_intercalate hne fun n hn => (h n hn).2.2.2

theorem isAbsolute_ofNames (h : ∀ n ∈ ns, IsName n) : (ofNames ns).isAbsolute = false := by
  cases ns with
  | nil => rfl
  | cons n ns =>
    refine Bool.eq_false_iff.2 fun habsolute => ?_
    obtain ⟨m, ps, hpieces⟩ := isAbsolute_iff.1 habsolute
    rw [pieces_ofNames (List.cons_ne_nil n ns) h] at hpieces
    exact (h n List.mem_cons_self).1 (List.cons.inj hpieces).1

@[simp]
theorem components_ofNames (h : ∀ n ∈ ns, IsName n) :
    (ofNames ns).components = ns.map Component.normal := by
  by_cases hne : ns = []
  · subst hne
    rfl
  · rw [components_eq, isAbsolute_ofNames h, pieces_ofNames hne h, locatedFrom_names 0 h,
      List.map_map]
    show List.map (Component.normal ∘ Prod.fst) _ = _
    rw [← List.map_map, List.zipIdx_map_fst]

theorem components_join_ofNames (p : Path) (h : ∀ n ∈ ns, IsName n) :
    (p.join (ofNames ns)).components = p.components ++ ns.map Component.normal := by
  rw [components_join (isAbsolute_ofNames h), components_ofNames h]
  rw [components_ofNames h]
  simp

theorem text_ofNames_ne_empty (hne : ns ≠ []) (h : ∀ n ∈ ns, IsName n) :
    (ofNames ns).text ≠ "" := by
  intro hempty
  have hcomponents := components_ofNames h
  rw [components_of_text_eq_empty hempty] at hcomponents
  exact hne (List.map_eq_nil_iff.1 hcomponents.symm)

theorem isOpen_append {a b : String} (hb : b ≠ "") : isOpen ⟨a ++ b⟩ = isOpen ⟨b⟩ := by
  obtain ⟨c, hc⟩ : ∃ c, b.toList.getLast? = some c :=
    ⟨_, List.getLast?_eq_some_getLast (mt String.toList_eq_nil_iff.1 hb)⟩
  simp [isOpen, String.toList_append, List.getLast?_append, hc]

theorem isOpen_ofNames (hne : ns ≠ []) (h : ∀ n ∈ ns, IsName n) :
    (ofNames ns).isOpen = false := by
  refine Bool.eq_false_iff.2 fun hopen => ?_
  obtain ⟨a, ha⟩ := exists_of_isOpen hopen
  have hpieces : (ofNames ns).pieces = pieces ⟨a⟩ ++ [""] := by
    have htext : ofNames ns = ⟨a ++ "/" ++ ""⟩ := by rw [String.append_empty, ← ha]
    rw [htext, pieces_append_sep]
    rfl
  rw [pieces_ofNames hne h] at hpieces
  exact (h "" (hpieces ▸ List.mem_append_right _ (List.mem_singleton_self _))).1 rfl

/-- **Names can be put after a path in two steps.** -/
theorem join_ofNames_append {ms : List String} (p : Path) (hns : ns ≠ []) (hms : ms ≠ [])
    (h : ∀ n ∈ ns ++ ms, IsName n) :
    (p.join (ofNames ns)).join (ofNames ms) = p.join (ofNames (ns ++ ms)) := by
  have hleft : ∀ n ∈ ns, IsName n := fun n hn => h n (List.mem_append_left ms hn)
  have hright : ∀ n ∈ ms, IsName n := fun n hn => h n (List.mem_append_right ns hn)
  have htext : (ofNames (ns ++ ms)).text = (ofNames ns).text ++ "/" ++ (ofNames ms).text :=
    String.intercalate_append_of_ne_nil hns hms
  have hne := text_ofNames_ne_empty hns hleft
  -- whatever comes before them, the first names end neither in nothing nor in a separator
  have hopen : ∀ a : String, isOpen ⟨a ++ (ofNames ns).text⟩ = false := fun a =>
    (isOpen_append hne).trans (isOpen_ofNames hns hleft)
  have hnonempty : ∀ a : String, (a ++ (ofNames ns).text).isEmpty = false := by
    intro a
    simpa [String.append_eq_empty_iff] using fun _ => hne
  unfold join
  rw [isAbsolute_ofNames hleft, isAbsolute_ofNames hright, isAbsolute_ofNames h]
  simp only [Bool.false_eq_true, if_false]
  split <;> rw [hopen, hnonempty] <;> simp [htext, String.append_assoc]

/-- **The parent of the path of some names** is the path of all but the last. -/
theorem parent?_ofNames {n : String} (h : ∀ m ∈ ns ++ [n], IsName m) :
    (ofNames (ns ++ [n])).parent? = some (ofNames ns) := by
  have hlocated : (ofNames (ns ++ [n])).located
      = (ns.zipIdx 0).map (fun (n, i) => (i, Component.normal n)) ++ [(ns.length, .normal n)] := by
    rw [located_eq, pieces_ofNames (by simp) h, locatedFrom_names 0 h]
    simp [List.zipIdx_append]
  unfold parent?
  rw [hlocated, List.reverse_append]
  rcases List.eq_nil_or_concat ns with rfl | ⟨front, last, rfl⟩
  · show some (Path.mk (if (ofNames ([] ++ [n])).isAbsolute then "/" else "")) = some ⟨""⟩
    rw [isAbsolute_ofNames h]
    rfl
  · rw [List.concat_eq_append] at h ⊢
    have hbetween : (ofNames (front ++ [last] ++ [n])).between 0 (front.length + 1)
        = ofNames (front ++ [last]) := by
      have hlength : front.length + 1 = (front ++ [last]).length := by simp
      rw [between, pieces_ofNames (by simp) h, List.drop_zero, hlength, List.take_left]
      rfl
    rw [List.zipIdx_append, List.map_append, List.reverse_append]
    simpa using hbetween

theorem dropPrefix?_append (as bs : List Component) : dropPrefix? (as ++ bs) as = some bs := by
  induction as with
  | nil => cases bs <;> rfl
  | cons a as ih => rw [List.cons_append, dropPrefix?, if_pos rfl, ih]

/-- What is left of a path reaches from the first to the last of the pieces that
are left. -/
theorem strip?_eq_some {p base : Path} {cs : List Component} {front left : List (Nat × Component)}
    {i j : Nat} {c d : Component} (hbase : base.components ≠ [])
    (hcomponents : p.components = base.components ++ cs) (hlocated : p.located = front ++ left)
    (hlength : left.length = cs.length) (hhead : left.head? = some (i, c))
    (hlast : left.getLast? = some (j, d)) : p.strip? base = some (p.between i (j + 1)) := by
  have hshorter : (cs.length == (base.components ++ cs).length) = false := by
    have hpos := List.length_pos_of_ne_nil hbase
    rw [List.length_append]
    exact beq_false_of_ne (by omega)
  have hdrop : (front ++ left).drop ((front ++ left).length - cs.length) = left := by
    rw [List.length_append, hlength, Nat.add_sub_cancel, List.drop_left]
  cases left with
  | nil => cases hhead
  | cons x left =>
    obtain rfl := Option.some.inj hhead
    unfold strip?
    rw [hcomponents, dropPrefix?_append]
    dsimp only
    rw [hshorter, hlocated, hdrop]
    dsimp only
    rw [hlast]
    rfl

/-- **Stripping undoes a join with names.** -/
theorem strip?_join_ofNames {root : Path} (hroot : root.text ≠ "") (hne : ns ≠ [])
    (h : ∀ n ∈ ns, IsName n) : (root.join (ofNames ns)).strip? root = some (ofNames ns) := by
  obtain ⟨ps, -, hpieces, hlocated, -⟩ := exists_pieces_join hroot (isAbsolute_ofNames h)
  rw [pieces_ofNames hne h] at hpieces
  have hall : (root.join (ofNames ns)).located = root.located ++ locatedFrom ps.length ns := by
    rw [located_eq, hpieces, locatedFrom_append, hlocated, Nat.zero_add]
  have hbetween : (root.join (ofNames ns)).between ps.length (ps.length + ns.length)
      = ofNames ns := by
    rw [between, hpieces, ← List.length_append, List.take_length, List.drop_left]
    rfl
  have hpos := List.length_pos_of_ne_nil hne
  have hlast : (locatedFrom ps.length ns).getLast?
      = some (ps.length + ns.length - 1, .normal (ns.getLast hne)) := by
    rw [locatedFrom_names _ h, List.getLast?_map, List.getLast?_zipIdx,
      List.getLast?_eq_some_getLast hne]
    rfl
  have hhead : (locatedFrom ps.length ns).head? = some (ps.length, .normal (ns.head hne)) := by
    rw [locatedFrom_names _ h, List.head?_map, List.head?_zipIdx, List.head?_eq_some_head hne]
    rfl
  have hlength : (locatedFrom ps.length ns).length = (ns.map Component.normal).length := by
    rw [locatedFrom_names _ h, List.length_map, List.length_map, List.length_zipIdx]
  rw [strip?_eq_some (components_ne_nil hroot) (components_join_ofNames root h) hall hlength hhead
    hlast, Nat.sub_add_cancel (by omega), hbetween]

end Path

end JavaMutants
