import JavaMutants.Proofs.FileSystem.Below
import JavaMutants.Proofs.FileSystem.Removal
import JavaMutants.Proofs.Run.Determinism

/-!
# Runs where files are missing

Source files are found by what lies below the roots, so where some of them are
missing the others are found, in the same order
(`SourceInput.ofRoots_without`), and they are read as before, because the way from a
root to a file goes through directories only (`FileSystem.read_join_of_lacks`).

A file that fails (`SourceInput.Fails`) adds nothing to the mutants of a run, and
no other file is held back for it. So the mutants are those of the other
files alone (`Generator.mutants_run_filter`).
-/

namespace JavaMutants

/-- Lists that are split where a property ends are split at one place. -/
theorem append_inj_of_split {α : Type} {q : α → Bool} {as bs cs ds : List α}
    (h : as ++ bs = cs ++ ds) (has : ∀ a ∈ as, q a = true) (hbs : ∀ b ∈ bs, q b = false)
    (hcs : ∀ c ∈ cs, q c = true) (hds : ∀ d ∈ ds, q d = false) : as = cs ∧ bs = ds := by
  have hleft : ∀ {xs ys : List α}, (∀ x ∈ xs, q x = true) → (∀ y ∈ ys, q y = false) →
      (xs ++ ys).filter q = xs := by
    intro xs ys hxs hys
    rw [List.filter_append, List.filter_eq_self.2 hxs,
      List.filter_eq_nil_iff.2 fun y hy => by simp [hys y hy], List.append_nil]
  have heq : as = cs := by
    rw [← hleft has hbs, h, hleft hcs hds]
  exact ⟨heq, List.append_cancel_left (heq ▸ h)⟩

/-- **What is left out can be left out before sorting.** -/
theorem filter_mergeSort {α : Type} {le : α → α → Bool}
    (trans : ∀ a b c, le a b = true → le b c = true → le a c = true)
    (total : ∀ a b, (le a b || le b a) = true) (keep : α → Bool) (xs : List α) :
    (xs.mergeSort le).filter keep = (xs.filter keep).mergeSort le := by
  induction xs with
  | nil => simp
  | cons a xs ih =>
    obtain ⟨front, back, hsorted, hrest, hfront⟩ := List.mergeSort_cons trans total a xs
    have hback : ∀ b ∈ back, le a b = true := by
      have hpair := List.pairwise_mergeSort trans total (a :: xs)
      rw [hsorted] at hpair
      exact (List.pairwise_cons.1 (List.pairwise_append.1 hpair).2.1).1
    rw [hrest, List.filter_append] at ih
    rw [hsorted, List.filter_append]
    cases hkeep : keep a with
    | false =>
      rw [List.filter_cons_of_neg (by simp [hkeep]), List.filter_cons_of_neg (by simp [hkeep])]
      exact ih
    | true =>
      rw [List.filter_cons_of_pos hkeep, List.filter_cons_of_pos hkeep]
      -- the element comes before the first one that it may come before
      obtain ⟨front', back', hsorted', hrest', hfront'⟩ :=
        List.mergeSort_cons trans total a (xs.filter keep)
      have hback' : ∀ b ∈ back', le a b = true := by
        have hpair := List.pairwise_mergeSort trans total (a :: xs.filter keep)
        rw [hsorted'] at hpair
        exact (List.pairwise_cons.1 (List.pairwise_append.1 hpair).2.1).1
      obtain ⟨hleft, hright⟩ := append_inj_of_split (q := fun b => !le a b)
        (ih.trans hrest') (fun b hb => hfront b (List.mem_filter.1 hb).1)
        (fun b hb => by simp [hback b (List.mem_filter.1 hb).1]) hfront'
        fun b hb => by simp [hback' b hb]
      rw [hsorted', hleft, hright]

/-! ## Reading -/

/-- **A file below a root is read as before** where other files are missing. -/
theorem FileSystem.read_join_of_lacks {gone : Location → Prop} {fs fs' : FileSystem}
    {root : Path} {d : Location} {ns : List String} {content : List UInt8}
    (h : Lacks gone fs fs') (hroot : fs.directory? root = some d) (hns : ∀ n ∈ ns, IsName n)
    (hfile : fs.get? (d ++ ns) = some (.file content)) (hgone : ¬ gone (d ++ ns)) :
    fs'.read (root.join (.ofNames ns)) = fs.read (root.join (.ofNames ns)) := by
  have hsame : fs'.find true (root.join (.ofNames ns)) (steps (root.join (.ofNames ns)))
      = fs.find true (root.join (.ofNames ns)) (steps (root.join (.ofNames ns))) := by
    rcases find_of_lacks h true (root.join (.ofNames ns)) (steps _) rfl with heq | ⟨hmissed, -⟩
    · exact heq
    · -- the file is not one of those that are missing, and nothing else is met
      rcases find_join_ofNames h.rooted hroot hns hfile with hfind | ⟨fault, hfault, hfind⟩
      · rw [hfind] at hmissed
        generalize fs'.find true (root.join (.ofNames ns)) _ = after at hmissed
        cases hmissed
        exact absurd ‹gone _› hgone
      · rw [hfind] at hmissed
        generalize fs'.find true (root.join (.ofNames ns)) _ = after at hmissed
        cases hmissed
        exact absurd rfl hfault
  unfold read
  rw [hsame]

/-! ## What is found -/

namespace SourceInput

variable {fs : FileSystem} {root : Path} {extension : String} {input : SourceInput}
  {inputs : List SourceInput} {l : Location}

/-- **The file of an input lies at a location**: at the directory of the root and the
names that the path adds to the root. -/
def LiesAt (fs : FileSystem) (input : SourceInput) (l : Location) : Prop :=
  (∃ content, fs.get? l = some (.file content)) ∧
    ∃ d ns, fs.directory? input.root = some d ∧ l = d ++ ns
      ∧ input.path = input.root.join (.ofNames ns)

/-- **An input fails**: it cannot be read, it is not text, or it is not
well-formed. -/
def Fails (fs : FileSystem) (input : SourceInput) : Prop :=
  (∃ fault, fs.read input.path = .error fault) ∨
    ∃ bytes, fs.read input.path = .ok bytes ∧
      ((∃ fault, Text.decode bytes = .error fault) ∨
        ∃ text, Text.decode bytes = .ok text ∧ ∃ reason, parseSound text = .error reason)

/-- The inputs that fail are those that are not read as files. -/
theorem fails_iff : input.Fails fs ↔ ∃ e, SourceFile.load fs input = .error e := by
  unfold Fails SourceFile.load SourceFile.parse
  cases fs.read input.path with
  | error fault => simp
  | ok bytes =>
    cases hdecode : Text.decode bytes with
    | error fault => simp [hdecode]
    | ok text => cases hparse : parseSound text <;> simp [hdecode, hparse]

/-- Names that are at the end of a location are names. -/
theorem isName_of_liesAt (hfs : fs.IsTree) {d : Location} {ns : List String} {e : Entry}
    (hne : d ++ ns ≠ []) (h : fs.get? (d ++ ns) = some e) : ∀ n ∈ ns, IsName n := fun n hn =>
  (hfs.named _ (FileSystem.mem_entries_of_get? hne h)).2 n (List.mem_append_right d hn)

/-- **An input lies at one location.** -/
theorem LiesAt.eq (hfs : fs.IsTree) {l' : Location} (h : input.LiesAt fs l)
    (h' : input.LiesAt fs l') : l = l' := by
  obtain ⟨⟨content, hfile⟩, d, ns, hd, rfl, hpath⟩ := h
  obtain ⟨⟨content', hfile'⟩, d', ns', hd', rfl, hpath'⟩ := h'
  obtain rfl : d = d' := Option.some.inj (hd.symm.trans hd')
  have hns := isName_of_liesAt hfs (FileSystem.ne_nil_of_get?_file hfile) hfile
  have hns' := isName_of_liesAt hfs (FileSystem.ne_nil_of_get?_file hfile') hfile'
  have heq := congrArg Path.components (hpath.symm.trans hpath')
  rw [Path.components_join_ofNames _ hns, Path.components_join_ofNames _ hns'] at heq
  rw [List.map_injective_iff.2 (fun _ _ => Component.normal.inj) (List.append_cancel_left heq)]

/-- What is found below a directory when some files have been taken away. -/
theorem below_without (hfs : fs.IsTree) {d : Location} (hd : fs.directory? root = some d)
    {gone : Location → Bool} {keep : SourceInput → Bool}
    (hkeep : ∀ input l, input.LiesAt fs l → keep input = !gone l) :
    below (fs.without gone) root extension d = (below fs root extension d).filter keep := by
  have hfiles : (fs.without gone).filesBelow d = (fs.filesBelow d).filter
      fun x => keep ⟨root, root.join ⟨"/".intercalate x.1⟩⟩ := by
    unfold FileSystem.filesBelow FileSystem.without
    rw [List.filterMap_filter, List.filter_filterMap]
    refine List.filterMap_congr fun x hx => ?_
    obtain ⟨l, e⟩ := x
    cases e with
    | directory => simp
    | link target => simp
    | file content =>
      cases hbelow : d.isPrefixOf l with
      | false => simp [hbelow]
      | true =>
        obtain ⟨ns, rfl⟩ := List.isPrefixOf_iff_prefix.1 hbelow
        have hlies : LiesAt fs ⟨root, root.join (.ofNames ns)⟩ (d ++ ns) :=
          ⟨⟨content, hfs.get?_of_mem hx⟩, d, ns, hd, rfl, rfl⟩
        have hsame : keep ⟨root, root.join ⟨"/".intercalate ns⟩⟩ = !gone (d ++ ns) :=
          hkeep _ _ hlies
        cases hgone : gone (d ++ ns) <;> simp [hbelow, hsame, hgone, Option.filter]
  unfold below
  rw [hfiles, List.filter_map, List.filter_map, List.filter_map, List.filter_map,
    List.filter_filter, List.filter_filter]
  refine congrArg _ (congrArg _ (List.filter_congr fun x _ => ?_))
  exact Bool.and_comm _ _

/-- **What is found where files are missing** is what was found, without these
files. -/
theorem ofRoots_without (hfs : fs.IsTree) {gone : Location → Bool} {keep : SourceInput → Bool}
    (hfile : ∀ l, gone l = true → ∃ content, fs.get? l = some (.file content))
    (hkeep : ∀ input l, input.LiesAt fs l → keep input = !gone l) {roots : List Path}
    (h : ofRoots fs extension roots = .ok inputs) :
    ofRoots (fs.without gone) extension roots = .ok (inputs.filter keep) := by
  have hone : ∀ {root found}, ofRoot fs extension root = .ok found →
      ofRoot (fs.without gone) extension root = .ok (found.filter keep) := by
    intro root found hfound
    unfold ofRoot at hfound ⊢
    rw [FileSystem.directory?_of_lacks (hfs.lacks_without hfile)]
    cases hd : fs.directory? root with
    | none =>
      rw [hd] at hfound
      cases hfound
    | some d =>
      rw [hd] at hfound
      cases hfound
      dsimp only
      rw [below_without hfs hd hkeep, filter_mergeSort notAfter_trans notAfter_total]
  induction roots generalizing inputs with
  | nil =>
    cases h
    rfl
  | cons root roots ih =>
    rw [ofRoots] at h ⊢
    cases hfirst : ofRoot fs extension root with
    | error e =>
      rw [hfirst] at h
      cases h
    | ok first =>
      cases hothers : ofRoots fs extension roots with
      | error e =>
        rw [hfirst, hothers] at h
        cases h
      | ok others =>
        rw [hfirst, hothers] at h
        cases h
        rw [hone hfirst, ih hothers, List.filter_append]
        rfl

/-- **What is found under roots lies somewhere.** -/
theorem exists_liesAt_of_mem_ofRoots (hfs : fs.IsTree) {roots : List Path}
    (h : ofRoots fs extension roots = .ok inputs) (hinput : input ∈ inputs) :
    ∃ l, input.LiesAt fs l := by
  obtain ⟨root, -, found, hfound, hmem⟩ := exists_mem_ofRoot h hinput
  unfold ofRoot at hfound
  split at hfound
  next d hd =>
    cases hfound
    obtain ⟨ns, content, hfile, -, rfl⟩ := (mem_below_iff hfs).1 (List.mem_mergeSort.1 hmem)
    exact ⟨_, ⟨content, hfile⟩, d, ns, hd, rfl, rfl⟩
  next => cases hfound

/-- An input that lies elsewhere is read as before. -/
theorem read_of_liesAt (hfs : fs.IsTree) {gone : Location → Prop} {fs' : FileSystem}
    (h : FileSystem.Lacks gone fs fs') (hl : input.LiesAt fs l) (hgone : ¬ gone l) :
    fs'.read input.path = fs.read input.path := by
  obtain ⟨⟨content, hfile⟩, d, ns, hd, rfl, hpath⟩ := hl
  rw [hpath]
  exact FileSystem.read_join_of_lacks h hd
    (isName_of_liesAt hfs (FileSystem.ne_nil_of_get?_file hfile) hfile) hfile hgone

end SourceInput

/-! ## What comes of it -/

namespace Pool

/-- Where one task is done after the other, each has its three turns. -/
theorem three_le_count_inOrder {n i : Nat} (hi : i < n) : 3 ≤ (inOrder n).count i := by
  have hsub : [i, i, i].Sublist (inOrder n) := by
    unfold inOrder
    rw [List.flatMap_def]
    have hmem : [i, i, i] ∈ (List.range n).map fun turn => [turn, turn, turn] :=
      List.mem_map.2 ⟨i, List.mem_range.2 hi, rfl⟩
    exact (List.infix_of_mem_flatten hmem).sublist
  refine Nat.le_trans ?_ (hsub.count_le i)
  simp

end Pool

namespace Generator

variable {config : Config} {g : Generator} {fs : FileSystem} {inputs : List SourceInput}

/-- The outcome of a run is what processing its inputs gives, put in order. -/
theorem run_eq (hg : ofConfig config = .ok g) (fs : FileSystem) (inputs : List SourceInput) :
    g.run fs inputs = ⟨(inputs.map (g.process fs)).mergeSort FileOutcome.notAfter⟩ :=
  runUnder_eq hg fs fun _ => Pool.three_le_count_inOrder

/-- **An input fails exactly if the work on it does.** -/
theorem isFailed_process_iff (hg : ofConfig config = .ok g) {input : SourceInput} :
    (g.process fs input).isFailed = true ↔ input.Fails fs := by
  rw [SourceInput.fails_iff]
  cases hload : SourceFile.load fs input with
  | error e =>
    unfold process
    simp [hload, FileOutcome.isFailed, FileOutcome.ofFailure]
  | ok file =>
    obtain ⟨ms, noOps, hprocess, -⟩ := exists_process_of_load hg hload
    simp [hprocess, FileOutcome.isFailed]

/-- **A run has failures exactly if some input fails.** -/
theorem hasFailures_run_iff (fs : FileSystem) (inputs : List SourceInput)
    (hg : ofConfig config = .ok g) :
    (g.run fs inputs).hasFailures = true ↔ ∃ input ∈ inputs, input.Fails fs := by
  rw [run_eq hg, Outcome.hasFailures, List.any_eq_true]
  simp only [List.mem_mergeSort, List.mem_map, exists_exists_and_eq_and, isFailed_process_iff hg]

/-- There is nothing to show for an input that fails. -/
theorem mutants_process_of_fails {input : SourceInput} (h : input.Fails fs) :
    (g.process fs input).mutants = [] := by
  obtain ⟨e, he⟩ := SourceInput.fails_iff.1 h
  unfold process
  rw [he]
  rfl

/-- **The mutants of a run are those of the inputs that do not fail**, whatever
becomes of the others. -/
theorem mutants_run_filter (hg : ofConfig config = .ok g) {fs' : FileSystem}
    {keep : SourceInput → Bool} (hfails : ∀ input ∈ inputs, keep input = false → input.Fails fs)
    (hsame : ∀ input ∈ inputs, keep input = true → fs'.read input.path = fs.read input.path) :
    (g.run fs' (inputs.filter keep)).mutants = (g.run fs inputs).mutants := by
  have hkept : (inputs.filter keep).map (g.process fs')
      = (inputs.map (g.process fs)).filter fun o => keep o.input := by
    rw [List.filter_map]
    have hinput : (fun o => keep o.input) ∘ g.process fs = keep := by
      funext input
      exact congrArg keep (input_process g fs input).1
    rw [hinput]
    refine List.map_congr_left fun input hmem => ?_
    obtain ⟨hinputs, hk⟩ := List.mem_filter.1 hmem
    exact process_congr g (hsame input hinputs hk)
  rw [run_eq hg, run_eq hg, Outcome.mutants, Outcome.mutants, hkept,
    ← filter_mergeSort FileOutcome.notAfter_trans FileOutcome.notAfter_total]
  -- what is left out has no mutants
  have hnone : ∀ o ∈ (inputs.map (g.process fs)).mergeSort FileOutcome.notAfter,
      keep o.input = false → o.mutants = [] := by
    intro o ho hk
    obtain ⟨input, hinput, rfl⟩ := List.mem_map.1 (List.mem_mergeSort.1 ho)
    rw [(input_process g fs input).1] at hk
    exact mutants_process_of_fails (hfails input hinput hk)
  generalize (inputs.map (g.process fs)).mergeSort FileOutcome.notAfter = os at hnone
  induction os with
  | nil => rfl
  | cons o os ih =>
    have hrest := ih fun o' ho' => hnone o' (List.mem_cons_of_mem o ho')
    rw [List.flatMap_cons, ← hrest]
    cases hk : keep o.input with
    | true => rw [List.filter_cons_of_pos (by exact hk), List.flatMap_cons]
    | false =>
      rw [List.filter_cons_of_neg (by simp [hk]), hnone o List.mem_cons_self hk, List.nil_append]

end Generator

end JavaMutants
