import Mathlib.Data.List.Induction
import JavaMutants.Proofs.FileSystem.Changes
import JavaMutants.Proofs.SourceRoot

/-!
# Ways to files below a root

A path to a file below a root goes the way of the root to its directory, whatever
dots and links there are (`FileSystem.exists_walk_append`), and from there through
directories to the file (`FileSystem.walk_names`). So it leads to the file, or it
is no path that can be looked up; but never is something on the way no directory
(`FileSystem.find_join_ofNames`).
-/

namespace JavaMutants.FileSystem

variable {fs : FileSystem} {links : Nat} {l d : Location} {pieces ns : List String}
  {root : Path}

/-- **A walk to a directory can be gone on with**, whether or not it ended with a
dot. -/
theorem exists_walk_append {dot : List String} (hdot : dot = [] ∨ dot = ["."])
    (h : fs.walk true links l (pieces ++ dot) = .ok (.occupied d .directory)) :
    ∃ links', ∀ more, fs.walk true links l (pieces ++ more) = fs.walk true links' d more := by
  fun_induction walk fs true links l pieces with
  | case1 links l entry hentry =>
    refine ⟨links, fun more => ?_⟩
    have hl : l = d := by
      rcases hdot with rfl | rfl
      · rw [List.nil_append, walk, hentry] at h
        cases h
        rfl
      · rw [List.nil_append, walk] at h
        split at h
        · cases h
        · rw [if_pos (by rfl), walk, hentry] at h
          cases h
          rfl
    rw [hl, List.nil_append]
  | case2 links l hnone =>
    rcases hdot with rfl | rfl
    · rw [List.nil_append, walk, hnone] at h
      cases h
    · rw [List.nil_append, walk, if_pos (by rw [hnone]; rfl)] at h
      cases h
  | case3 links l piece rest hdir =>
    rw [List.cons_append, walk, if_pos hdir] at h
    cases h
  | case4 links l piece rest hdir hpiece ih =>
    rw [List.cons_append, walk, if_neg hdir, if_pos hpiece] at h
    obtain ⟨links', hmore⟩ := ih h
    refine ⟨links', fun more => ?_⟩
    rw [List.cons_append, walk, if_neg hdir, if_pos hpiece, hmore]
  | case5 links l piece rest hdir hpiece hup ih =>
    rw [List.cons_append, walk, if_neg hdir, if_neg hpiece, if_pos hup] at h
    obtain ⟨links', hmore⟩ := ih h
    refine ⟨links', fun more => ?_⟩
    rw [List.cons_append, walk, if_neg hdir, if_neg hpiece, if_pos hup, hmore]
  | case6 links l piece rest hdir hpiece hup hlong =>
    rw [List.cons_append, walk, if_neg hdir, if_neg hpiece, if_neg hup, if_pos hlong] at h
    cases h
  | case7 links l piece rest hdir hpiece hup hlong next hnext hrest =>
    rw [List.cons_append, walk, if_neg hdir, if_neg hpiece, if_neg hup, if_neg hlong] at h
    dsimp only at h
    rw [show fs.get? (l ++ [piece]) = none from hnext] at h
    dsimp only at h
    split at h <;> cases h
  | case8 links l piece rest hdir hpiece hup hlong next hnext hrest =>
    rw [List.cons_append, walk, if_neg hdir, if_neg hpiece, if_neg hup, if_neg hlong] at h
    dsimp only at h
    rw [show fs.get? (l ++ [piece]) = none from hnext] at h
    dsimp only at h
    split at h <;> cases h
  | case9 links l piece rest hdir hpiece hup hlong next target hnext hstop =>
    simp at hstop
  | case10 l piece rest hdir hpiece hup hlong next target hnext hgo =>
    rw [List.cons_append, walk, if_neg hdir, if_neg hpiece, if_neg hup, if_neg hlong] at h
    dsimp only at h
    rw [show fs.get? (l ++ [piece]) = some (.link target) from hnext] at h
    simp at h
  | case11 l piece rest hdir hpiece hup hlong next target hnext hgo left ih =>
    have hon : ∀ more, fs.walk true (left + 1) l (piece :: rest ++ more)
        = fs.walk true left (origin l target) (steps target ++ rest ++ more) := by
      intro more
      rw [List.cons_append, walk, if_neg hdir, if_neg hpiece, if_neg hup, if_neg hlong]
      dsimp only
      rw [show fs.get? (l ++ [piece]) = some (.link target) from hnext]
      simp
    rw [hon] at h
    obtain ⟨links', hmore⟩ := ih h
    exact ⟨links', fun more => (hon more).trans (hmore more)⟩
  | case12 links l piece rest hdir hpiece hup hlong next entry hentry hnext ih =>
    have hon : ∀ more, fs.walk true links l (piece :: rest ++ more)
        = fs.walk true links next (rest ++ more) := by
      intro more
      rw [List.cons_append, walk, if_neg hdir, if_neg hpiece, if_neg hup, if_neg hlong]
      dsimp only
      rw [show fs.get? (l ++ [piece]) = some entry from hnext]
      cases entry with
      | link target => exact absurd rfl (hentry target)
      | _ => rfl
    rw [hon] at h
    obtain ⟨links', hmore⟩ := ih h
    exact ⟨links', fun more => (hon more).trans (hmore more)⟩

/-- On the way to what lies somewhere there are directories. -/
theorem get?_of_get?_append
    (hrooted : ∀ l e, l ≠ [] → fs.get? l = some e → fs.get? l.dropLast = some .directory)
    {e : Entry} (hne : ns ≠ []) (h : fs.get? (l ++ ns) = some e) :
    fs.get? l = some .directory := by
  induction ns using List.reverseRecOn generalizing e with
  | nil => exact absurd rfl hne
  | append_singleton ns n ih =>
    have hparent := hrooted _ e (by simp) h
    rw [← List.append_assoc, List.dropLast_concat] at hparent
    by_cases hns : ns = []
    · rwa [hns, List.append_nil] at hparent
    · exact ih hns hparent

/-- **The names of a file lead to it**, unless one of them is too long. -/
theorem walk_names (hrooted : ∀ l e, l ≠ [] → fs.get? l = some e →
      fs.get? l.dropLast = some .directory) {content : List UInt8} (hns : ∀ n ∈ ns, IsName n)
    (h : fs.get? (l ++ ns) = some (.file content)) :
    fs.walk true links l ns = .ok (.occupied (l ++ ns) (.file content))
      ∨ fs.walk true links l ns = .error .tooLong := by
  induction ns generalizing l with
  | nil =>
    rw [List.append_nil] at h ⊢
    rw [walk, h]
    exact .inl rfl
  | cons n ns ih =>
    have hdir : fs.get? l = some .directory := get?_of_get?_append hrooted (List.cons_ne_nil n ns) h
    obtain ⟨-, hdot, hup, -⟩ := hns n List.mem_cons_self
    rw [List.append_cons] at h ⊢
    have hrest := ih (fun m hm => hns m (List.mem_cons_of_mem n hm)) h
    rw [walk, if_neg (by simp [hdir]), if_neg (by simpa using hdot), if_neg (by simpa using hup)]
    by_cases hlong : longestName < Text.size n
    · rw [if_pos hlong]
      exact .inr rfl
    · rw [if_neg hlong]
      dsimp only
      cases ns with
      | nil =>
        rw [List.append_nil] at h
        rw [h]
        exact hrest
      | cons m ns =>
        rw [get?_of_get?_append hrooted (List.cons_ne_nil m ns) h]
        exact hrest

/-- The pieces of a path below a root. -/
theorem steps_join_ofNames (hroot : root.text ≠ "") (hne : ns ≠ []) (hns : ∀ n ∈ ns, IsName n) :
    steps (root.join (.ofNames ns)) = root.pieces.filter (· != "") ++ ns := by
  have hnames : ns.filter (· != "") = ns :=
    List.filter_eq_self.2 fun n hn => by simpa using (hns n hn).1
  have hpieces : (root.join (.ofNames ns)).pieces.filter (· != "")
      = root.pieces.filter (· != "") ++ ns := by
    have hempty : root.text.isEmpty = false := by simpa using hroot
    have hsep : ∀ a : String, Path.pieces ⟨a ++ "/" ++ (Path.ofNames ns).text⟩ = Path.pieces ⟨a⟩ ++ ns :=
      fun a => by rw [Path.pieces_append_sep]; exact congrArg _ (Path.pieces_ofNames hne hns)
    by_cases hopen : root.isOpen = true
    · obtain ⟨a, ha⟩ := Path.exists_of_isOpen hopen
      have hend : root.pieces = Path.pieces ⟨a⟩ ++ [""] := by
        rw [show root = ⟨a ++ "/" ++ ""⟩ by rw [← ha, String.append_empty], Path.pieces_append_sep]
        rfl
      have hjoin : root.join (.ofNames ns) = ⟨a ++ "/" ++ (Path.ofNames ns).text⟩ := by
        simp [Path.join, Path.isAbsolute_ofNames hns, hopen, ha]
      rw [hjoin, hsep, hend, List.filter_append, List.filter_append, hnames]
      simp
    · have hjoin : root.join (.ofNames ns) = ⟨root.text ++ "/" ++ (Path.ofNames ns).text⟩ := by
        simp [Path.join, Path.isAbsolute_ofNames hns, hopen, hempty]
      rw [hjoin, hsep, List.filter_append, hnames]
  have hopen : (root.join (.ofNames ns)).isOpen = false := by
    refine Bool.eq_false_iff.2 fun hopen => ?_
    obtain ⟨a, ha⟩ := Path.exists_of_isOpen hopen
    obtain ⟨ps, -, hjoin, -⟩ := Path.exists_pieces_join hroot (Path.isAbsolute_ofNames hns)
    have hend : (root.join (.ofNames ns)).pieces = Path.pieces ⟨a⟩ ++ [""] := by
      rw [show root.join (.ofNames ns) = ⟨a ++ "/" ++ ""⟩ by rw [← ha, String.append_empty],
        Path.pieces_append_sep]
      rfl
    rw [hjoin, Path.pieces_ofNames hne hns] at hend
    have hlast := congrArg List.getLast? hend
    rw [List.getLast?_append, List.getLast?_eq_some_getLast hne, List.getLast?_concat] at hlast
    exact (hns _ (List.getLast_mem hne)).1 (Option.some.inj hlast)
  rw [steps_of_isOpen_eq_false hopen, hpieces]

/-- **Where the path of a file below a root leads**: to the file, if it can be
looked up. -/
theorem find_join_ofNames (hrooted : ∀ l e, l ≠ [] → fs.get? l = some e →
      fs.get? l.dropLast = some .directory) (hroot : fs.directory? root = some d)
    (hns : ∀ n ∈ ns, IsName n) {content : List UInt8}
    (hfile : fs.get? (d ++ ns) = some (.file content)) :
    fs.find true (root.join (.ofNames ns)) (steps (root.join (.ofNames ns)))
        = .ok (.occupied (d ++ ns) (.file content))
      ∨ ∃ fault ≠ .notDirectory, fs.find true (root.join (.ofNames ns))
        (steps (root.join (.ofNames ns))) = .error fault := by
  obtain ⟨htext, hdir⟩ := get?_of_directory? hroot
  have hne : ns ≠ [] := by
    rintro rfl
    rw [List.append_nil, hdir] at hfile
    cases hfile
  have hwalk : fs.walk true mostLinks (origin fs.here root) (steps root)
      = .ok (.occupied d .directory) := by
    unfold directory? at hroot
    split at hroot
    next l hfind =>
      cases hroot
      exact walk_of_find hfind
    next => cases hroot
  obtain ⟨links', hmore⟩ := exists_walk_append (by cases root.isOpen <;> simp) hwalk
  have horigin : origin fs.here (root.join (.ofNames ns)) = origin fs.here root := by
    obtain ⟨-, -, -, -, habsolute⟩ := Path.exists_pieces_join htext (Path.isAbsolute_ofNames hns)
    rw [origin, origin, habsolute]
  unfold find
  split
  · exact .inr ⟨.nullCharacter, by simp, rfl⟩
  split
  · exact .inr ⟨.notFound, by simp, rfl⟩
  split
  · exact .inr ⟨.tooLong, by simp, rfl⟩
  rw [steps_join_ofNames htext hne hns, horigin, hmore]
  exact (walk_names hrooted hns hfile).imp_right fun herror => ⟨.tooLong, by simp, herror⟩

end JavaMutants.FileSystem
