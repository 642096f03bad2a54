import JavaMutants.Proofs.FileSystem.Removal
import JavaMutants.Proofs.Output.Write

/-!
# Writing mutants where files are missing

What can be written can be written where files are missing, to the same paths
and with the same bytes (`Output.write_eq_ok_of_lacks`). A path to which a file
has been written leads to that file from then on (`FileSystem.Keeps.find`), and
the file is not one of those that are missing still, so that reading it gives
the same in both file systems, even if links make another path lead there and
it is written again.
-/

namespace JavaMutants.Output

open FileSystem (Lacks Keeps)

variable {gone : Location → Prop} {fs fs' : FileSystem} {path : Path} {text : String}
  {files : List (Path × String)}

/-- A path leads to a file that is not missing. -/
def Leads (gone : Location → Prop) (fs : FileSystem) (path : Path) : Prop :=
  ∃ l content, fs.find true path (FileSystem.steps path) = .ok (.occupied l (.file content))
    ∧ ¬ gone l

/-- Room can be made where it could be made. -/
theorem makeRoom_of_lacks (h : Lacks gone fs fs') {made : FileSystem}
    (hmade : makeRoom fs path = .ok made) :
    ∃ made', makeRoom fs' path = .ok made' ∧ Lacks gone made made' ∧ Keeps fs made := by
  unfold makeRoom at hmade ⊢
  cases hparent : path.parent? with
  | none =>
    rw [hparent] at hmade
    cases hmade
    exact ⟨fs', rfl, h, .refl fs⟩
  | some dir =>
    rw [hparent] at hmade
    dsimp only at hmade ⊢
    split at hmade
    next made hdirs =>
      cases hmade
      obtain ⟨made', hdirs', hmade⟩ := FileSystem.makeDirectoriesUpTo_of_lacks h hdirs
      unfold FileSystem.makeDirectories
      rw [hdirs']
      exact ⟨made', rfl, hmade⟩
    next => cases hmade

/-- **A text can be written where it could be written**, and lies where its path
leads. -/
theorem writeOne_of_lacks (h : Lacks gone fs fs') {next : FileSystem}
    (hone : writeOne fs path text = .ok next) :
    ∃ next' l, writeOne fs' path text = .ok next'
      ∧ Lacks (fun l' => gone l' ∧ l' ≠ l) next next' ∧ Keeps fs next
      ∧ Leads (fun l' => gone l' ∧ l' ≠ l) next path := by
  unfold writeOne at hone ⊢
  split at hone
  next => cases hone
  next made hmade =>
    obtain ⟨made', hmade', hlacks, hkeeps⟩ := makeRoom_of_lacks h hmade
    split at hone
    next written hwritten =>
      cases hone
      obtain ⟨written', l, hwritten', hlacks', hkeeps', hfind⟩ :=
        FileSystem.write_of_lacks hlacks hwritten
      rw [hmade']
      dsimp only
      rw [hwritten']
      exact ⟨written', l, rfl, hlacks', hkeeps.trans hkeeps', l, _, hfind, fun hl => hl.2 rfl⟩
    next => cases hone

/-- **Texts can be written where they could be written**, and each path leads to a
file that is not missing. -/
theorem writeAll_of_lacks (h : Lacks gone fs fs') {after : FileSystem}
    (hall : writeAll fs files = (after, none)) :
    ∃ (gone' : Location → Prop) (after' : FileSystem), writeAll fs' files = (after', none)
      ∧ (∀ l, gone' l → gone l) ∧ Lacks gone' after after' ∧ Keeps fs after
      ∧ ∀ x ∈ files, Leads gone' after x.1 := by
  induction files generalizing gone fs fs' with
  | nil =>
    cases hall
    exact ⟨gone, fs', rfl, fun _ hl => hl, h, .refl _, nofun⟩
  | cons x files ih =>
    obtain ⟨path, text⟩ := x
    obtain ⟨next, hone, hrest⟩ := exists_of_writeAll_cons hall
    obtain ⟨next', l, hone', hlacks, hkeeps, hleads⟩ := writeOne_of_lacks h hone
    obtain ⟨gone', after', hrest', hsub, hlacks', hkeeps', hfiles⟩ := ih hlacks hrest
    refine ⟨gone', after', ?_, fun l hl => (hsub l hl).1, hlacks', hkeeps.trans hkeeps',
      List.forall_mem_cons.2 ⟨?_, hfiles⟩⟩
    · rw [writeAll, hone']
      exact hrest'
    · -- what is written after it leaves it where it is
      obtain ⟨l', content, hfind, hl'⟩ := hleads
      obtain ⟨content', hfind'⟩ := hkeeps'.find hfind
      exact ⟨l', content', hfind', fun hgone => hl' (hsub l' hgone)⟩

/-- **Mutants can be written where they could be written**: to the same paths, and
each path then gives the same bytes to read. All else lies there as well, but for
files that were missing. -/
theorem write_eq_ok_of_lacks (h : Lacks gone fs fs') {outDir : Path} {extension : String}
    {mutants : List Mutant} {after : FileSystem} {paths : List Path}
    (hwrite : write fs outDir extension mutants = (after, .ok paths)) :
    ∃ after', write fs' outDir extension mutants = (after', .ok paths)
      ∧ (∀ path ∈ paths, ∃ content, after.read path = .ok content
        ∧ after'.read path = .ok content)
      ∧ ∀ l, ¬ gone l → after'.get? l = after.get? l := by
  obtain ⟨rfl, hunrepeated, hall⟩ := exists_of_write_eq_ok hwrite
  obtain ⟨gone', after', hall', hsub, hlacks, -, hleads⟩ := writeAll_of_lacks h hall
  have hgo : ¬ (fs'.contains outDir && !fs'.isDirectory outDir) = true := by
    intro hstop
    obtain ⟨hcontains, hnot⟩ := Bool.and_eq_true_iff.1 hstop
    rw [FileSystem.isDirectory_of_lacks h] at hnot
    rw [write, FileSystem.contains_of_lacks h hcontains, hnot] at hwrite
    cases hwrite
  have hnone : repeated? [] (mutants.map (pathOf outDir extension)) = none :=
    repeated?_eq_none_iff.2 ⟨hunrepeated, fun _ _ _ hq => absurd hq List.not_mem_nil⟩
  refine ⟨after', ?_, fun path hpath => ?_, fun l hl => hlacks.kept l fun hgone => hl (hsub l hgone)⟩
  · rw [write, if_neg hgo]
    dsimp only
    rw [hnone, List.zip_map', hall']
  · obtain ⟨m, hm, rfl⟩ := List.mem_map.1 hpath
    obtain ⟨l, content, hfind, hl⟩ := hleads _ (List.mem_map_of_mem hm)
    exact ⟨content, FileSystem.read_of_lacks hlacks hfind hl⟩

end JavaMutants.Output
