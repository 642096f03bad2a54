import JavaMutants.Operator.Edit
import JavaMutants.Proofs.Fragment.Place
import JavaMutants.Proofs.Fragment.Program
import JavaMutants.Proofs.Fragment.Text
import JavaMutants.Proofs.Syntax.Nest

/-!
# Targets on their own

The text of every target is a declaration by itself, so a fragment is made
of it, and the declaration of that fragment is the target's: it is a
declaration of the kind of the target and takes all of its text
(`Target.exists_fragment_of_mem_locate`). An operator is never kept from a
target because its text could not be parsed without the file.

A type is parsed as it stands, a method or a constructor with a class around
it; both are sound because the tokens of a declaration are the same wherever
it stands (`Portable`). The deepest node that covers the text is the
declaration, since a declaration has two children or more and so none of them
takes all of its text.
-/

namespace JavaMutants

open Syntax Text Tree Grammar

/-! ## The declaration of a text -/

/-- **A node with two children is the deepest that covers its place.** -/
theorem Syntax.IsParse.covering_eq {text : String} {tree c n : Tree} (h : IsParse text tree)
    (hc : c ∈ tree.children) (hn : n ∈ c.preorder) (htwo : 2 ≤ n.children.length) :
    tree.covering n.span = n := by
  obtain ⟨hstart, hstop⟩ := (h.laid.nested c hc).bounds hn
  have hlt := ((h.laid.nested c hc).of_mem_preorder hn).lt
  have hfound : coveringAmong n.span tree.children = some (covering n.span c) :=
    coveringAmong_eq h.laid.ordered hc hstart hstop (Nat.lt_of_lt_of_le hlt hstop)
  have hroot : tree.covering n.span = (coveringAmong n.span tree.children).getD tree := by
    cases tree
    rfl
  rw [hroot, hfound, Option.getD_some, (h.laid.nested c hc).covering_eq hn]
  exact ((h.laid.nested c hc).of_mem_preorder hn).covering_self htwo

/-- **A declaration was read from some of the tokens** of a sound text. -/
structure ReadFrom (text : String) (tree node : Tree) (k : Kind) (own : List Token) : Prop where
  /-- The text is sound. -/
  parse : parseSound text = .ok tree
  /-- The declaration is a node of its tree. -/
  exists_child : ∃ c ∈ tree.children, node ∈ c.preorder
  /-- It is of some kind. -/
  label : node.label = .named k
  /-- The rule of this kind takes the tokens, but for the comments among them. What comes
  after them cannot be passed where nothing is open. -/
  exists_tokens : ∃ head tail, Token.scan text.toList = head ++ (own ++ tail)
    ∧ outcome (body k) [] (own.filter (fun t => !t.isComment) ++ tail.filter fun t => !t.isComment)
      = some (node.bare.children, tail.filter fun t => !t.isComment)
    ∧ ∀ t ∈ (tail.filter fun t => !t.isComment).head?, t.lexeme.nest? [] = none

variable {k : Kind} {nodes tops : List Tree} {start stop : Nat}

/-- **A text in which the tokens of a declaration are read is sound**, and the
deepest node that covers them is the declaration. -/
theorem Spells.exists_tree {text : String} {cs : List Char} (htext : text.toList = cs)
    (hmark : cs.head? ≠ some '\ufeff') {head own tail before rest : List Token}
    (hscans : Token.Scans .code [] [] cs (head ++ (own ++ tail)))
    (hhead : head.filter (fun t => !t.isComment) = before)
    (htail : tail.filter (fun t => !t.isComment) = rest)
    (hrest : ∀ t ∈ rest.head?, t.lexeme.nest? [] = none)
    (h : Spells k (own.filter fun t => !t.isComment) start stop) (hk : isDeclaration k = true)
    (hown : outcome (body k) [] (own.filter (fun t => !t.isComment) ++ rest) = some (nodes, rest))
    (hprogram : outcome (body .program) []
      (before ++ (own.filter (fun t => !t.isComment) ++ rest)) = some (tops, []))
    (htop : ∃ c ∈ tops, above (.named k) nodes ∈ c.preorder) :
    ∃ tree, ReadFrom text tree (tree.covering ⟨start, stop⟩) k own
      ∧ (tree.covering ⟨start, stop⟩).span = ⟨start, stop⟩ := by
  subst htext
  have hscan : Token.scan text.toList = head ++ (own ++ tail) := by
    rw [Token.scan_eq_scanFrom hmark]
    exact hscans.scanFrom_eq (Nat.le_refl _)
  have htokens : Token.code text.toList
      = before ++ (own.filter (fun t => !t.isComment) ++ rest) := by
    rw [Token.code, hscan, List.filter_append, List.filter_append, hhead, htail]
  rw [← htokens] at hprogram
  obtain ⟨tree, hparse, hbare⟩ := exists_parseSound hprogram fun t ht hfin =>
    hscans.lt_of_mem (hscan ▸ (List.mem_filter.1 ht).1) hfin
  refine ⟨tree, ?_⟩
  have hsound := isParse_of_parseSound hparse
  -- the declaration was read from these tokens, so it lies where they do
  obtain ⟨t, us, hfirst, -, rfl⟩ := h.first
  obtain ⟨vs, u, hlast, rfl⟩ := h.last
  obtain ⟨c, hc, hd⟩ := htop
  rw [← hbare] at hc
  obtain ⟨hstart, hstop⟩ := Target.bounds_of_outcome hsound hc hd hk htokens hown hfirst hlast
    h.ne_finish
  -- comments may have been put into it
  obtain ⟨e, he, -, rfl⟩ := mem_bareAll_iff.1 hc
  obtain ⟨n, hn, hnd⟩ := exists_of_mem_bare hd
  have hlabel : n.label = .named k := by rw [← label_bare, hnd]; rfl
  have hspan : n.span = ⟨t.span.start, u.span.stop⟩ := by
    rw [← span_bare, hnd, ← hstart, ← hstop]
    rfl
  have htwo := (hsound.declares (mem_preorder_of_child he hn) hlabel hk).two
  have hcovering := hsound.covering_eq he hn htwo
  rw [hspan] at hcovering
  rw [hcovering]
  refine ⟨⟨hparse, ⟨e, he, hn⟩, hlabel, head, tail, hscan, ?_⟩, hspan⟩
  rw [htail, hnd]
  exact ⟨hown, hrest⟩

theorem Portable.ne_nil {w : List Char} (h : Portable k w) : w ≠ [] := by
  rintro rfl
  obtain ⟨ts, hpasses, hspells⟩ := h.scanned [] [] fun _ => rfl
  obtain ⟨t, us, hfirst, -⟩ := hspells.first
  rw [hpasses.eq_nil rfl] at hfirst
  cases hfirst

variable {w : List Char} {ts : List Token}

/-- **The text of a type is sound by itself.** -/
theorem Portable.exists_tree_of_type (h : Portable k w) (hk : k ∈ typeKinds)
    (hpasses : Token.Passes [] .code [] [] w ts .code [])
    (hspells : Spells k (ts.filter fun t => !t.isComment) 0 (byteLength w)) :
    ∃ tree, ReadFrom (String.ofList w) tree (tree.covering ⟨0, byteLength w⟩) k ts
      ∧ (tree.covering ⟨0, byteLength w⟩).span = ⟨0, byteLength w⟩ := by
  have hscans : Token.Scans .code [] [] (w ++ [])
      (ts ++ [⟨.finish, ⟨byteLength w, byteLength w⟩⟩]) := hpasses.scans .done
  rw [List.append_nil] at hscans
  obtain ⟨nodes, hnodes⟩ := hspells.read [⟨.finish, ⟨byteLength w, byteLength w⟩⟩]
  have hprogram : outcome (body .program) []
      ((ts.filter fun t => !t.isComment) ++ [⟨.finish, ⟨byteLength w, byteLength w⟩⟩])
        = some ([above (.named k) nodes], []) := by
    obtain ⟨t, us, hfirst, ht, -⟩ := hspells.first
    rw [hfirst] at hnodes ⊢
    exact outcome_program_of_type hk ht hnodes
  exact hspells.exists_tree String.toList_ofList
    (fun hmark => (h.head _ hmark).2.1 rfl) (show Token.Scans _ _ _ w ([] ++ (ts ++ _)) from hscans)
    rfl rfl
    (by rintro t ⟨⟩; rfl) (isDeclaration_of_mem_typeKinds k hk) hnodes hprogram ⟨_, List.mem_singleton.2 rfl, mem_preorder_self _⟩

/-- What comes after a member is scanned to a brace. -/
theorem scans_closing (before : List Char) : ∃ close fin,
    Token.Scans .code [] before closing [⟨.punct .braceClose, close⟩, ⟨.finish, fin⟩] := by
  have n₁ : Token.next .code [] closing = (none, 1, .code, []) := rfl
  have n₂ : Token.next .code [] [Char.ofNat 0x7d, '\n']
      = (some (.punct .braceClose), 1, .code, []) := rfl
  have n₃ : Token.next .code [] ['\n'] = (none, 1, .code, []) := rfl
  exact ⟨_, _, .skip n₁ (List.cons_ne_nil _ _)
    (.token n₂ (List.cons_ne_nil _ _) (.skip n₃ (List.cons_ne_nil _ _) .done))⟩

/-- **The text of a member is sound in the class around it.** -/
theorem Portable.exists_tree_of_member (h : Portable k w) (hk : isDeclaration k = true)
    (htype : k ∉ typeKinds)
    (hpasses : Token.Passes closing .code [] Fragment.before.toList w ts .code [])
    (hspells : Spells k (ts.filter fun t => !t.isComment) (byteLength Fragment.before.toList)
      (byteLength (Fragment.before.toList ++ w))) :
    ∃ tree, ReadFrom (around (String.ofList w)) tree (tree.covering ⟨19, 19 + byteLength w⟩) k ts
      ∧ (tree.covering ⟨19, 19 + byteLength w⟩).span = ⟨19, 19 + byteLength w⟩ := by
  obtain ⟨close, fin, hclosing⟩ := scans_closing (Fragment.before.toList ++ w)
  have hmember := hpasses.scans hclosing
  rw [Token.toList_before] at hmember
  -- the end of the line before the member is skipped
  have hline : Token.Scans .code [] Token.opened ('\n' :: (w ++ closing))
      (ts ++ [⟨.punct .braceClose, close⟩, ⟨.finish, fin⟩]) := by
    obtain ⟨c, w, rfl⟩ := List.exists_cons_of_ne_nil h.ne_nil
    have hspace : Token.isSpace '\n' = true := by decide
    have hskip : Token.next .code [] ('\n' :: (c :: w ++ closing))
        = (none, (('\n' :: (c :: w ++ closing)).takeWhile Token.isSpace).length, .code, []) := rfl
    rw [List.takeWhile_cons_of_pos hspace, List.cons_append,
      List.takeWhile_cons_of_neg (by rw [(h.head c rfl).1]; nofun)] at hskip
    exact .skip hskip (List.cons_ne_nil _ _) hmember
  have hscans := (Token.passes_opened ('\n' :: (w ++ closing))).scans hline
  obtain ⟨nodes, hnodes⟩ := hspells.read [⟨.punct .braceClose, close⟩, ⟨.finish, fin⟩]
  have hprogram : outcome (body .program) [] (opening ((ts.filter fun t => !t.isComment)
      ++ [⟨.punct .braceClose, close⟩, ⟨.finish, fin⟩]))
        = some ([classAround [above (.named k) nodes] close], []) := by
    obtain ⟨t, us, hfirst, ht, -⟩ := hspells.first
    rw [hfirst] at hnodes ⊢
    exact outcome_program_of_member hk htype ht hnodes
  have hbefore : byteLength Fragment.before.toList = 19 := by decide
  rw [byteLength_append, hbefore] at hspells
  have htext : (around (String.ofList w)).toList = Token.opened ++ '\n' :: (w ++ closing) := by
    rw [toList_around, String.toList_ofList, Token.toList_before]
    simp
  refine hspells.exists_tree htext ?_ hscans (show _ = opening [] from rfl) rfl
    (by rintro t ⟨⟩; rfl) hk hnodes hprogram ⟨_, List.mem_singleton.2 rfl, ?_⟩
  · rw [← htext]
    exact head?_around _
  · -- it is the only member of the body
    have hbody : bodyAround [above (.named k) nodes] close
        ∈ (classAround [above (.named k) nodes] close).children :=
      List.mem_cons_of_mem _ (List.mem_cons_of_mem _ List.mem_cons_self)
    refine mem_preorder_of_child hbody (mem_preorder_of_child ?_ (mem_preorder_self _))
    rw [children_bodyAround]
    exact List.mem_cons_of_mem _ List.mem_cons_self

/-! ## The fragment of a target -/

/-- What comes in a fragment before the text of a declaration, and what after it. -/
def Fragment.surroundings (k : Kind) : List Char × List Char :=
  if k ∈ typeKinds then ([], []) else (Fragment.before.toList, closing)

/-- Nothing after it closes a comment. -/
theorem Fragment.blockCommentLength_surroundings (k : Kind) (n : Nat) :
    Token.blockCommentLength n (Fragment.surroundings k).2 = none := by
  unfold Fragment.surroundings
  split
  all_goals rfl

/-- **The text of a declaration is a fragment**, and the declaration of the
fragment was read from its tokens and takes all of it. -/
theorem Portable.exists_fragment_of_passes (h : Portable k w) (hk : isDeclaration k = true)
    (hpasses : Token.Passes (Fragment.surroundings k).2 .code [] (Fragment.surroundings k).1 w ts
      .code [])
    (hspells : Spells k (ts.filter fun t => !t.isComment) (byteLength (Fragment.surroundings k).1)
      (byteLength ((Fragment.surroundings k).1 ++ w))) : ∃ fragment,
      Fragment.parse? (String.ofList w) (TargetKind.ofKind? k != some .typeDeclaration)
        = some fragment
      ∧ ReadFrom fragment.text fragment.tree fragment.declaration k ts
      ∧ fragment.offset = byteLength (Fragment.surroundings k).1
      ∧ fragment.declaration.span = ⟨fragment.offset, fragment.offset + byteLength w⟩ := by
  unfold Fragment.surroundings at hpasses hspells ⊢
  by_cases htype : k ∈ typeKinds
  · rw [if_pos htype] at hpasses hspells ⊢
    obtain ⟨tree, hread, hspan⟩ := h.exists_tree_of_type htype hpasses hspells
    have hmember : (TargetKind.ofKind? k != some .typeDeclaration) = false := by
      rw [mem_typeKinds_iff.1 htype]
      rfl
    refine ⟨⟨String.ofList w, 0, size (String.ofList w), tree⟩, ?_, ?_, rfl, ?_⟩
    · rw [hmember]
      simp only [Fragment.parse?, Bool.false_eq_true, if_false, hread.parse]
    · rw [Fragment.declaration, size_ofList, Nat.zero_add]
      exact hread
    · rw [Fragment.declaration, size_ofList, Nat.zero_add]
      exact hspan
  · rw [if_neg htype] at hpasses hspells ⊢
    obtain ⟨tree, hread, hspan⟩ := h.exists_tree_of_member hk htype hpasses hspells
    have hmember : (TargetKind.ofKind? k != some .typeDeclaration) = true :=
      bne_iff_ne.2 fun heq => htype (mem_typeKinds_iff.2 heq)
    have hbefore : size Fragment.before = 19 := by decide
    have hoffset : 19 = byteLength Fragment.before.toList := by decide
    refine ⟨⟨around (String.ofList w), 19, size (String.ofList w), tree⟩, ?_, ?_, hoffset, ?_⟩
    · rw [hmember]
      simp only [Fragment.parse?, if_true, hbefore]
      rw [← around, hread.parse]
    · rw [Fragment.declaration, size_ofList]
      exact hread
    · rw [Fragment.declaration, size_ofList]
      exact hspan

/-- The same, without its tokens. -/
theorem Portable.exists_fragment (h : Portable k w) (hk : isDeclaration k = true) : ∃ fragment,
      Fragment.parse? (String.ofList w) (TargetKind.ofKind? k != some .typeDeclaration)
        = some fragment
      ∧ fragment.declaration.kind? = some k
      ∧ fragment.localRange? fragment.declaration = some (0, byteLength w) := by
  obtain ⟨ts, hpasses, hspells⟩ := h.scanned _ _ (Fragment.blockCommentLength_surroundings k)
  obtain ⟨fragment, hparse, hread, -, hspan⟩ := h.exists_fragment_of_passes hk hpasses hspells
  refine ⟨fragment, hparse, by rw [Tree.kind?, hread.label], ?_⟩
  rw [Fragment.localRange?, Tree.start, Tree.stop, hspan]
  simp

namespace Target

variable {path : Path} {text : String} {file : SourceFile} {markers : Markers} {t : Target}

/-- **The text of a target is a declaration wherever it stands.** -/
theorem exists_portable_of_mem_locate (hfile : SourceFile.parse path text = .ok file)
    (ht : t ∈ locate markers file) : ∃ k w, TargetKind.ofKind? k = some t.kind
      ∧ isDeclaration k = true ∧ file.slice? t.start t.stop = some (String.ofList w)
      ∧ Portable k w := by
  obtain ⟨node, mods, hmatch, hkind, hstart, hstop⟩ := exists_isMatch_of_mem_locate hfile ht
  obtain ⟨k, hl, hk⟩ := hkind.isDeclaration
  obtain ⟨x, hportable⟩ := hmatch.exists_setting (parseSound_of_parse hfile) hl hk
  have hof : TargetKind.ofKind? k = some t.kind := by
    have hbind := isOfKind_iff.1 hkind
    rwa [Tree.kind?, hl] at hbind
  refine ⟨k, x.own, hof, hk, ?_, hportable⟩
  rw [hstart, hstop]
  exact x.slice?_eq

/-- **Every target is a declaration on its own.** The text of a target that is
found in a source file is parsed without the file, the declaration of this
fragment is of the target's kind and takes exactly the bytes of the target, and
so every operator that works on the declaration of a text gets to work. -/
theorem exists_fragment_of_mem_locate {path : Path} {text : String} {file : SourceFile}
    (hfile : SourceFile.parse path text = .ok file) {markers : Markers} {t : Target}
    (ht : t ∈ Target.locate markers file) : ∃ span fragment,
      file.slice? t.start t.stop = some span
      ∧ Fragment.parse? span (t.kind != .typeDeclaration) = some fragment
      ∧ (∃ k, fragment.declaration.kind? = some k ∧ TargetKind.ofKind? k = some t.kind)
      ∧ fragment.localRange? fragment.declaration = some (0, t.stop - t.start)
      ∧ ∀ generate, withDeclaration t span generate = generate fragment fragment.declaration := by
  obtain ⟨k, w, hof, hk, hslice, hportable⟩ := exists_portable_of_mem_locate hfile ht
  -- the bytes of the text are as many as the target has
  have hsize : byteLength w = t.stop - t.start := by
    obtain ⟨a, b, -, ha, hb⟩ := slice?_eq_some_iff.1 hslice
    rw [size_ofList] at hb
    omega
  obtain ⟨fragment, hparse, hfound, hrange⟩ := hportable.exists_fragment hk
  have hmember : (TargetKind.ofKind? k != some .typeDeclaration) = (t.kind != .typeDeclaration) := by
    rw [hof]
    rfl
  rw [hmember] at hparse
  rw [hsize] at hrange
  exact ⟨_, fragment, hslice, hparse, ⟨k, hfound, hof⟩, hrange, fun generate => by
    rw [withDeclaration, hparse]⟩

/-- A constructor that no class could have, with a brace in a comment. -/
def compactText : String :=
  "record R(int v) \x7b @Mutate R \x7b if (v < 0) v = 0; /* \x7d */ \x7d \x7d"

/-- It stands in a record, and is parsed in a class. -/
theorem exists_fragment_of_mem_locate_compact :
    ∃ file t, SourceFile.parse ⟨"R.java"⟩ compactText = .ok file ∧ t ∈ locate {} file
      ∧ (t.kind, t.start, t.stop) = (.constructor, 18, 57) ∧ ∃ fragment,
        Fragment.parse? "@Mutate R \x7b if (v < 0) v = 0; /* \x7d */ \x7d" true = some fragment
        ∧ (∃ k, fragment.declaration.kind? = some k ∧ TargetKind.ofKind? k = some .constructor)
        ∧ fragment.localRange? fragment.declaration = some (0, 39) := by
  let file : SourceFile := ⟨⟨"R.java"⟩, compactText, Syntax.parse compactText⟩
  obtain ⟨hfile, hlocate⟩ : SourceFile.parse ⟨"R.java"⟩ compactText = .ok file
      ∧ locate {} file = [⟨.constructor, "R", 18, 57, 0, true, false⟩] :=
    parse_and_locate_eq _ (by decide +kernel)
  have ht : (⟨.constructor, "R", 18, 57, 0, true, false⟩ : Target) ∈ locate {} file :=
    hlocate ▸ List.mem_singleton.2 rfl
  obtain ⟨span, fragment, hspan, hparse, hkind, hrange, -⟩ := exists_fragment_of_mem_locate hfile ht
  have hslice : file.slice? 18 57 = some "@Mutate R \x7b if (v < 0) v = 0; /* \x7d */ \x7d" := by
    decide +kernel
  obtain rfl := Option.some.inj (hspan.symm.trans hslice)
  exact ⟨file, _, hfile, ht, rfl, fragment, hparse, hkind, hrange⟩

end Target

end JavaMutants
