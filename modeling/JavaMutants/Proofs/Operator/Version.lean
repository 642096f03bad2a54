import JavaMutants.Proofs.Operator.Exchange

/-!
# One version for each site

A built-in operator chooses nodes of a declaration and gives one version for
each of them, in their order: the text with other characters in the place of
the node's, and with everything around them as it was (`Fragment.Exchanged`).
The nodes of each operator are listed here, and what comes in their place
(`versions_swapOperators` and so on). Two things follow for all of them at once
(`Registry.generate_exchanges`): they never give up, whatever the text is, and
they never reach beyond it.
-/

namespace JavaMutants

open Syntax Text Tree

/-- A mapping that can fail goes through, with what is known of each element. -/
theorem exists_mapM_forall₂ {α β : Type} {R : α → β → Prop} {f : α → Option β} {xs : List α}
    (h : ∀ x ∈ xs, ∃ y, f x = some y ∧ R x y) :
    ∃ ys, xs.mapM f = some ys ∧ List.Forall₂ R xs ys := by
  induction xs with
  | nil => exact ⟨[], rfl, .nil⟩
  | cons x xs ih =>
    obtain ⟨y, hy, hR⟩ := h x List.mem_cons_self
    obtain ⟨ys, hys, hRs⟩ := ih fun z hz => h z (List.mem_cons_of_mem x hz)
    exact ⟨y :: ys, by simp [List.mapM_cons, hy, hys], .cons hR hRs⟩

namespace Fragment

/-- **A version with one node exchanged**: other characters stand in the place of
the node's, and everything around them is as it was. -/
structure Exchanged (fragment : Fragment) (span : String) (node : Tree)
    (old new version : String) : Prop where
  /-- What is taken out is the text of the node. -/
  text : fragment.textOf? node = some old
  /-- It is taken out of the range of the node in the text, which does not reach
  beyond it. -/
  parts : ∃ before after : String, span = before ++ old ++ after
    ∧ fragment.localRange? node = some (Text.size before, Text.size before + Text.size old)
    ∧ version = before ++ new ++ after

section Versions

variable {target : Target} {span : String} {fragment : Fragment}

/-- A node that can be exchanged has a version. -/
theorem Editable.exists_exchanged {node : Tree} (h : fragment.Editable node)
    (hof : fragment.IsOf span) (new : String) : ∃ old version,
      (Edit.ofNode? fragment node new).bind (·.applyTo? span) = some version
        ∧ fragment.Exchanged span node old new version := by
  obtain ⟨before, old, after, hspan, htext, hrange, hedit⟩ := h.exists_parts hof
  exact ⟨old, before ++ new ++ after, hedit new, htext, before, after, hspan, hrange, rfl⟩

/-- **There is a version for each site.** -/
theorem exists_versions (hof : fragment.IsOf span) {sites : List (Tree × String)}
    (h : ∀ site ∈ sites, fragment.Exchange target site.1 site.2) :
    ∃ versions, exchangeEach fragment span sites = some versions
      ∧ List.Forall₂ (fun site version => fragment.Exchange target site.1 site.2
        ∧ ∃ old, fragment.Exchanged span site.1 old site.2 version) sites versions := by
  refine exists_mapM_forall₂ fun site hsite => ?_
  obtain ⟨old, version, hedit, hexchanged⟩ :=
    ((h site hsite).editable hof).exists_exchanged hof site.2
  exact ⟨version, hedit, h site hsite, old, hexchanged⟩

/-- **There is a version for each node** whose new text is made of its old one. -/
theorem exists_textVersions (hof : fragment.IsOf span) {nodes : List Tree}
    {change : Tree → String → String} (hedit : ∀ node ∈ nodes, fragment.Editable node)
    (h : ∀ node ∈ nodes, ∀ old, fragment.textOf? node = some old →
      fragment.Exchange target node (change node old)) :
    ∃ sites versions,
      nodes.mapM (fun n => (fragment.textOf? n).map fun text => (n, change n text)) = some sites
        ∧ exchangeEach fragment span sites = some versions
        ∧ List.Forall₂ (fun node version => ∃ old,
          fragment.Exchange target node (change node old)
            ∧ fragment.Exchanged span node old (change node old) version) nodes versions := by
  have hsite : ∀ node ∈ nodes, ∃ site,
      (fragment.textOf? node).map (fun text => (node, change node text)) = some site
        ∧ ∃ old, fragment.textOf? node = some old ∧ site = (node, change node old)
          ∧ fragment.Exchange target node (change node old) := by
    intro node hnode
    obtain ⟨old, hold⟩ := (hedit node hnode).exists_textOf?
    exact ⟨(node, change node old), by rw [hold]; rfl, old, hold, rfl, h node hnode old hold⟩
  obtain ⟨sites, hsites, hnodes⟩ := exists_mapM_forall₂ hsite
  have hexchange : ∀ site ∈ sites, fragment.Exchange target site.1 site.2 := by
    intro site hsite
    obtain ⟨node, -, old, -, rfl, hexchange⟩ := exists_mem_left hnodes hsite
    exact hexchange
  obtain ⟨versions, hversions, hall⟩ := exists_versions hof hexchange
  refine ⟨sites, versions, hsites, hversions, (forall₂_comp hnodes hall).imp ?_⟩
  rintro node version ⟨_, ⟨old, hold, rfl, hexchange⟩, -, old', hexchanged⟩
  obtain rfl := Option.some.inj (hold.symm.trans hexchanged.text)
  exact ⟨old, hexchange, hexchanged⟩

end Versions

end Fragment

/-! ## The versions of each operator -/

section Generators

variable {target : Target} {span : String} {fragment : Fragment} {body : Tree}

theorem withDeclaration_eq
    (hparse : Fragment.parse? span (target.kind != .typeDeclaration) = some fragment)
    (generate : Fragment → Tree → Option (List String)) :
    withDeclaration target span generate = generate fragment fragment.declaration := by
  unfold withDeclaration
  rw [hparse]

/-- **The versions with an operator swapped** are as many as there are comparisons
with such an operator. -/
theorem versions_swapOperators
    (hparse : Fragment.parse? span (target.kind != .typeDeclaration) = some fragment)
    {swap : Punct → Option Punct} (hswap : swap = acrossBoundary? ∨ swap = otherEquality?) :
    ∃ versions, swapOperators swap target span = some versions
      ∧ List.Forall₂ (fun site version => fragment.Exchange target site.1 site.2
        ∧ ∃ old, fragment.Exchanged span site.1 old site.2 version)
        (fragment.declaration.preorder.filterMap (operatorSite? swap)) versions := by
  unfold swapOperators
  rw [withDeclaration_eq hparse]
  refine Fragment.exists_versions (Fragment.isOf_of_parse? hparse) fun site hsite => ?_
  obtain ⟨node, hnode, hsome⟩ := List.mem_filterMap.1 hsite
  exact .swapped hswap hnode hsome

/-- **The versions with a condition negated** are as many as there are conditions. -/
theorem versions_negateCondition
    (hparse : Fragment.parse? span (target.kind != .typeDeclaration) = some fragment) :
    ∃ versions, negateCondition target span = some versions
      ∧ List.Forall₂ (fun node version => ∃ old,
          fragment.Exchange target node (negated node old)
            ∧ fragment.Exchanged span node old (negated node old) version)
        (fragment.declaration.preorder.filterMap condition?) versions := by
  have hof := Fragment.isOf_of_parse? hparse
  have hedit : ∀ node ∈ fragment.declaration.preorder.filterMap condition?,
      fragment.Editable node := by
    intro node hnode
    obtain ⟨parent, hparent, hsome⟩ := List.mem_filterMap.1 hnode
    exact hof.editable_condition hparent hsome
  have hexchange : ∀ node ∈ fragment.declaration.preorder.filterMap condition?, ∀ old,
      fragment.textOf? node = some old → fragment.Exchange target node (negated node old) := by
    intro node hnode old hold
    obtain ⟨parent, hparent, hsome⟩ := List.mem_filterMap.1 hnode
    exact .condition hparent hsome hold
  obtain ⟨sites, versions, hsites, hversions, hall⟩ :=
    Fragment.exists_textVersions hof hedit hexchange
  unfold negateCondition
  rw [withDeclaration_eq hparse]
  exact ⟨versions, by simp [hsites, hversions], hall⟩

/-- **The versions with a returned value negated** are as many as there are such
values. -/
theorem versions_negateReturn
    (hparse : Fragment.parse? span (target.kind != .typeDeclaration) = some fragment)
    (htype : ReturnType.ofDeclaration fragment.declaration = .boolean)
    (hbody : fragment.declaration.child? .body = some body) :
    ∃ versions, negateReturn target span = some versions
      ∧ List.Forall₂ (fun node version => ∃ old,
          fragment.Exchange target node ("!(" ++ old ++ ")")
            ∧ fragment.Exchanged span node old ("!(" ++ old ++ ")") version)
        (returnedValues body) versions := by
  have hof := Fragment.isOf_of_parse? hparse
  have hexchange : ∀ value ∈ returnedValues body, ∀ old, fragment.textOf? value = some old →
      fragment.Exchange target value ("!(" ++ old ++ ")") :=
    fun _ hvalue _ hold => .returned hbody hvalue hold
  obtain ⟨sites, versions, hsites, hversions, hall⟩ := Fragment.exists_textVersions hof
    (fun value hvalue => hof.editable_body hbody (mem_of_mem_returnedValues hvalue)) hexchange
  unfold negateReturn
  rw [withDeclaration_eq hparse]
  exact ⟨versions, by simp [htype, hbody, hsites, hversions], hall⟩

/-- **The versions with a body emptied** are as many as there are bodies for it. -/
theorem versions_emptyBody
    (hparse : Fragment.parse? span (target.kind != .typeDeclaration) = some fragment)
    (hbody : fragment.declaration.child? .body = some body) :
    ∃ bodies versions, emptied? target fragment fragment.declaration body = some bodies
      ∧ emptyBody target span = some versions
      ∧ List.Forall₂ (fun new version => fragment.Exchange target body new
          ∧ ∃ old, fragment.Exchanged span body old new version) bodies versions := by
  have hof := Fragment.isOf_of_parse? hparse
  obtain ⟨bodies, hbodies⟩ := exists_emptied? target span hof hbody
  have hexchange : ∀ site ∈ bodies.map fun b => (body, b),
      fragment.Exchange target site.1 site.2 := by
    intro site hsite
    obtain ⟨b, hb, rfl⟩ := List.mem_map.1 hsite
    exact .emptied hbody hbodies hb
  obtain ⟨versions, hversions, hall⟩ := Fragment.exists_versions hof hexchange
  refine ⟨bodies, versions, hbodies, ?_, List.forall₂_map_left_iff.1 hall⟩
  unfold emptyBody
  rw [withDeclaration_eq hparse]
  simp [hbody, hbodies, hversions]

/-- **The versions that return a default value** are as many as there are such
values. -/
theorem versions_defaultReturn
    (hparse : Fragment.parse? span (target.kind != .typeDeclaration) = some fragment)
    (hbody : fragment.declaration.child? .body = some body) :
    ∃ versions, defaultReturn target span = some versions
      ∧ List.Forall₂ (fun value version =>
          fragment.Exchange target body (blockOf ("return " ++ value ++ ";"))
            ∧ ∃ old, fragment.Exchanged span body old (blockOf ("return " ++ value ++ ";")) version)
        (ReturnType.ofDeclaration fragment.declaration).defaults versions := by
  have hof := Fragment.isOf_of_parse? hparse
  have hexchange : ∀ site ∈ (ReturnType.ofDeclaration fragment.declaration).defaults.map
      fun value => (body, blockOf ("return " ++ value ++ ";")),
      fragment.Exchange target site.1 site.2 := by
    intro site hsite
    obtain ⟨value, hvalue, rfl⟩ := List.mem_map.1 hsite
    exact .default hbody hvalue
  obtain ⟨versions, hversions, hall⟩ := Fragment.exists_versions hof hexchange
  refine ⟨versions, ?_, List.forall₂_map_left_iff.1 hall⟩
  unfold defaultReturn
  rw [withDeclaration_eq hparse]
  simp [hbody, hversions]

end Generators

/-! ## All operators -/

/-- **Versions are one exchange each**: there is one for each of some nodes of the
declaration, in their order, and every one of these nodes lies in the text. -/
def Fragment.HasVersions (target : Target) (span : String) (fragment : Fragment)
    (versions : List String) : Prop :=
  ∃ nodes, List.Forall₂ (fun node version => ∃ old new, fragment.Exchange target node new
      ∧ fragment.Exchanged span node old new version) nodes versions
    ∧ ∀ node ∈ nodes, node ∈ fragment.declaration.preorder ∧ fragment.Editable node

section Generators

variable {target : Target} {span : String} {fragment : Fragment} {versions : List String}

/-- The nodes are what the operators exchange. -/
theorem Fragment.HasVersions.of_forall₂ {α : Type} {xs : List α} {node : α → Tree}
    (hof : fragment.IsOf span)
    (h : List.Forall₂ (fun x version => ∃ old new, fragment.Exchange target (node x) new
      ∧ fragment.Exchanged span (node x) old new version) xs versions) :
    fragment.HasVersions target span versions := by
  refine ⟨xs.map node, List.forall₂_map_left_iff.2 h, fun n hn => ?_⟩
  obtain ⟨x, hx, rfl⟩ := List.mem_map.1 hn
  obtain ⟨version, -, old, new, hexchange, -⟩ := exists_mem_left h.flip hx
  exact ⟨hexchange.mem_preorder, hexchange.editable hof⟩

theorem Fragment.hasVersions_nil : fragment.HasVersions target span [] :=
  ⟨[], .nil, fun _ h => absurd h List.not_mem_nil⟩

theorem exists_hasVersions_swapOperators
    (hparse : Fragment.parse? span (target.kind != .typeDeclaration) = some fragment)
    {swap : Punct → Option Punct} (hswap : swap = acrossBoundary? ∨ swap = otherEquality?) :
    ∃ versions, swapOperators swap target span = some versions
      ∧ fragment.HasVersions target span versions := by
  obtain ⟨versions, hversions, hall⟩ := versions_swapOperators hparse hswap
  exact ⟨versions, hversions, .of_forall₂ (Fragment.isOf_of_parse? hparse)
    (hall.imp fun _ _ ⟨hexchange, old, hexchanged⟩ => ⟨old, _, hexchange, hexchanged⟩)⟩

theorem exists_hasVersions_negateCondition
    (hparse : Fragment.parse? span (target.kind != .typeDeclaration) = some fragment) :
    ∃ versions, negateCondition target span = some versions
      ∧ fragment.HasVersions target span versions := by
  obtain ⟨versions, hversions, hall⟩ := versions_negateCondition hparse
  exact ⟨versions, hversions, .of_forall₂ (Fragment.isOf_of_parse? hparse)
    (hall.imp fun _ _ ⟨old, hexchange, hexchanged⟩ => ⟨old, _, hexchange, hexchanged⟩)⟩

theorem exists_hasVersions_negateReturn
    (hparse : Fragment.parse? span (target.kind != .typeDeclaration) = some fragment) :
    ∃ versions, negateReturn target span = some versions
      ∧ fragment.HasVersions target span versions := by
  by_cases htype : ReturnType.ofDeclaration fragment.declaration = .boolean
  · cases hbody : fragment.declaration.child? .body with
    | some body =>
      obtain ⟨versions, hversions, hall⟩ := versions_negateReturn hparse htype hbody
      exact ⟨versions, hversions, .of_forall₂ (Fragment.isOf_of_parse? hparse)
        (hall.imp fun _ _ ⟨old, hexchange, hexchanged⟩ => ⟨old, _, hexchange, hexchanged⟩)⟩
    | none =>
      refine ⟨[], ?_, Fragment.hasVersions_nil⟩
      unfold negateReturn
      rw [withDeclaration_eq hparse]
      simp [hbody]
  · refine ⟨[], ?_, Fragment.hasVersions_nil⟩
    unfold negateReturn
    rw [withDeclaration_eq hparse]
    simp [htype]

theorem exists_hasVersions_emptyBody
    (hparse : Fragment.parse? span (target.kind != .typeDeclaration) = some fragment) :
    ∃ versions, emptyBody target span = some versions
      ∧ fragment.HasVersions target span versions := by
  cases hbody : fragment.declaration.child? .body with
  | some body =>
    obtain ⟨bodies, versions, -, hversions, hall⟩ := versions_emptyBody hparse hbody
    exact ⟨versions, hversions, .of_forall₂ (Fragment.isOf_of_parse? hparse)
      (hall.imp fun _ _ ⟨hexchange, old, hexchanged⟩ => ⟨old, _, hexchange, hexchanged⟩)⟩
  | none =>
    refine ⟨[], ?_, Fragment.hasVersions_nil⟩
    unfold emptyBody
    rw [withDeclaration_eq hparse]
    simp [hbody]

theorem exists_hasVersions_defaultReturn
    (hparse : Fragment.parse? span (target.kind != .typeDeclaration) = some fragment) :
    ∃ versions, defaultReturn target span = some versions
      ∧ fragment.HasVersions target span versions := by
  cases hbody : fragment.declaration.child? .body with
  | some body =>
    obtain ⟨versions, hversions, hall⟩ := versions_defaultReturn hparse hbody
    exact ⟨versions, hversions, .of_forall₂ (Fragment.isOf_of_parse? hparse)
      (hall.imp fun _ _ ⟨hexchange, old, hexchanged⟩ => ⟨old, _, hexchange, hexchanged⟩)⟩
  | none =>
    refine ⟨[], ?_, Fragment.hasVersions_nil⟩
    unfold defaultReturn
    rw [withDeclaration_eq hparse]
    simp [hbody]

end Generators

/-- **Built-in operators give one exchange for each site and never give up**, whatever
the text is and whatever the target is. A text that cannot be parsed on its own has no
versions. Any other has one for each of some nodes of the declaration, be that the
declaration of the text or what was put around it: each of these nodes lies in the text
between two of its characters, and its version is the text with just the range of that
node exchanged. -/
theorem Registry.generate_exchanges {o : Operator} (ho : o ∈ builtin.operators)
    (target : Target) (span : String) :
    ∃ versions, o.generate target span = some versions
      ∧ (Fragment.parse? span (target.kind != .typeDeclaration) = none → versions = [])
      ∧ ∀ fragment, Fragment.parse? span (target.kind != .typeDeclaration) = some fragment →
        fragment.IsOf span ∧ fragment.HasVersions target span versions := by
  cases hparse : Fragment.parse? span (target.kind != .typeDeclaration) with
  | none =>
    have hnil : ∀ generate, withDeclaration target span generate = some [] := fun generate => by
      unfold withDeclaration
      rw [hparse]
    refine ⟨[], ?_, fun _ => rfl, by simp⟩
    simp only [builtin, List.mem_cons, List.not_mem_nil, or_false] at ho
    rcases ho with rfl | rfl | rfl | rfl | rfl | rfl <;>
      simp only [emptyBody, defaultReturn, negateReturn, relationalBoundary, negateCondition,
        flipEquality, swapOperators, hnil]
  | some fragment =>
    have hversions : ∃ versions, o.generate target span = some versions
        ∧ fragment.HasVersions target span versions := by
      simp only [builtin, List.mem_cons, List.not_mem_nil, or_false] at ho
      rcases ho with rfl | rfl | rfl | rfl | rfl | rfl
      · exact exists_hasVersions_emptyBody hparse
      · exact exists_hasVersions_defaultReturn hparse
      · exact exists_hasVersions_negateReturn hparse
      · exact exists_hasVersions_swapOperators hparse (.inl rfl)
      · exact exists_hasVersions_negateCondition hparse
      · exact exists_hasVersions_swapOperators hparse (.inr rfl)
    obtain ⟨versions, hgenerate, hhas⟩ := hversions
    refine ⟨versions, hgenerate, by simp, ?_⟩
    rintro _ ⟨⟩
    exact ⟨Fragment.isOf_of_parse? hparse, hhas⟩

/-- A text that ends the class around it and begins another one: what covers it is the
program, and the comparison in the other class is found. -/
theorem Registry.generate_exchanges_unbalanced :
    let span := "int f() \x7b\x7d \x7d class B \x7b boolean g() \x7b return a < b; \x7d"
    let version := "int f() \x7b\x7d \x7d class B \x7b boolean g() \x7b return a <= b; \x7d"
    let target : Target := ⟨.method, "f", 0, Text.size span, 0, true, false⟩
    ∃ o ∈ builtin.operators, o.tag = "relational_boundary"
      ∧ ∃ fragment, Fragment.parse? span true = some fragment
        ∧ fragment.declaration.isA .program = true
        ∧ o.generate target span = some [version]
        ∧ fragment.HasVersions target span [version] := by
  intro span version target
  let o : Operator := builtin.operators[3]
  have ho : o ∈ builtin.operators := List.getElem_mem _
  have hall : ((Fragment.parse? span true).map fun f => f.declaration.isA .program) = some true
      ∧ o.generate target span = some [version] := by decide +kernel
  obtain ⟨hsome, hversion⟩ := hall
  obtain ⟨fragment, hfragment, hprogram⟩ := Option.map_eq_some_iff.1 hsome
  obtain ⟨versions, hgenerate, -, hall⟩ := generate_exchanges ho target span
  obtain rfl : versions = [version] := Option.some.inj (hgenerate.symm.trans hversion)
  exact ⟨o, ho, rfl, fragment, hfragment, hprogram, hversion, (hall fragment hfragment).2⟩

end JavaMutants
