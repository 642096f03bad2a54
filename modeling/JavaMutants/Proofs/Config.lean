import JavaMutants.Proofs.Registry
import JavaMutants.Run
import Mathlib.Data.List.Count
import Mathlib.Data.List.TakeWhile

/-!
# Configurations that are valid

The tags that a configuration names are looked at twice: when it is checked, where each
tag that no operator has is a problem of its own, and when the registry is selected,
where the first such tag ends it. Both come down to one search through the tags
(`Generator.ofConfig_eq`, `Config.find?_problems`), so a configuration that is checked
without a complaint has a generator, and one that has none is refused with the first
complaint about a tag in the list of problems (`Config.agreement`).

No other problem is a complaint about a tag: all others begin with the key of the
setting they are about, in small letters.
-/

namespace JavaMutants

/-! ## Complaints about tags -/

/-- An error that is the complaint about a tag. -/
def Error.IsUnknownOperator (known : List String) (e : Error) : Prop :=
  ∃ tag, e = Registry.unknownOperator tag known

theorem Registry.unknownOperator_injective (known : List String) :
    Function.Injective fun tag => unknownOperator tag known := by
  intro a b h
  have htext := congrArg String.toList (Error.config.inj h)
  simp only [String.toList_append, List.append_cancel_right_eq] at htext
  exact String.toList_inj.1 (List.append_cancel_left htext)

/-- What begins with another letter is no complaint about a tag. -/
theorem Error.not_isUnknownOperator {known : List String} {message : String}
    (h : message.toList.head? ≠ some 'U') : ¬ IsUnknownOperator known (.config message) := by
  rintro ⟨tag, heq⟩
  rw [Error.config.inj heq] at h
  simp [String.toList_append] at h

/-! ## The generator of a configuration -/

/-- **The generator of a configuration** is found by looking for the first tag that no
operator has. -/
theorem Generator.ofConfig_eq (c : Config) :
    ofConfig c = match c.operators.find? fun t => decide (t ∉ Registry.builtin.tags) with
      | some tag => .error (Registry.unknownOperator tag Registry.builtin.tags)
      | none => .ok
        { markers := c.markers
          registry := ⟨Registry.builtin.operators.filter fun o =>
            decide (c.operators = [] ∨ o.tag ∈ c.operators)⟩
          failFast := c.settings.failFast } := by
  unfold ofConfig Config.registry
  by_cases hnil : c.operators = []
  · rw [hnil]
    rfl
  · rw [Registry.select_of_ne_nil hnil]
    cases c.operators.find? fun t => decide (t ∉ Registry.builtin.tags) with
    | none => simp only [Except.map, hnil, false_or]
    | some tag => rfl

namespace Config

/-! ## The list of problems -/

/-- The names of the markers, with the keys they are given by. -/
def namedMarkers (c : Config) : List (String × String) :=
  [("markers.mutate", c.markers.mutate), ("markers.deprecated", c.markers.deprecated)]

theorem extension_isEmpty (c : Config) :
    c.extension.isEmpty = c.settings.extension.toList.all (· == '.') := by
  rw [Bool.eq_iff_iff]
  simp [extension, String.isEmpty_iff, List.dropWhile_eq_nil_iff]

/-- What is wrong with a configuration apart from its tags. -/
def settingProblems (c : Config) : List Error :=
  (c.namedMarkers.filter fun (_, name) => !isIdentifier name).map
      (fun (key, name) => .config (key ++ " '" ++ name ++ "' is not a Java identifier"))
    ++ (if c.markers.mutate = c.markers.deprecated then
        [.config "markers.mutate and markers.deprecated must differ"] else [])
    ++ (if c.settings.extension.toList.all (· == '.') then
        [.config "settings.extension must not be empty"] else [])

/-- **The problems of a configuration**: those with its settings, and then one for each
tag that is not known. -/
theorem problems_eq (c : Config) (known : List String) :
    c.problems known = c.settingProblems
      ++ (c.operators.filter fun t => decide (t ∉ known)).map
        fun t => Registry.unknownOperator t known := by
  have hmarkers : (c.namedMarkers.filter fun (_, name) => !isIdentifier name).map
      (fun (key, name) => Error.config (key ++ " '" ++ name ++ "' is not a Java identifier"))
      = (markerProblem? "markers.mutate" c.markers.mutate).toList
        ++ (markerProblem? "markers.deprecated" c.markers.deprecated).toList := by
    cases hmutate : isIdentifier c.markers.mutate <;>
      cases hdeprecated : isIdentifier c.markers.deprecated <;>
      simp [namedMarkers, markerProblem?, hmutate, hdeprecated]
  unfold problems settingProblems
  rw [hmarkers]
  simp only [beq_iff_eq, extension_isEmpty, List.contains_eq_mem, decide_not]

theorem not_isUnknownOperator_of_mem_settingProblems {c : Config} {known : List String} {e : Error}
    (h : e ∈ c.settingProblems) : ¬ e.IsUnknownOperator known := by
  rcases List.mem_append.1 h with h | h
  · rcases List.mem_append.1 h with h | h
    · obtain ⟨⟨key, name⟩, hkey, rfl⟩ := List.mem_map.1 h
      have hkeys : key = "markers.mutate" ∨ key = "markers.deprecated" := by
        have hnamed := List.mem_of_mem_filter hkey
        simp only [namedMarkers, List.mem_cons, Prod.mk.injEq, List.not_mem_nil, or_false] at hnamed
        exact hnamed.imp And.left And.left
      rcases hkeys with rfl | rfl <;>
        exact Error.not_isUnknownOperator (by simp [String.toList_append])
    · split at h
      · rw [List.mem_singleton.1 h]
        exact Error.not_isUnknownOperator (by decide)
      · exact absurd h List.not_mem_nil
  · split at h
    · rw [List.mem_singleton.1 h]
      exact Error.not_isUnknownOperator (by decide)
    · exact absurd h List.not_mem_nil

open Classical in
/-- **The first complaint about a tag** is about the first tag that is not known. -/
theorem find?_problems (c : Config) (known : List String) :
    (c.problems known).find? (fun e => decide (e.IsUnknownOperator known))
      = (c.operators.find? fun t => decide (t ∉ known)).map
        fun t => Registry.unknownOperator t known := by
  have hsettings : c.settingProblems.find? (fun e => decide (e.IsUnknownOperator known))
      = none := by
    rw [List.find?_eq_none]
    intro e he
    simpa using not_isUnknownOperator_of_mem_settingProblems he
  have htags (ts : List String) : (ts.map fun t => Registry.unknownOperator t known).find?
      (fun e => decide (e.IsUnknownOperator known))
      = ts.head?.map fun t => Registry.unknownOperator t known := by
    cases ts with
    | nil => rfl
    | cons t ts =>
      exact List.find?_cons_of_pos (decide_eq_true ⟨t, rfl⟩)
  rw [problems_eq, List.find?_append, hsettings, Option.none_or, htags, List.head?_filter]

/-- **A tag that is not known is complained about each time it is named.** -/
theorem count_problems (c : Config) (known : List String) (t : String) :
    (c.problems known).count (Registry.unknownOperator t known)
      = if t ∈ known then 0 else c.operators.count t := by
  have hsettings : c.settingProblems.count (Registry.unknownOperator t known) = 0 :=
    List.count_eq_zero_of_not_mem fun hmem =>
      not_isUnknownOperator_of_mem_settingProblems hmem ⟨t, rfl⟩
  rw [problems_eq, List.count_append, hsettings, Nat.zero_add,
    List.count_map_of_injective _ _ (Registry.unknownOperator_injective known)]
  split
  next hknown =>
    refine List.count_eq_zero_of_not_mem fun hmem => ?_
    simpa [hknown] using (List.mem_filter.1 hmem).2
  next hnew => exact List.count_filter (decide_eq_true hnew)

/-! ## Validation and selection -/

/-- **The generator of a valid configuration.** -/
theorem ofConfig_of_problems_eq_nil {c : Config} (h : c.problems Registry.builtin.tags = []) :
    Generator.ofConfig c = .ok
      { markers := c.markers
        registry := ⟨Registry.builtin.operators.filter fun o =>
          decide (c.operators = [] ∨ o.tag ∈ c.operators)⟩
        failFast := c.settings.failFast } := by
  have hfind := find?_problems c Registry.builtin.tags
  rw [h] at hfind
  rw [Generator.ofConfig_eq, Option.map_eq_none_iff.1 hfind.symm]

/-- **A valid configuration has a generator.** -/
theorem exists_generator_of_problems {c : Config} (h : c.problems Registry.builtin.tags = []) :
    ∃ g, Generator.ofConfig c = .ok g :=
  ⟨_, ofConfig_of_problems_eq_nil h⟩

/-- **What the problems of a configuration tell of its generator.** -/
structure Agreement (c : Config) (problems : List Error) : Prop where
  /-- Without problems there is a generator, with the operators that are named and, if
  none are, with all, in the order of the built-in ones. -/
  generator : problems = [] → Generator.ofConfig c = .ok
    { markers := c.markers
      registry := ⟨Registry.builtin.operators.filter fun o =>
        decide (c.operators = [] ∨ o.tag ∈ c.operators)⟩
      failFast := c.settings.failFast }
  /-- There is none if a problem is the complaint about a tag. -/
  refused : (∃ e, Generator.ofConfig c = .error e)
    ↔ ∃ e ∈ problems, e.IsUnknownOperator Registry.builtin.tags
  /-- What is said then is the first such complaint. -/
  first : ∀ e, Generator.ofConfig c = .error e ↔ e.IsUnknownOperator Registry.builtin.tags
    ∧ ∃ before after, problems = before ++ e :: after
      ∧ ∀ e' ∈ before, ¬ e'.IsUnknownOperator Registry.builtin.tags
  /-- It is an error of the configuration. -/
  config : ∀ e, Generator.ofConfig c = .error e → ∃ message, e = .config message
  /-- The problems are, in this order: one for each marker that is no identifier, one if
  the markers are equal, one if the extension consists of dots, and one for each tag that
  is not known. -/
  listed : problems
    = (c.namedMarkers.filter fun (_, name) => !isIdentifier name).map
        (fun (key, name) => .config (key ++ " '" ++ name ++ "' is not a Java identifier"))
      ++ (if c.markers.mutate = c.markers.deprecated then
          [.config "markers.mutate and markers.deprecated must differ"] else [])
      ++ (if c.settings.extension.toList.all (· == '.') then
          [.config "settings.extension must not be empty"] else [])
      ++ (c.operators.filter fun t => decide (t ∉ Registry.builtin.tags)).map
        fun t => Registry.unknownOperator t Registry.builtin.tags
  /-- A tag that is not known is complained about each time it is named. -/
  count : ∀ t, problems.count (Registry.unknownOperator t Registry.builtin.tags)
    = if t ∈ Registry.builtin.tags then 0 else c.operators.count t

open Classical in
/-- **Validation and selection agree**, for every configuration. -/
theorem agreement (c : Config) : Agreement c (c.problems Registry.builtin.tags) := by
  have hfind := find?_problems c Registry.builtin.tags
  have herror (e : Error) : Generator.ofConfig c = .error e
      ↔ (c.problems Registry.builtin.tags).find?
        (fun e => decide (e.IsUnknownOperator Registry.builtin.tags)) = some e := by
    rw [hfind, Generator.ofConfig_eq]
    cases c.operators.find? fun t => decide (t ∉ Registry.builtin.tags) <;> simp
  refine ⟨ofConfig_of_problems_eq_nil, ?_, fun e => ?_, fun e he => ?_, problems_eq c _,
    count_problems c _⟩
  · simp only [herror, ← Option.isSome_iff_exists, List.find?_isSome, decide_eq_true_iff]
  · rw [herror, List.find?_eq_some_iff_append]
    simp
  · obtain ⟨hunknown, -⟩ := List.find?_eq_some_iff_append.1 ((herror e).1 he)
    obtain ⟨tag, rfl⟩ := of_decide_eq_true hunknown
    exact ⟨_, rfl⟩

/-- Everything that can be wrong at once. -/
example : (problems { markers := ⟨"1a", "1a"⟩, operators := ["flip", "empty_body", "flip"]
                      settings := { extension := ".." } } ["empty_body"]).map Error.message
    = ["Configuration error: markers.mutate '1a' is not a Java identifier",
      "Configuration error: markers.deprecated '1a' is not a Java identifier",
      "Configuration error: markers.mutate and markers.deprecated must differ",
      "Configuration error: settings.extension must not be empty",
      "Configuration error: Unknown operator 'flip'\n  Available operators: empty_body",
      "Configuration error: Unknown operator 'flip'\n  Available operators: empty_body"] := by
  decide

end Config

end JavaMutants
