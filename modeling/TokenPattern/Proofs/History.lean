import TokenPattern.Proofs.FirstOccurrences
import TokenPattern.RuleSet

/-!
Of all insertions with one name only the first has an effect, and of the options only the last are
left, with every rule as well as with the set. So a history can be replayed in a short form.
-/

namespace TokenPattern.RuleSet

inductive Operation where
  | insert (name : String) (pattern : Pattern)
  | withOptions (options : MatchOptions)

/-- The set after an operation. An insertion that is refused leaves it as it is. -/
def after (set : RuleSet) : Operation → RuleSet
  | .insert name pattern =>
      match set.insert name pattern with
      | .ok larger => larger
      | .error _ => set
  | .withOptions options => set.withOptions options

def run (history : List Operation) : RuleSet := history.foldl after empty

def insertions (history : List Operation) : List (String × Pattern) :=
  history.filterMap fun
    | .insert name pattern => some (name, pattern)
    | .withOptions _ => none

def namesOf (entries : List (String × Pattern)) : List String := entries.map Prod.fst

def firstNamed (entries : List (String × Pattern)) (name : String) : Option (String × Pattern) :=
  entries.find? fun entry => entry.1 == name

/-- Each name once, in the order in which the names come up first, with its first pattern. -/
def firsts (entries : List (String × Pattern)) : List (String × Pattern) :=
  (namesOf entries).eraseDups.filterMap (firstNamed entries)

def lastOptions (history : List Operation) : MatchOptions :=
  (history.filterMap fun
    | .insert _ _ => none
    | .withOptions options => some options).getLast?.getD {}

/-- The last options, and then every name with its first pattern. -/
def shortened (history : List Operation) : List Operation :=
  .withOptions (lastOptions history) ::
    (firsts (insertions history)).map fun entry => .insert entry.1 entry.2

section Firsts

variable {entries : List (String × Pattern)} {name : String}

theorem firstNamed_eq_none_iff : firstNamed entries name = none ↔ name ∉ namesOf entries := by
  simp only [firstNamed, List.find?_eq_none, beq_iff_eq, namesOf, List.mem_map, not_exists, not_and]

theorem name_of_firstNamed {entry : String × Pattern}
    (found : firstNamed entries name = some entry) : entry.1 = name := by
  simpa using List.find?_some found

theorem firstNamed_append (entries later : List (String × Pattern)) (name : String) :
    firstNamed (entries ++ later) name =
      (firstNamed entries name).or (firstNamed later name) := by
  rw [firstNamed, List.find?_append]
  rfl

theorem firstNamed_cons (entry : String × Pattern) (entries : List (String × Pattern))
    (name : String) :
    firstNamed (entry :: entries) name =
      if entry.1 = name then some entry else firstNamed entries name := by
  by_cases same : entry.1 = name <;> simp [firstNamed, same]

theorem namesOf_firsts (entries : List (String × Pattern)) :
    namesOf (firsts entries) = (namesOf entries).eraseDups := by
  have each : ∀ names : List String, (∀ name ∈ names, name ∈ namesOf entries) →
      namesOf (names.filterMap (firstNamed entries)) = names := by
    intro names known
    induction names with
    | nil => rfl
    | cons name names rest =>
        have tail := rest fun other member => known other (List.mem_cons_of_mem _ member)
        cases found : firstNamed entries name with
        | none => exact absurd (known name List.mem_cons_self) (firstNamed_eq_none_iff.mp found)
        | some entry =>
            rw [List.filterMap_cons_some found, namesOf, List.map_cons, name_of_firstNamed found]
            exact congrArg _ tail
  exact each _ fun name member => List.mem_eraseDups.mp member

theorem firstNamed_firsts (entries : List (String × Pattern)) (name : String) :
    firstNamed (firsts entries) name = firstNamed entries name := by
  have each : ∀ names : List String, firstNamed (names.filterMap (firstNamed entries)) name =
      if name ∈ names then firstNamed entries name else none := by
    intro names
    induction names with
    | nil => rfl
    | cons other names rest =>
        by_cases same : other = name
        · subst same
          cases found : firstNamed entries other with
          | none => simp [List.filterMap_cons_none found, rest, found]
          | some entry =>
              simp [List.filterMap_cons_some found, firstNamed_cons, name_of_firstNamed found]
        · cases found : firstNamed entries other with
          | none => simp [List.filterMap_cons_none found, rest, Ne.symm same]
          | some entry =>
              simp [List.filterMap_cons_some found, firstNamed_cons, name_of_firstNamed found, rest,
                same, Ne.symm same]
  rw [firsts, each]
  by_cases known : name ∈ namesOf entries
  · rw [if_pos (List.mem_eraseDups.mpr known)]
  · rw [if_neg fun member => known (List.mem_eraseDups.mp member)]
    exact (firstNamed_eq_none_iff.mpr known).symm

theorem firsts_concat (entries : List (String × Pattern)) (name : String) (pattern : Pattern) :
    firsts (entries ++ [(name, pattern)]) =
      if name ∈ namesOf entries then firsts entries else firsts entries ++ [(name, pattern)] := by
  have earlier : (namesOf entries).eraseDups.filterMap
      (firstNamed (entries ++ [(name, pattern)])) = firsts entries := by
    apply List.filterMap_congr
    intro other member
    rw [firstNamed_append]
    cases found : firstNamed entries other with
    | none =>
        exact absurd (List.mem_eraseDups.mp member) (firstNamed_eq_none_iff.mp found)
    | some entry => rfl
  have names : namesOf (entries ++ [(name, pattern)]) = namesOf entries ++ [name] := by
    simp [namesOf]
  rw [firsts, names, List.eraseDups_append, List.filterMap_append, earlier]
  by_cases known : name ∈ namesOf entries
  · simp [known, List.removeAll]
  · have fresh : firstNamed entries name = none := firstNamed_eq_none_iff.mpr known
    have single : [name].eraseDups = [name] := rfl
    simp [known, List.removeAll, single, firstNamed_append, firstNamed_cons, fresh]

theorem firsts_firsts (entries : List (String × Pattern)) :
    firsts (firsts entries) = firsts entries := by
  rw [firsts, namesOf_firsts, List.eraseDups_of_nodup (List.nodup_eraseDups _)]
  apply List.filterMap_congr
  intro name member
  exact firstNamed_firsts entries name

end Firsts

def entries (set : RuleSet) : List (String × Pattern) :=
  set.rules.map fun rule => (rule.name, rule.pattern)

section Entries

variable {set other : RuleSet} {name : String} {pattern : Pattern}

theorem names_eq (set : RuleSet) : set.names = namesOf set.entries := by
  simp [names, namesOf, entries]

theorem get?_eq (set : RuleSet) (name : String) :
    set.get? name = (firstNamed set.entries name).map Prod.snd := by
  simp [get?, firstNamed, entries, List.find?_map, Function.comp_def]

theorem entries_withOptions (set : RuleSet) (options : MatchOptions) :
    (set.withOptions options).entries = set.entries := by
  simp [withOptions, entries, Rule.withOptions, Rule.pattern]

theorem entries_insert (set : RuleSet) (name : String) (pattern : Pattern) :
    (set.after (.insert name pattern)).entries =
      if name ∈ namesOf set.entries then set.entries else set.entries ++ [(name, pattern)] := by
  rw [← names_eq]
  by_cases taken : name ∈ set.names <;> simp [after, insert, taken, entries, Rule.pattern]

theorem options_insert (set : RuleSet) (name : String) (pattern : Pattern) :
    (set.after (.insert name pattern)).options = set.options := by
  by_cases taken : name ∈ set.names <;> simp [after, insert, taken]

theorem rules_eq (set : RuleSet) :
    set.rules = set.entries.map fun entry => ⟨entry.1, entry.2, set.options⟩ := by
  have each : ∀ rule ∈ set.rules, (⟨rule.name, rule.pattern, set.options⟩ : Rule) = id rule := by
    intro rule member
    rw [← set.agreed rule member]
    rfl
  rw [entries, List.map_map]
  calc
    set.rules = set.rules.map id := (List.map_id _).symm
    _ = set.rules.map fun rule => ⟨rule.name, rule.pattern, set.options⟩ :=
      (List.map_congr_left each).symm

theorem ext_entries (same : set.entries = other.entries) (options : set.options = other.options) :
    set = other := by
  have rules : set.rules = other.rules := by
    rw [set.rules_eq, other.rules_eq, same, options]
  cases set
  cases other
  simp_all

end Entries

section Run

variable (history : List Operation)

theorem run_concat (operation : Operation) :
    run (history ++ [operation]) = (run history).after operation := by
  rw [run, List.foldl_append]
  rfl

theorem entries_run : (run history).entries = firsts (insertions history) := by
  induction history using List.reverseRecOn with
  | nil => rfl
  | append_singleton history operation past =>
      cases operation with
      | withOptions options =>
          have same : insertions (history ++ [.withOptions options]) = insertions history := by
            simp [insertions]
          rw [run_concat, after, entries_withOptions, past, same]
      | insert name pattern =>
          have more : insertions (history ++ [.insert name pattern]) =
              insertions history ++ [(name, pattern)] := by
            simp [insertions]
          rw [run_concat, entries_insert, past, namesOf_firsts, more, firsts_concat]
          simp only [List.mem_eraseDups]

theorem options_run : (run history).options = lastOptions history := by
  induction history using List.reverseRecOn with
  | nil => rfl
  | append_singleton history operation past =>
      rw [run_concat]
      cases operation with
      | withOptions options => simp [after, withOptions, lastOptions]
      | insert name pattern =>
          rw [options_insert, past]
          simp [lastOptions]

theorem names_run : (run history).names = (namesOf (insertions history)).eraseDups := by
  rw [names_eq, entries_run, namesOf_firsts]

theorem insertions_shortened : insertions (shortened history) = firsts (insertions history) := by
  simp [shortened, insertions, List.filterMap_map]

theorem lastOptions_shortened : lastOptions (shortened history) = lastOptions history := by
  simp [shortened, lastOptions, List.filterMap_map]

theorem run_shortened : run (shortened history) = run history := by
  apply ext_entries
  · rw [entries_run, entries_run, insertions_shortened, firsts_firsts]
  · rw [options_run, options_run, lastOptions_shortened]

end Run

/-- What a set of rules shows of the history that led to it. -/
structure Records (set : RuleSet) (history : List Operation) : Prop where
  refused : ∀ name pattern error, set.insert name pattern = .error error ↔
    name ∈ namesOf (insertions history) ∧ error = ⟨name⟩
  unchanged : ∀ name pattern, name ∈ namesOf (insertions history) →
    set.after (.insert name pattern) = set
  distinct : set.names.Nodup
  names : set.names = (namesOf (insertions history)).eraseDups
  size : set.size = set.names.length
  get : ∀ name, set.get? name = (firstNamed (insertions history) name).map Prod.snd
  options : set.options = lastOptions history
  matchers : ∀ rule ∈ set.rules, rule.matcher.options = set.options

theorem records_run (history : List Operation) : (run history).Records history := by
  have known : ∀ name, name ∈ (run history).names ↔ name ∈ namesOf (insertions history) := by
    intro name
    rw [names_run, List.mem_eraseDups]
  constructor
  · intro name pattern error
    rw [insert_eq_error_iff, known]
  · intro name pattern taken
    rw [after, insert_eq_error_iff.mpr ⟨(known name).mpr taken, rfl⟩]
  · exact (run history).distinct
  · exact names_run history
  · simp [size, RuleSet.names]
  · intro name
    rw [get?_eq, entries_run, firstNamed_firsts]
  · exact options_run history
  · exact (run history).agreed

/-- Whatever has been done to a set, it is what its first insertions and its last options make of
it, and it matches and scans accordingly. -/
theorem history_irrelevant (history : List Operation) :
    (run history).Records history ∧ ∀ tokens,
      (∀ offset, (run history).matchAt tokens offset =
        (run (shortened history)).matchAt tokens offset) ∧
      (run history).scan tokens = (run (shortened history)).scan tokens := by
  rw [run_shortened]
  exact ⟨records_run history, fun tokens => ⟨fun offset => rfl, rfl⟩⟩

example :
    (run [.insert "a" .any, .withOptions ⟨true, false⟩, .insert "a" (.keyword "END"),
      .insert "b" (.keyword "END")]).rules =
        [⟨"a", .any, ⟨true, false⟩⟩, ⟨"b", .keyword "END", ⟨true, false⟩⟩] := by
  rfl

end TokenPattern.RuleSet
