import Mathlib.Data.List.Basic
import TokenPattern.Proofs.Scanning
import TokenPattern.RuleSet

namespace TokenPattern.RuleSet

variable {set : RuleSet} {tokens : List Token} {offset : Nat}

/-- The rule is the first of the set with a wanted match at the offset, and this is its match. -/
def First (set : RuleSet) (tokens : List Token) (offset : Nat) (wanted : Span → Prop)
    (rule : Rule) (span : Span) : Prop :=
  ∃ before after, set.rules = before ++ rule :: after ∧
    (set.matcher rule).matchAt tokens offset = some span ∧ wanted span ∧
    ∀ earlier ∈ before, ∀ other,
      (set.matcher earlier).matchAt tokens offset = some other → ¬ wanted other

def Any (set : RuleSet) (tokens : List Token) (offset : Nat) (wanted : Span → Prop) : Prop :=
  ∃ rule ∈ set.rules, ∃ span, (set.matcher rule).matchAt tokens offset = some span ∧ wanted span

/-- What a scan reports at an offset that it looks at: the first rule that takes tokens, else the
first that matches empty if this is asked for, else nothing. -/
structure Selects (set : RuleSet) (tokens : List Token) (offset : Nat)
    (items : List (Found String)) : Prop where
  taking : set.Any tokens offset (·.consumed ≠ 0) →
    ∃ rule span, set.First tokens offset (·.consumed ≠ 0) rule span ∧ items = [⟨rule.name, span⟩]
  empty : ¬ set.Any tokens offset (·.consumed ≠ 0) → set.options.reportEmpty = true →
    set.Any tokens offset (·.consumed = 0) →
      ∃ rule, set.First tokens offset (·.consumed = 0) rule ⟨offset, 0⟩ ∧
        items = [⟨rule.name, ⟨offset, 0⟩⟩]
  nothing : ¬ set.Any tokens offset (·.consumed ≠ 0) →
    ¬ (set.options.reportEmpty = true ∧ set.Any tokens offset (·.consumed = 0)) → items = []

theorem First.any {wanted : Span → Prop} {rule : Rule} {span : Span}
    (first : set.First tokens offset wanted rule span) : set.Any tokens offset wanted := by
  rcases first with ⟨before, after, split, matched, kept, -⟩
  exact ⟨rule, by simp [split], span, matched, kept⟩

theorem First.wanted {wanted : Span → Prop} {rule : Rule} {span : Span}
    (first : set.First tokens offset wanted rule span) : wanted span := by
  rcases first with ⟨before, after, -, -, kept, -⟩
  exact kept

section FirstRule

variable {accepted : Nat → Bool} {wanted : Span → Prop}

theorem filter_consume_eq_some_iff {rule : Rule} (inside : offset ≤ tokens.length)
    (agree : ∀ span : Span, accepted span.consumed = true ↔ wanted span) {name : String}
    {taken : Nat} :
    (((set.matcher rule).consume (tokens.drop offset)).filter accepted).map (rule.name, ·) =
        some (name, taken) ↔
      rule.name = name ∧ (set.matcher rule).matchAt tokens offset = some ⟨offset, taken⟩ ∧
        wanted ⟨offset, taken⟩ := by
  rw [Matcher.matchAt_eq_some_iff, ← agree]
  simp only [Option.map_eq_some_iff, Option.filter_eq_some_iff, Prod.mk.injEq, inside, true_and]
  constructor
  · intro found
    rcases found with ⟨_, ⟨matched, kept⟩, named, rfl⟩
    exact ⟨named, matched, kept⟩
  · intro found
    rcases found with ⟨named, matched, kept⟩
    exact ⟨taken, ⟨matched, kept⟩, named, rfl⟩

theorem filter_consume_eq_none_iff {rule : Rule} (inside : offset ≤ tokens.length)
    (agree : ∀ span : Span, accepted span.consumed = true ↔ wanted span) :
    (((set.matcher rule).consume (tokens.drop offset)).filter accepted).map (rule.name, ·) =
        none ↔
      ∀ span, (set.matcher rule).matchAt tokens offset = some span → ¬ wanted span := by
  simp only [Option.map_eq_none_iff, Option.filter_eq_none_iff, Matcher.matchAt_eq_some_iff]
  constructor
  · intro refused span found kept
    rcases found with ⟨-, -, matched⟩
    exact refused _ matched ((agree span).mpr kept)
  · intro refused taken matched kept
    exact refused ⟨offset, taken⟩ ⟨rfl, inside, matched⟩ ((agree ⟨offset, taken⟩).mp kept)

theorem firstRule_eq (set : RuleSet) (accepted : Nat → Bool) (ahead : List Token) :
    set.firstRule accepted ahead = set.rules.findSome? fun rule =>
      (((set.matcher rule).consume ahead).filter accepted).map (rule.name, ·) := by
  rw [firstRule, ← List.head?_filterMap, ← List.head?_filterMap]
  congr 1
  apply List.filterMap_congr
  intro rule member
  rw [matcher_eq member]

theorem firstRule_withOptions (set : RuleSet) (options : MatchOptions) (accepted : Nat → Bool)
    (ahead : List Token) :
    (set.withOptions options).firstRule accepted ahead =
      set.rules.findSome? fun rule =>
        ((rule.pattern.tree.consume options.ignoreCase ahead).filter accepted).map
          (rule.name, ·) := by
  rw [firstRule, withOptions, List.findSome?_map]
  rfl

theorem first_of_firstRule (inside : offset ≤ tokens.length)
    (agree : ∀ span : Span, accepted span.consumed = true ↔ wanted span) {found : String × Nat}
    (chosen : set.firstRule accepted (tokens.drop offset) = some found) :
    ∃ rule, rule.name = found.1 ∧ set.First tokens offset wanted rule ⟨offset, found.2⟩ := by
  rw [firstRule_eq] at chosen
  obtain ⟨before, rule, after, split, taken, refused⟩ := List.findSome?_eq_some_iff.mp chosen
  obtain ⟨named, matched, kept⟩ := (filter_consume_eq_some_iff inside agree).mp taken
  refine ⟨rule, named, before, after, split, matched, kept, ?_⟩
  intro earlier member
  exact (filter_consume_eq_none_iff inside agree).mp (refused earlier member)

theorem firstRule_eq_none_iff (inside : offset ≤ tokens.length)
    (agree : ∀ span : Span, accepted span.consumed = true ↔ wanted span) :
    set.firstRule accepted (tokens.drop offset) = none ↔ ¬ set.Any tokens offset wanted := by
  rw [firstRule_eq, List.findSome?_eq_none_iff, Any]
  constructor
  · intro refused any
    rcases any with ⟨rule, member, span, matched, kept⟩
    exact (filter_consume_eq_none_iff inside agree).mp (refused rule member) span matched kept
  · intro none rule member
    rw [filter_consume_eq_none_iff inside agree]
    exact fun span matched kept => none ⟨rule, member, span, matched, kept⟩

theorem firstRule_le {ahead : List Token} {name : String} {taken : Nat}
    (chosen : set.firstRule accepted ahead = some (name, taken)) : taken ≤ ahead.length := by
  obtain ⟨rule, -, found⟩ := List.exists_of_findSome?_eq_some chosen
  obtain ⟨_, kept, same⟩ := Option.map_eq_some_iff.mp found
  obtain ⟨-, rfl⟩ := Prod.mk.inj same
  have matched := (Option.filter_eq_some_iff.mp kept).1
  exact Tree.consume_le _ _ ahead _ matched

end FirstRule

theorem probe_within (set : RuleSet) : Scan.Within set.probe := by
  intro ahead label taken probed
  rw [probe_eq, Option.or_eq_some_iff] at probed
  rcases probed with chosen | ⟨-, fallback⟩
  · exact firstRule_le chosen
  · split at fallback
    · exact firstRule_le fallback
    · simp at fallback

theorem foundAt_probe (inside : offset ≤ tokens.length) :
    Scan.foundAt set.probe tokens offset =
      (set.probe (tokens.drop offset)).map fun find => ⟨find.1, offset, find.2⟩ := by
  rw [Scan.foundAt, if_pos inside]

theorem Selects.of_taking {rule : Rule} {span : Span}
    (first : set.First tokens offset (·.consumed ≠ 0) rule span) :
    set.Selects tokens offset [⟨rule.name, span⟩] where
  taking := fun _ => ⟨rule, span, first, rfl⟩
  empty := fun none => absurd first.any none
  nothing := fun none => absurd first.any none

theorem Selects.of_empty {rule : Rule} (none : ¬ set.Any tokens offset (·.consumed ≠ 0))
    (reported : set.options.reportEmpty = true)
    (first : set.First tokens offset (·.consumed = 0) rule ⟨offset, 0⟩) :
    set.Selects tokens offset [⟨rule.name, ⟨offset, 0⟩⟩] where
  taking := fun any => absurd any none
  empty := fun _ _ _ => ⟨rule, first, rfl⟩
  nothing := fun _ hidden => absurd ⟨reported, first.any⟩ hidden

theorem Selects.of_nothing (none : ¬ set.Any tokens offset (·.consumed ≠ 0))
    (hidden : ¬ (set.options.reportEmpty = true ∧ set.Any tokens offset (·.consumed = 0))) :
    set.Selects tokens offset [] where
  taking := fun any => absurd any none
  empty := fun _ reported any => absurd ⟨reported, any⟩ hidden
  nothing := fun _ _ => rfl

theorem selects_foundAt (set : RuleSet) (inside : offset ≤ tokens.length) :
    set.Selects tokens offset (Scan.foundAt set.probe tokens offset).toList := by
  have taking : ∀ span : Span, (span.consumed != 0) = true ↔ span.consumed ≠ 0 := by simp
  have empty : ∀ span : Span, (span.consumed == 0) = true ↔ span.consumed = 0 := by simp
  rw [foundAt_probe inside, probe_eq]
  cases chosen : set.firstRule (· != 0) (tokens.drop offset) with
  | some found =>
      rcases first_of_firstRule inside taking chosen with ⟨rule, named, first⟩
      have selected := Selects.of_taking first
      rwa [named] at selected
  | none =>
      have noneTaking := (firstRule_eq_none_iff inside taking).mp chosen
      by_cases reported : set.options.reportEmpty = true
      · rw [Option.none_or, if_pos reported]
        cases fallback : set.firstRule (· == 0) (tokens.drop offset) with
        | some found =>
            rcases first_of_firstRule inside empty fallback with ⟨rule, named, first⟩
            have width : found.2 = 0 := first.wanted
            rw [width] at first
            have selected := Selects.of_empty noneTaking reported first
            rw [named, ← width] at selected
            exact selected
        | none =>
            have noneEmpty := (firstRule_eq_none_iff inside empty).mp fallback
            exact Selects.of_nothing noneTaking fun hidden => noneEmpty hidden.2
      · rw [Option.none_or, if_neg reported]
        exact Selects.of_nothing noneTaking fun hidden => reported hidden.1

theorem scan_selects (set : RuleSet) (tokens : List Token) :
    ∃ finds, (∀ others, (set.scan tokens).Drains others ↔ others = finds) ∧
      finds.Pairwise (fun earlier later => earlier.span.Before later.span) ∧
      ∀ offset ≤ tokens.length, (∀ found ∈ finds, ¬ found.span.Inside offset) →
        set.Selects tokens offset (finds.filter fun found => found.span.start = offset) := by
  have all : Scan.Finds set.probe tokens 0 (set.scan tokens).toList :=
    Scan.toList_finds (Scan.onTrack_start _ _) set.probe_within
  refine ⟨(set.scan tokens).toList, fun others => Scan.drains_iff, all.ordered, ?_⟩
  intro offset inside outside
  rw [all.filter_start (Nat.zero_le offset) outside]
  exact set.selects_foundAt inside

end TokenPattern.RuleSet
