import TokenPattern.Proofs.Leftmost
import TokenPattern.Proofs.Precedence

namespace TokenPattern

namespace Scan

variable {α : Type} {probe : List Token → Option (α × Nat)} {tokens : List Token}

def taking (probe : List Token → Option (α × Nat)) (ahead : List Token) : Option (α × Nat) :=
  (probe ahead).filter fun find => find.2 != 0

theorem taking_within (within : Within probe) : Within (taking probe) := by
  intro ahead label taken probed
  exact within ahead label taken (Option.filter_eq_some_iff.mp probed).1

theorem foundAt_taking_iff {offset : Nat} {found : Found α} :
    foundAt (taking probe) tokens offset = some found ↔
      foundAt probe tokens offset = some found ∧ found.span.consumed ≠ 0 := by
  rw [foundAt_eq_some_iff, foundAt_eq_some_iff, taking, Option.filter_eq_some_iff, bne_iff_ne,
    and_assoc, and_assoc]

/-- What lies inside a find lies inside one that takes tokens. -/
theorem Finds.taking {first : Nat} {finds : List (Found α)}
    (mine : Finds probe tokens first finds) :
    Finds (Scan.taking probe) tokens first (finds.filter fun found => !found.span.isEmpty) := by
  have kept : ∀ found, found ∈ finds.filter (fun found => !found.span.isEmpty) ↔
      found ∈ finds ∧ found.span.consumed ≠ 0 := by
    simp [Span.isEmpty]
  constructor
  · exact mine.ordered.filter _
  · intro found member
    obtain ⟨present, wide⟩ := (kept found).mp member
    obtain ⟨after, genuine⟩ := mine.genuine found present
    exact ⟨after, foundAt_taking_iff.mpr ⟨genuine, wide⟩⟩
  · intro offset found after present
    obtain ⟨genuine, wide⟩ := foundAt_taking_iff.mp present
    rcases mine.complete offset found after genuine with member | ⟨other, member, inside⟩
    · exact .inl ((kept found).mpr ⟨member, wide⟩)
    · have wider : other.span.consumed ≠ 0 := by
        simp only [Span.Inside, Span.stop] at inside
        omega
      exact .inr ⟨other, (kept other).mpr ⟨member, wider⟩, inside⟩

theorem toList_taking (within : Within probe) (tokens : List Token) :
    (start (taking probe) tokens).toList =
      (start probe tokens).toList.filter fun found => !found.span.isEmpty := by
  have all := start_finds within tokens
  have wide := start_finds (taking_within within) tokens
  exact wide.unique all.taking

end Scan

theorem Matcher.probe_eq_taking (pattern : Pattern) (ignoreCase : Bool) :
    probe ⟨pattern, ⟨ignoreCase, false⟩⟩ = Scan.taking (probe ⟨pattern, ⟨ignoreCase, true⟩⟩) := by
  funext ahead
  have same : consume ⟨pattern, ⟨ignoreCase, false⟩⟩ ahead =
      consume ⟨pattern, ⟨ignoreCase, true⟩⟩ ahead := rfl
  rw [Scan.taking, probe, probe, same]
  cases consume ⟨pattern, ⟨ignoreCase, true⟩⟩ ahead with
  | none => rfl
  | some taken => by_cases wide : taken = 0 <;> simp [Option.filter_some, wide]

namespace RuleSet

variable {set : RuleSet}

theorem accepted_of_firstRule {accepted : Nat → Bool} {ahead : List Token}
    {found : String × Nat} (chosen : set.firstRule accepted ahead = some found) :
    accepted found.2 = true := by
  obtain ⟨rule, -, present⟩ := List.exists_of_findSome?_eq_some chosen
  obtain ⟨taken, kept, rfl⟩ := Option.map_eq_some_iff.mp present
  exact (Option.filter_eq_some_iff.mp kept).2

theorem probe_eq_taking (set : RuleSet) (ignoreCase : Bool) :
    (set.withOptions ⟨ignoreCase, false⟩).probe =
      Scan.taking (set.withOptions ⟨ignoreCase, true⟩).probe := by
  funext ahead
  have same : (set.withOptions ⟨ignoreCase, false⟩).firstRule (· != 0) ahead =
      (set.withOptions ⟨ignoreCase, true⟩).firstRule (· != 0) ahead := by
    rw [firstRule_withOptions, firstRule_withOptions]
  rw [Scan.taking, probe_eq, probe_eq, same]
  cases chosen : (set.withOptions ⟨ignoreCase, true⟩).firstRule (· != 0) ahead with
  | some found =>
      have wide := accepted_of_firstRule chosen
      simp only [Option.some_or, Option.filter_some, wide, if_true]
  | none =>
      have quiet : (set.withOptions ⟨ignoreCase, false⟩).options.reportEmpty = false := rfl
      have loud : (set.withOptions ⟨ignoreCase, true⟩).options.reportEmpty = true := rfl
      simp only [quiet, loud, Bool.false_eq_true, if_false, if_true, Option.none_or]
      symm
      apply Option.filter_eq_none_iff.mpr
      intro found fallback wide
      have empty := accepted_of_firstRule fallback
      simp [beq_iff_eq.mp empty] at wide

end RuleSet

theorem reportEmpty_adds_empty :
    (∀ (pattern : Pattern) ignoreCase tokens,
      Matcher.findAll ⟨pattern, ⟨ignoreCase, false⟩⟩ tokens =
        (Matcher.findAll ⟨pattern, ⟨ignoreCase, true⟩⟩ tokens).filter fun span => !span.isEmpty) ∧
    ∀ (set : RuleSet) ignoreCase tokens,
      ((set.withOptions ⟨ignoreCase, false⟩).scan tokens).toList =
        ((set.withOptions ⟨ignoreCase, true⟩).scan tokens).toList.filter
          fun found => !found.span.isEmpty := by
  constructor
  · intro pattern ignoreCase tokens
    have within := Matcher.probe_within ⟨pattern, ⟨ignoreCase, true⟩⟩
    rw [Matcher.findAll, Matcher.scan, Matcher.probe_eq_taking, Scan.toList_taking within,
      Matcher.findAll, Matcher.scan, List.filter_map]
    rfl
  · intro set ignoreCase tokens
    have within := (set.withOptions ⟨ignoreCase, true⟩).probe_within
    rw [RuleSet.scan, RuleSet.probe_eq_taking, Scan.toList_taking within, RuleSet.scan]

end TokenPattern
