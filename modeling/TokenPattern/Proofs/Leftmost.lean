import TokenPattern.Proofs.Scanning

namespace TokenPattern.Matcher

variable {matcher : Matcher} {tokens : List Token}

def Reports (matcher : Matcher) (span : Span) : Prop :=
  span.consumed ≠ 0 ∨ matcher.options.reportEmpty = true

/-- The leftmost matches that do not overlap, in order. A match that is not among them starts
strictly inside one that is. -/
structure Leftmost (matcher : Matcher) (tokens : List Token) (spans : List Span) : Prop where
  ordered : spans.Pairwise Span.Before
  matched : ∀ span ∈ spans, matcher.matchAt tokens span.start = some span
  reported : ∀ span ∈ spans, matcher.Reports span
  complete : ∀ offset ≤ tokens.length, ∀ span, matcher.matchAt tokens offset = some span →
    matcher.Reports span →
      span ∈ spans ∨ ∃ other ∈ spans, other.consumed ≠ 0 ∧ other.Inside offset

theorem probe_eq_some_iff {ahead : List Token} {taken : Nat} :
    matcher.probe ahead = some ((), taken) ↔
      matcher.consume ahead = some taken ∧
        (taken ≠ 0 ∨ matcher.options.reportEmpty = true) := by
  cases matched : matcher.consume ahead with
  | none => simp [probe, matched]
  | some first =>
      simp only [probe, matched, Option.some.injEq]
      split
      · rename_i reported
        simp only [Option.some.injEq, Prod.mk.injEq, true_and]
        exact ⟨fun same => ⟨same, same ▸ reported⟩, And.left⟩
      · rename_i hidden
        constructor
        · intro reported
          simp at reported
        · intro kept
          rcases kept with ⟨rfl, reported⟩
          exact absurd reported hidden

theorem probe_within (matcher : Matcher) : Scan.Within matcher.probe := by
  intro ahead label taken probed
  have matched : matcher.consume ahead = some taken := (probe_eq_some_iff.mp probed).1
  exact Tree.consume_le _ _ ahead taken matched

theorem foundAt_probe_iff {offset : Nat} {found : Found Unit} :
    Scan.foundAt matcher.probe tokens offset = some found ↔
      matcher.matchAt tokens offset = some found.span ∧ matcher.Reports found.span := by
  rw [Scan.foundAt_eq_some_iff, matchAt_eq_some_iff, probe_eq_some_iff, Reports]
  constructor
  · intro found
    rcases found with ⟨start, inside, matched, reported⟩
    exact ⟨⟨start, inside, matched⟩, reported⟩
  · intro found
    rcases found with ⟨⟨start, inside, matched⟩, reported⟩
    exact ⟨start, inside, matched, reported⟩

def front (matcher : Matcher) (ahead : List Token) : Option (Unit × Nat) :=
  (matcher.consume ahead).map ((), ·)

theorem matchAt_eq_foundAt (matcher : Matcher) (tokens : List Token) (offset : Nat) :
    matcher.matchAt tokens offset =
      (Scan.foundAt matcher.front tokens offset).map Found.span := by
  rw [matchAt, Scan.foundAt]
  by_cases inside : offset ≤ tokens.length
  · rw [if_pos inside, if_pos inside, front, Option.map_map, Option.map_map]
    rfl
  · rw [if_neg inside, if_neg inside]
    rfl

theorem finds_of_leftmost {spans : List Span} (leftmost : matcher.Leftmost tokens spans) :
    Scan.Finds matcher.probe tokens 0 (spans.map (⟨(), ·⟩)) where
  ordered := List.pairwise_map.mpr leftmost.ordered
  genuine := by
    intro found member
    rcases List.mem_map.mp member with ⟨span, inside, rfl⟩
    exact ⟨Nat.zero_le _,
      foundAt_probe_iff.mpr ⟨leftmost.matched span inside, leftmost.reported span inside⟩⟩
  complete := by
    intro offset found _ present
    rcases foundAt_probe_iff.mp present with ⟨matched, reported⟩
    have within : offset ≤ tokens.length := (matchAt_eq_some_iff.mp matched).2.1
    rcases leftmost.complete offset within _ matched reported with member | ⟨other, member, cover⟩
    · exact .inl (List.mem_map.mpr ⟨found.span, member, rfl⟩)
    · exact .inr ⟨_, List.mem_map.mpr ⟨other, member, rfl⟩, cover.2⟩

theorem reported_of_finds {finds : List (Found Unit)}
    (all : Scan.Finds matcher.probe tokens 0 finds) :
    ∀ span ∈ finds.map Found.span,
      matcher.matchAt tokens span.start = some span ∧ matcher.Reports span := by
  intro span member
  rcases List.mem_map.mp member with ⟨found, inside, rfl⟩
  have present := (all.genuine found inside).2
  exact foundAt_probe_iff.mp present

theorem leftmost_of_finds {finds : List (Found Unit)}
    (all : Scan.Finds matcher.probe tokens 0 finds) :
    matcher.Leftmost tokens (finds.map Found.span) where
  ordered := List.pairwise_map.mpr all.ordered
  matched := fun span member => (reported_of_finds all span member).1
  reported := fun span member => (reported_of_finds all span member).2
  complete := by
    intro offset within span matched reported
    have present : Scan.foundAt matcher.probe tokens offset = some ⟨(), span⟩ :=
      foundAt_probe_iff.mpr ⟨matched, reported⟩
    rcases all.complete offset _ (Nat.zero_le _) present with member | ⟨other, member, cover⟩
    · exact .inl (List.mem_map.mpr ⟨_, member, rfl⟩)
    · have taking : other.span.consumed ≠ 0 := by
        simp only [Span.Inside, Span.stop] at cover
        omega
      exact .inr ⟨other.span, List.mem_map.mpr ⟨other, member, rfl⟩, taking, cover⟩

theorem map_label_span (finds : List (Found Unit)) :
    (finds.map Found.span).map (⟨(), ·⟩) = finds := by
  rw [List.map_map]
  exact List.map_id finds

theorem map_span_label (spans : List Span) :
    (spans.map (fun span => (⟨(), span⟩ : Found Unit))).map Found.span = spans := by
  rw [List.map_map]
  exact List.map_id spans

/-- Asking a scan for one match after the other comes to an end. The matches are the leftmost ones
that do not overlap, and no other list is. -/
theorem findAll_leftmost (matcher : Matcher) (tokens : List Token) :
    (matcher.scan tokens).Drains ((matcher.findAll tokens).map (⟨(), ·⟩)) ∧
      ∀ spans, matcher.Leftmost tokens spans ↔ spans = matcher.findAll tokens := by
  have all : Scan.Finds matcher.probe tokens 0 (matcher.scan tokens).toList :=
    Scan.toList_finds (Scan.onTrack_start _ _) matcher.probe_within
  constructor
  · rw [Scan.drains_iff, findAll, map_label_span]
  · intro spans
    constructor
    · intro leftmost
      have same := (finds_of_leftmost leftmost).unique all
      rw [findAll, ← same, map_span_label]
    · intro same
      subst same
      exact leftmost_of_finds all

end TokenPattern.Matcher
