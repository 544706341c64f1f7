import TokenPattern.Proofs.Leftmost
import TokenPattern.Proofs.Positions
import TokenPattern.Proofs.Precedence

namespace TokenPattern

def Span.shift (distance : Nat) (span : Span) : Span := ⟨distance + span.start, span.consumed⟩

def Found.shift {α : Type} (distance : Nat) (found : Found α) : Found α :=
  ⟨found.label, found.span.shift distance⟩

namespace Scan

variable {α : Type}

def later : Nat → Scan α → Scan α
  | 0, scan => scan
  | count + 1, scan => scan.next.2.later count

/-- Up to the end of the tokens a scan goes on like a fresh one of the tokens from its position on,
and past the end it finds nothing any more. -/
structure Resumes (scan : Scan α) (tokens : List Token) (fresh : List Token → Scan α) : Prop where
  inside : scan.position ≤ tokens.length → ∀ finds, scan.Drains finds ↔
    ∃ others, (fresh (tokens.drop scan.position)).Drains others ∧
      finds = others.map (Found.shift scan.position)
  past : tokens.length < scan.position → ∀ count, (scan.later count).next.1 = none

variable {probe : List Token → Option (α × Nat)} {tokens : List Token} {scan moved : Scan α}

theorem OnTrack.step {found : Option (Found α)} (onTrack : scan.OnTrack tokens)
    (within : Within scan.probe) (stepped : scan.step = some (found, moved)) :
    moved.OnTrack tokens ∧ moved.probe = scan.probe := by
  rcases step_cases onTrack within with
    ⟨-, ended⟩ | ⟨-, outcome, follows⟩ | ⟨other, -, outcome, follows⟩
  · rw [ended] at stepped
    cases stepped
  · obtain ⟨-, rfl⟩ := Prod.mk.inj (Option.some.inj (outcome.symm.trans stepped))
    exact ⟨follows, rfl⟩
  · obtain ⟨-, rfl⟩ := Prod.mk.inj (Option.some.inj (outcome.symm.trans stepped))
    exact ⟨follows, rfl⟩

theorem OnTrack.next (onTrack : scan.OnTrack tokens) (within : Within scan.probe) :
    scan.next.2.OnTrack tokens ∧ scan.next.2.probe = scan.probe := by
  fun_induction Scan.next scan with
  | case1 scan ended => exact ⟨onTrack, rfl⟩
  | case2 scan found moved stepped => exact onTrack.step within stepped
  | case3 scan moved stepped rest =>
      obtain ⟨follows, same⟩ := onTrack.step within stepped
      rw [← same] at within ⊢
      exact rest follows within

theorem OnTrack.later (onTrack : scan.OnTrack tokens) (within : Within scan.probe) (count : Nat) :
    (scan.later count).OnTrack tokens ∧ (scan.later count).probe = scan.probe := by
  induction count generalizing scan with
  | zero => exact ⟨onTrack, rfl⟩
  | succ count rest =>
      obtain ⟨follows, same⟩ := onTrack.next within
      rw [← same] at within ⊢
      exact rest follows within

theorem later_of_ended (ended : scan.step = none) (count : Nat) : scan.later count = scan := by
  have stays : scan.next = (none, scan) := by
    rw [Scan.next]
    split <;> simp_all
  induction count with
  | zero => rfl
  | succ count rest => rw [Scan.later, stays, rest]

theorem foundAt_drop {distance : Nat} (inside : distance ≤ tokens.length) (offset : Nat) :
    foundAt probe tokens (distance + offset) =
      (foundAt probe (tokens.drop distance) offset).map (Found.shift distance) := by
  by_cases within : distance + offset ≤ tokens.length
  · have behind : offset ≤ (tokens.drop distance).length := by
      rw [List.length_drop]
      omega
    rw [foundAt, foundAt, if_pos within, if_pos behind, List.drop_drop, Option.map_map]
    rfl
  · have beyond : ¬ offset ≤ (tokens.drop distance).length := by
      rw [List.length_drop]
      omega
    rw [foundAt, foundAt, if_neg within, if_neg beyond]
    rfl

theorem Finds.shift {distance first : Nat} {finds : List (Found α)}
    (inside : distance ≤ tokens.length) (mine : Finds probe (tokens.drop distance) first finds) :
    Finds probe tokens (distance + first) (finds.map (Found.shift distance)) := by
  constructor
  · apply List.pairwise_map.mpr
    apply mine.ordered.imp
    intro earlier later before
    simp only [Span.Before, Span.stop, Found.shift, Span.shift] at before ⊢
    omega
  · intro found member
    obtain ⟨original, present, rfl⟩ := List.mem_map.mp member
    obtain ⟨after, genuine⟩ := mine.genuine original present
    have start : (original.shift distance).span.start = distance + original.span.start := rfl
    rw [start, foundAt_drop inside, genuine]
    exact ⟨by omega, rfl⟩
  · intro offset found after present
    obtain ⟨rest, rfl⟩ := Nat.exists_eq_add_of_le (show distance ≤ offset by omega)
    rw [foundAt_drop inside] at present
    obtain ⟨original, genuine, rfl⟩ := Option.map_eq_some_iff.mp present
    rcases mine.complete rest original (by omega) genuine with member | ⟨other, member, cover⟩
    · exact .inl (List.mem_map_of_mem member)
    · have covers : (other.shift distance).span.Inside (distance + rest) := by
        simp only [Span.Inside, Span.stop, Found.shift, Span.shift] at cover ⊢
        omega
      exact .inr ⟨_, List.mem_map_of_mem member, covers⟩

theorem toList_eq_fresh (onTrack : scan.OnTrack tokens) (within : Within scan.probe)
    (inside : scan.position ≤ tokens.length) :
    scan.toList = (start scan.probe (tokens.drop scan.position)).toList.map
      (Found.shift scan.position) := by
  have mine := toList_finds onTrack within
  have fresh := start_finds within (tokens.drop scan.position)
  exact mine.unique (fresh.shift inside)

theorem resumes_later (within : Within probe) (tokens : List Token) (count : Nat) :
    ((start probe tokens).later count).Resumes tokens (start probe) := by
  obtain ⟨onTrack, same⟩ := (onTrack_start probe tokens).later within count
  generalize (start probe tokens).later count = scan at onTrack same
  change scan.probe = probe at same
  subst same
  constructor
  · intro inside finds
    have rest := toList_eq_fresh onTrack within inside
    constructor
    · intro drained
      refine ⟨_, drains_iff.mpr rfl, ?_⟩
      rw [drains_iff.mp drained, rest]
    · intro shifted
      obtain ⟨others, drained, rfl⟩ := shifted
      rw [drains_iff, rest, drains_iff.mp drained]
  · intro past count
    have closed : scan.ahead = none := by rw [onTrack, if_neg (by omega)]
    have ended : scan.step = none := step_eq_none_iff.mpr closed
    rw [later_of_ended ended]
    exact next_of_toList_nil (toList_of_ended ended)

end Scan

theorem Matcher.matchAt_append (matcher : Matcher) (front tokens : List Token) (offset : Nat) :
    matcher.matchAt (front ++ tokens) (front.length + offset) =
      (matcher.matchAt tokens offset).map (Span.shift front.length) := by
  have inside : front.length ≤ (front ++ tokens).length := by
    rw [List.length_append]
    exact Nat.le_add_right _ _
  calc
    _ = (Scan.foundAt matcher.front (front ++ tokens) (front.length + offset)).map Found.span :=
      matcher.matchAt_eq_foundAt _ _
    _ = ((Scan.foundAt matcher.front tokens offset).map (Found.shift front.length)).map
        Found.span := by rw [Scan.foundAt_drop inside, List.drop_left]
    _ = ((Scan.foundAt matcher.front tokens offset).map Found.span).map
        (Span.shift front.length) := by
      rw [Option.map_map, Option.map_map]
      rfl
    _ = (matcher.matchAt tokens offset).map (Span.shift front.length) := by
      rw [matcher.matchAt_eq_foundAt]

/-- Matching and scanning are translation invariant. Tokens in front move the match at a position, to
walk over all tokens is to match those ahead, and a scan that has been asked any number of times goes
on like a fresh one, be it a scan for one pattern or for the rules of a set. -/
theorem matching_translation_invariant :
    (∀ (matcher : Matcher) front tokens offset,
      matcher.walkAt tokens offset = matcher.matchAt tokens offset ∧
      matcher.matchAt (front ++ tokens) (front.length + offset) =
        (matcher.matchAt tokens offset).map (Span.shift front.length)) ∧
    (∀ (matcher : Matcher) tokens count,
      ((matcher.scan tokens).later count).Resumes tokens matcher.scan) ∧
    ∀ (set : RuleSet) tokens count,
      ((set.scan tokens).later count).Resumes tokens set.scan := by
  refine ⟨?_, ?_, ?_⟩
  · intro matcher front tokens offset
    exact ⟨matcher.walkAt_eq tokens offset, matcher.matchAt_append front tokens offset⟩
  · intro matcher tokens count
    exact Scan.resumes_later matcher.probe_within tokens count
  · intro set tokens count
    exact Scan.resumes_later set.probe_within tokens count

end TokenPattern
