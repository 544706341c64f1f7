import TokenPattern.Proofs.Construction
import TokenPattern.Proofs.Positions
import TokenPattern.Proofs.Soundness

/-!
A repetition matches along the chains of matches that cannot go on. An empty match counts in a chain
like any other: that the loop returns there makes no difference, since such a match could be counted
as often as the least number asks for.
-/

namespace TokenPattern

/-- From a position on, so many steps, each from where the one before it stops, lead to another
position. A step is told by how far it leads. -/
inductive Chain (step : Nat → Option Nat) : Nat → Nat → Nat → Prop
  | done (position : Nat) : Chain step position 0 position
  | more {position taken count stop : Nat} (matched : step position = some taken)
      (rest : Chain step (position + taken) count stop) : Chain step position (count + 1) stop

/-- After `count` steps, a chain leads from a position to another one where it has to end: the steps
are as many as allowed, or there is no further one. -/
def Exhausts (step : Nat → Option Nat) (times : RepeatBounds) (count position stop : Nat) : Prop :=
  ∃ more, Chain step position more stop ∧ times.Allows (count + more) ∧
    (times.max = some (count + more) ∨ step stop = none)

/-- Up to `left` further steps, each of which counts, wherever it leads. The answer is the position
behind them, if with these there are at least `min`. -/
def iterate (step : Nat → Option Nat) (min : Nat) : Nat → Nat → Nat → Option Nat
  | 0, count, position => if min ≤ count then some position else none
  | left + 1, count, position =>
      match step position with
      | none => if min ≤ count then some position else none
      | some taken => iterate step min left (count + 1) (position + taken)

variable {step : Nat → Option Nat} {times : RepeatBounds} {count position stop taken : Nat}

namespace Chain

theorem eq_of_none (failed : step position = none) (chain : Chain step position count stop) :
    count = 0 ∧ stop = position := by
  cases chain with
  | done => exact ⟨rfl, rfl⟩
  | more matched rest =>
      rw [failed] at matched
      cases matched

theorem eq_of_zero (empty : step position = some 0) (chain : Chain step position count stop) :
    stop = position := by
  induction count with
  | zero =>
      cases chain
      rfl
  | succ count shorter =>
      cases chain with
      | more matched rest =>
          rw [empty] at matched
          cases matched
          exact shorter rest

theorem le (chain : Chain step position count stop) : position ≤ stop := by
  induction chain with
  | done position => exact Nat.le_refl position
  | more matched rest further => omega

theorem stay (empty : step position = some 0) (count : Nat) :
    Chain step position count position := by
  induction count with
  | zero => exact .done position
  | succ count shorter => exact .more empty shorter

end Chain

namespace Exhausts

theorem iff_of_none (failed : step position = none)
    (below : ∀ max, times.max = some max → count ≤ max) :
    Exhausts step times count position stop ↔ times.min ≤ count ∧ stop = position := by
  constructor
  · intro run
    obtain ⟨more, chain, allowed, -⟩ := run
    obtain ⟨rfl, rfl⟩ := chain.eq_of_none failed
    exact ⟨allowed.1, rfl⟩
  · intro ended
    obtain ⟨enough, rfl⟩ := ended
    exact ⟨0, .done _, ⟨enough, below⟩, .inr failed⟩

theorem iff_of_full (full : times.max = some count) :
    Exhausts step times count position stop ↔ times.min ≤ count ∧ stop = position := by
  constructor
  · intro run
    obtain ⟨more, chain, allowed, -⟩ := run
    have none : more = 0 := by
      have most := allowed.2 count full
      omega
    subst none
    cases chain
    exact ⟨allowed.1, rfl⟩
  · intro ended
    obtain ⟨enough, rfl⟩ := ended
    refine ⟨0, .done _, ⟨enough, fun max bounded => ?_⟩, .inl full⟩
    rw [full] at bounded
    exact Nat.le_of_eq (Option.some.inj bounded)

theorem iff_of_some (matched : step position = some taken) (free : times.max ≠ some count) :
    Exhausts step times count position stop ↔
      Exhausts step times (count + 1) (position + taken) stop := by
  constructor
  · intro run
    obtain ⟨more, chain, allowed, ended⟩ := run
    cases chain with
    | done =>
        rw [matched] at ended
        exact absurd ended (by simpa using free)
    | @more _ first more _ again rest =>
        rw [matched] at again
        obtain rfl := Option.some.inj again
        rw [← Nat.add_assoc, Nat.add_right_comm] at allowed ended
        exact ⟨more, rest, allowed, ended⟩
  · intro run
    obtain ⟨more, rest, allowed, ended⟩ := run
    rw [Nat.add_assoc, Nat.add_comm 1] at allowed ended
    exact ⟨more + 1, .more matched rest, allowed, ended⟩

/-- An empty step leads nowhere else, and it can be made until no more steps are allowed. -/
theorem iff_of_zero (empty : step position = some 0) {max : Nat} (bounded : times.max = some max)
    (ordered : times.min ≤ max) (below : count ≤ max) :
    Exhausts step times count position stop ↔ stop = position := by
  constructor
  · intro run
    obtain ⟨more, chain, -, -⟩ := run
    exact chain.eq_of_zero empty
  · intro stays
    subst stays
    have all : count + (max - count) = max := by omega
    refine ⟨max - count, .stay empty _, ⟨by omega, ?_⟩, .inl (by rw [all, bounded])⟩
    intro most same
    rw [bounded] at same
    have equal := Option.some.inj same
    omega

end Exhausts

theorem iterate_eq_some_iff (step : Nat → Option Nat) (min left count position stop : Nat) :
    iterate step min left count position = some stop ↔
      Exhausts step ⟨min, some (count + left)⟩ count position stop := by
  induction left generalizing count position with
  | zero =>
      rw [Exhausts.iff_of_full rfl, iterate]
      by_cases enough : min ≤ count <;> simp [enough, eq_comm]
  | succ left rest =>
      rw [iterate]
      cases matched : step position with
      | none =>
          have below : ∀ max, some (count + (left + 1)) = some max → count ≤ max := by
            intro max bounded
            rw [← Option.some.inj bounded]
            exact Nat.le_add_right count (left + 1)
          rw [Exhausts.iff_of_none matched below]
          by_cases enough : min ≤ count <;> simp [enough, eq_comm]
      | some taken =>
          have free : (⟨min, some (count + (left + 1))⟩ : RepeatBounds).max ≠ some count := by simp
          rw [Exhausts.iff_of_some matched free, ← Nat.add_assoc, Nat.add_right_comm]
          exact rest (count + 1) (position + taken)

theorem walkRepeat_eq_some_iff (within : ∀ position taken, step position = some taken →
      position + taken ≤ stop)
    (ordered : ∀ max, times.max = some max → times.min ≤ max)
    (ends : times.max = none → ∀ position, step position ≠ some 0)
    (position count consumed : Nat) (below : ∀ max, times.max = some max → count ≤ max)
    (total : Nat) :
    walkRepeat step times stop position count consumed = some total ↔
      Exhausts step times count (position + consumed) (position + total) := by
  fun_induction walkRepeat step times stop position count consumed with
  | case1 count consumed allowed failed =>
      rw [Exhausts.iff_of_none failed below, Nat.add_left_cancel_iff, @eq_comm _ total]
      simp
  | case2 count consumed allowed empty =>
      cases bounded : times.max with
      | none => exact absurd empty (ends bounded _)
      | some max =>
          rw [Exhausts.iff_of_zero empty bounded (ordered max bounded) (below max bounded),
            Nat.add_left_cancel_iff, Option.some.injEq, eq_comm]
  | case3 count consumed allowed more matched before later =>
      have fewer := RepeatBounds.allowsMore_iff.mp allowed
      have free : times.max ≠ some count := fun full => Nat.lt_irrefl _ (fewer count full)
      rw [later fewer, Exhausts.iff_of_some matched free, Nat.add_assoc]
  | case4 count consumed allowed more matched ended =>
      have inside := within _ _ matched
      omega
  | case5 count consumed spent =>
      have full := RepeatBounds.max_eq_of_not_allowsMore below spent
      rw [Exhausts.iff_of_full full, Nat.add_left_cancel_iff, @eq_comm _ total]
      simp

namespace Matcher

def takes (matcher : Matcher) (tokens : List Token) (position : Nat) : Option Nat :=
  (matcher.matchAt tokens position).map Span.consumed

variable {matcher : Matcher} {tokens : List Token}

theorem takes_eq_some_iff {position taken : Nat} :
    matcher.takes tokens position = some taken ↔
      matcher.matchAt tokens position = some ⟨position, taken⟩ := by
  rw [takes, Option.map_eq_some_iff]
  constructor
  · intro found
    obtain ⟨span, matched, rfl⟩ := found
    have start : span.start = position := (matchAt_eq_some_iff.mp matched).1
    rw [matched, ← start]
  · intro matched
    exact ⟨_, matched, rfl⟩

theorem takes_eq_none_iff {position : Nat} :
    matcher.takes tokens position = none ↔ matcher.matchAt tokens position = none :=
  Option.map_eq_none_iff

theorem takes_within {position taken : Nat} (matched : matcher.takes tokens position = some taken) :
    position + taken ≤ tokens.length := by
  obtain ⟨-, inside, consumed⟩ := matchAt_eq_some_iff.mp (takes_eq_some_iff.mp matched)
  have bound : taken ≤ (tokens.drop position).length := Tree.consume_le _ _ _ _ consumed
  rw [List.length_drop] at bound
  omega

theorem matchAt_eq_takes (matcher : Matcher) (tokens : List Token) (offset : Nat) :
    matcher.matchAt tokens offset = (matcher.takes tokens offset).map (⟨offset, ·⟩) := by
  rw [takes, Option.map_map]
  cases matched : matcher.matchAt tokens offset with
  | none => rfl
  | some span =>
      have start : span.start = offset := (matchAt_eq_some_iff.mp matched).1
      rw [← start]
      rfl

theorem takes_eq {position : Nat} (inside : position ≤ tokens.length) :
    matcher.takes tokens position = matcher.consume (tokens.drop position) := by
  rw [takes, matchAt, if_pos inside, Option.map_map]
  exact Option.map_id'

end Matcher

namespace Pattern

variable {item repeated : Pattern} {min : Nat} {max : Option Nat}

theorem repetition_checked (built : item.repetition min max = .ok repeated) :
    repeated.tree = .repetition item.tree ⟨min, max⟩ ∧ (∀ most, max = some most → min ≤ most) ∧
      (max = none → item.tree.bounds.min ≠ 0) := by
  have shape := (repetition_settled item min max).shape built
  have wellFormed := repeated.wellFormed
  rw [shape] at wellFormed
  cases wellFormed with
  | repetition ordered ends inner => exact ⟨shape, ordered, ends⟩

theorem takes_repetition (built : item.repetition min max = .ok repeated) (options : MatchOptions)
    {tokens : List Token} {offset : Nat} (inside : offset ≤ tokens.length) :
    Matcher.takes ⟨repeated, options⟩ tokens offset =
      walkRepeat (Matcher.takes ⟨item, options⟩ tokens) ⟨min, max⟩ tokens.length offset 0 0 := by
  have agree : ∀ position ≤ tokens.length, Matcher.takes ⟨item, options⟩ tokens position =
      item.tree.consume options.ignoreCase (tokens.drop position) :=
    fun position within => Matcher.takes_eq within
  have shape := (repetition_checked built).1
  calc
    _ = repeated.tree.consume options.ignoreCase (tokens.drop offset) := Matcher.takes_eq inside
    _ = greedy (item.tree.consume options.ignoreCase) ⟨min, max⟩ 0 (tokens.drop offset) := by
      rw [shape, Tree.consume]
    _ = (greedy (item.tree.consume options.ignoreCase) ⟨min, max⟩ 0
        (tokens.drop (offset + 0))).map (0 + ·) := by simp
    _ = walkRepeat (Matcher.takes ⟨item, options⟩ tokens) ⟨min, max⟩ tokens.length offset 0 0 :=
      (walkRepeat_eq (Tree.consume_le _ _) agree ⟨min, max⟩ offset 0 0 inside).symm

theorem matchAt_ne_empty (built : item.repetition min none = .ok repeated) (options : MatchOptions)
    (tokens : List Token) (position : Nat) :
    Matcher.matchAt ⟨item, options⟩ tokens position ≠ some ⟨position, 0⟩ := by
  intro empty
  have matched := (Matcher.matchAt_eq_some_iff.mp empty).2.2
  have positive := (repetition_checked built).2.2 rfl
  exact Tree.consume_ne_zero item.wellFormed positive _ _ matched

theorem takes_repetition_eq_some_iff (built : item.repetition min max = .ok repeated)
    (options : MatchOptions) {tokens : List Token} {offset : Nat} (inside : offset ≤ tokens.length)
    (taken : Nat) :
    Matcher.takes ⟨repeated, options⟩ tokens offset = some taken ↔
      Exhausts (Matcher.takes ⟨item, options⟩ tokens) ⟨min, max⟩ 0 offset (offset + taken) := by
  have ends : max = none → ∀ position,
      Matcher.takes ⟨item, options⟩ tokens position ≠ some 0 := by
    intro unbounded position empty
    subst unbounded
    exact matchAt_ne_empty built options tokens position (Matcher.takes_eq_some_iff.mp empty)
  rw [takes_repetition built options inside]
  exact walkRepeat_eq_some_iff (fun position taken => Matcher.takes_within)
    (repetition_checked built).2.1 ends offset 0 0 (fun most _ => Nat.zero_le most) taken

theorem iterate_takes {most : Nat} (built : item.repetition min (some most) = .ok repeated)
    (options : MatchOptions) {tokens : List Token} {offset : Nat} (inside : offset ≤ tokens.length) :
    iterate (Matcher.takes ⟨item, options⟩ tokens) min most 0 offset =
      (Matcher.takes ⟨repeated, options⟩ tokens offset).map (offset + ·) := by
  ext stop
  rw [iterate_eq_some_iff, Option.map_eq_some_iff, Nat.zero_add]
  constructor
  · intro run
    obtain ⟨count, chain, settled⟩ := run
    obtain ⟨taken, rfl⟩ := Nat.exists_eq_add_of_le chain.le
    have taking := takes_repetition_eq_some_iff built options inside taken
    exact ⟨taken, taking.mpr ⟨count, chain, settled⟩, rfl⟩
  · intro found
    obtain ⟨taken, matched, rfl⟩ := found
    exact (takes_repetition_eq_some_iff built options inside taken).mp matched

/-- A repetition matches just where a chain of matches of its item has to end, with empty matches
counted like any other. Where a greatest number is given, this is where the loop without an early
return ends, and where none is given, no match of the item is empty. -/
theorem repetition_matches_chain (built : item.repetition min max = .ok repeated)
    (options : MatchOptions) (tokens : List Token) (offset : Nat)
    (inside : offset ≤ tokens.length) :
    (∀ span, Matcher.matchAt ⟨repeated, options⟩ tokens offset = some span ↔
      span.start = offset ∧ ∃ count,
        Chain (Matcher.takes ⟨item, options⟩ tokens) offset count span.stop ∧
        min ≤ count ∧ (∀ most, max = some most → count ≤ most) ∧
        (max = some count ∨ Matcher.matchAt ⟨item, options⟩ tokens span.stop = none)) ∧
    (∀ most, max = some most →
      (Matcher.matchAt ⟨repeated, options⟩ tokens offset).map Span.stop =
        iterate (Matcher.takes ⟨item, options⟩ tokens) min most 0 offset) ∧
    (max = none → ∀ position,
      Matcher.matchAt ⟨item, options⟩ tokens position ≠ some ⟨position, 0⟩) := by
  refine ⟨?_, ?_, ?_⟩
  · intro span
    have taking := takes_repetition_eq_some_iff built options inside span.consumed
    rw [Exhausts, Matcher.takes_eq_some_iff] at taking
    simp only [Nat.zero_add, RepeatBounds.Allows, Matcher.takes_eq_none_iff, and_assoc] at taking
    constructor
    · intro matched
      have start : span.start = offset := (Matcher.matchAt_eq_some_iff.mp matched).1
      subst start
      exact ⟨rfl, taking.mp matched⟩
    · intro run
      obtain ⟨rfl, chain⟩ := run
      exact taking.mpr chain
  · intro most bounded
    subst bounded
    rw [iterate_takes built options inside, Matcher.matchAt_eq_takes, Option.map_map]
    rfl
  · intro unbounded position
    subst unbounded
    exact matchAt_ne_empty built options tokens position

def maybeNumber : Tree := .optional (.token ⟨Category.number, none⟩)

def maybe : Pattern := .built maybeNumber rfl

def maybeNumbers : Tree := .repetition maybeNumber ⟨2, some 3⟩

def maybeThrice : Pattern := .built maybeNumbers rfl

/-- The loop returns at the end, after one of the two items that it asks for. The chain goes on with
empty items until there are three. -/
theorem maybeThrice_matches_chain :
    maybe.repetition 2 (some 3) = .ok maybeThrice ∧ 0 ≤ [Token.number "1"].length ∧
      Matcher.matchAt ⟨maybeThrice, {}⟩ [.number "1"] 0 = some ⟨0, 1⟩ ∧
      (∃ count, Chain (Matcher.takes ⟨maybe, {}⟩ [.number "1"]) 0 count 1 ∧
        2 ≤ count ∧ (∀ most, some 3 = some most → count ≤ most) ∧
        (some 3 = some count ∨ Matcher.matchAt ⟨maybe, {}⟩ [.number "1"] 1 = none)) ∧
      iterate (Matcher.takes ⟨maybe, {}⟩ [.number "1"]) 2 3 0 0 = some 1 := by
  have built : maybe.repetition 2 (some 3) = .ok maybeThrice := rfl
  have inside : 0 ≤ [Token.number "1"].length := by decide
  have matched : Matcher.matchAt ⟨maybeThrice, {}⟩ [.number "1"] 0 = some ⟨0, 1⟩ := by
    decide +kernel
  have loop := repetition_matches_chain built {} [.number "1"] 0 inside
  refine ⟨built, inside, matched, ((loop.1 _).mp matched).2, ?_⟩
  rw [← loop.2.1 3 rfl, matched]
  rfl

end Pattern

end TokenPattern
