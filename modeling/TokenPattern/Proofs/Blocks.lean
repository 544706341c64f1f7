import Mathlib.Data.Nat.SuccPred
import Mathlib.Order.SuccPred.Archimedean
import TokenPattern.Match
import TokenPattern.Proofs.Construction

namespace TokenPattern

namespace Tree

/-- The opening, then as many tokens as there are at which the closing does not match, and then the
closing. -/
def block (opening closing : Tree) : Tree :=
  .sequence [opening, .repetition (.negation closing) ⟨0, none⟩, closing]

variable {ignoreCase : Bool}

theorem greedy_negation (ignoreCase : Bool) (item : Tree) (ahead : List Token) (count : Nat) :
    ∃ skipped, greedy ((negation item).consume ignoreCase) ⟨0, none⟩ count ahead = some skipped ∧
      skipped ≤ ahead.length ∧
      (∀ index < skipped, item.consume ignoreCase (ahead.drop index) = none) ∧
      (skipped < ahead.length → item.consume ignoreCase (ahead.drop skipped) ≠ none) := by
  induction ahead generalizing count with
  | nil => exact ⟨0, by simp [greedy, consume], by simp⟩
  | cons first rest later =>
      cases matched : item.consume ignoreCase (first :: rest) with
      | some taken =>
          refine ⟨0, ?_, Nat.zero_le _, by simp, ?_⟩
          · simp [greedy, consume, matched]
          · simp [matched]
      | none =>
          rcases later (count + 1) with ⟨skipped, run, inside, before, ended⟩
          refine ⟨skipped + 1, ?_, Nat.succ_le_succ inside, ?_, ?_⟩
          · rw [greedy]
            simp [consume, matched, run, Nat.add_comm]
          · intro index below
            cases index with
            | zero => exact matched
            | succ index => exact before index (Nat.lt_of_succ_lt_succ below)
          · intro below
            exact ended (Nat.lt_of_succ_lt_succ below)

theorem greedy_negation_iff (item : Tree) {ahead : List Token} {skipped final : Nat}
    (matched : item.consume ignoreCase (ahead.drop skipped) = some final) :
    greedy ((negation item).consume ignoreCase) ⟨0, none⟩ 0 ahead = some skipped ↔
      skipped ≤ ahead.length ∧
        ∀ index < skipped, item.consume ignoreCase (ahead.drop index) = none := by
  rcases greedy_negation ignoreCase item ahead 0 with ⟨stop, run, inside, before, ended⟩
  rw [run, Option.some.injEq]
  constructor
  · intro same
    subst same
    exact ⟨inside, before⟩
  · intro first
    rcases first with ⟨within, earlier⟩
    rcases Nat.lt_trichotomy stop skipped with below | same | above
    · exact absurd (earlier stop below) (ended (Nat.lt_of_lt_of_le below within))
    · exact same
    · rw [before skipped above] at matched
      cases matched

theorem consumeAll_three_iff (first second third : Tree) {ahead : List Token} {total : Nat} :
    consumeAll ignoreCase [first, second, third] ahead = some total ↔
      ∃ before between behind, first.consume ignoreCase ahead = some before ∧
        second.consume ignoreCase (ahead.drop before) = some between ∧
        third.consume ignoreCase (ahead.drop (before + between)) = some behind ∧
        before + between + behind = total := by
  constructor
  · intro run
    rcases consumeAll_cons_eq_some_iff.mp run with ⟨before, opened, _, rest, rfl⟩
    rcases consumeAll_cons_eq_some_iff.mp rest with ⟨between, looped, behind, last, rfl⟩
    rw [consumeAll_singleton, List.drop_drop] at last
    exact ⟨before, between, behind, opened, looped, last, Nat.add_assoc _ _ _⟩
  · intro run
    rcases run with ⟨before, between, behind, opened, looped, closed, sum⟩
    rw [← List.drop_drop, ← consumeAll_singleton] at closed
    rw [Nat.add_assoc] at sum
    have rest := consumeAll_cons_eq_some_iff.mpr ⟨between, looped, behind, closed, rfl⟩
    exact consumeAll_cons_eq_some_iff.mpr ⟨before, opened, _, rest, sum⟩

theorem consume_block_iff (opening closing : Tree) {ahead : List Token} {total : Nat} :
    (block opening closing).consume ignoreCase ahead = some total ↔
      ∃ taken skipped final, opening.consume ignoreCase ahead = some taken ∧
        closing.consume ignoreCase (ahead.drop (taken + skipped)) = some final ∧
        taken + skipped ≤ ahead.length ∧
        (∀ index < skipped, closing.consume ignoreCase (ahead.drop (taken + index)) = none) ∧
        taken + skipped + final = total := by
  have skips : ∀ {taken skipped final : Nat}, opening.consume ignoreCase ahead = some taken →
      closing.consume ignoreCase (ahead.drop (taken + skipped)) = some final →
        ((repetition (negation closing) ⟨0, none⟩).consume ignoreCase (ahead.drop taken) =
            some skipped ↔
          taken + skipped ≤ ahead.length ∧
            ∀ index < skipped, closing.consume ignoreCase (ahead.drop (taken + index)) = none) := by
    intro taken skipped final opened closed
    have bound := consume_le ignoreCase opening ahead taken opened
    rw [← List.drop_drop] at closed
    rw [consume, greedy_negation_iff closing closed, List.length_drop, Nat.le_sub_iff_add_le' bound]
    simp only [List.drop_drop]
  rw [block, consume, consumeAll_three_iff]
  constructor
  · intro run
    rcases run with ⟨taken, skipped, final, opened, looped, closed, sum⟩
    rcases (skips opened closed).mp looped with ⟨inside, before⟩
    exact ⟨taken, skipped, final, opened, closed, inside, before, sum⟩
  · intro run
    rcases run with ⟨taken, skipped, final, opened, closed, inside, before, sum⟩
    exact ⟨taken, skipped, final, opened, (skips opened closed).mpr ⟨inside, before⟩, closed, sum⟩

end Tree

namespace Matcher

variable {matcher : Matcher} {tokens : List Token}

theorem matchAt_mk_iff {offset taken : Nat} :
    matcher.matchAt tokens offset = some ⟨offset, taken⟩ ↔
      offset ≤ tokens.length ∧ matcher.consume (tokens.drop offset) = some taken := by
  rw [matchAt_eq_some_iff]
  exact ⟨And.right, fun found => ⟨rfl, found⟩⟩

/-- The positions from `start` on, the end of the tokens included, at which the pattern matches. -/
def places (matcher : Matcher) (tokens : List Token) (start : Nat) : Set Nat :=
  {position | start ≤ position ∧ position ≤ tokens.length ∧
    ∃ taken, matcher.matchAt tokens position = some ⟨position, taken⟩}

theorem mem_places_iff {start position : Nat} :
    position ∈ matcher.places tokens start ↔ start ≤ position ∧ position ≤ tokens.length ∧
      ∃ taken, matcher.consume (tokens.drop position) = some taken := by
  simp only [places, Set.mem_ofPred_eq, matchAt_mk_iff]
  constructor
  · intro place
    rcases place with ⟨after, inside, taken, -, matched⟩
    exact ⟨after, inside, taken, matched⟩
  · intro place
    rcases place with ⟨after, inside, taken, matched⟩
    exact ⟨after, inside, taken, inside, matched⟩

theorem isLeast_places_iff {start skipped final : Nat}
    (matched : matcher.consume (tokens.drop (start + skipped)) = some final) :
    IsLeast (matcher.places tokens start) (start + skipped) ↔
      start + skipped ≤ tokens.length ∧
        ∀ index < skipped, matcher.consume (tokens.drop (start + index)) = none := by
  constructor
  · intro least
    rcases mem_places_iff.mp least.1 with ⟨-, inside, -⟩
    refine ⟨inside, fun index below => ?_⟩
    by_contra found
    have place := least.2 (mem_places_iff.mpr
      ⟨Nat.le_add_right start index, by omega, Option.ne_none_iff_exists'.mp found⟩)
    omega
  · intro first
    rcases first with ⟨inside, before⟩
    constructor
    · exact mem_places_iff.mpr ⟨Nat.le_add_right start skipped, inside, final, matched⟩
    · intro position place
      rcases mem_places_iff.mp place with ⟨after, -, taken, found⟩
      rcases Nat.exists_eq_add_of_le after with ⟨index, rfl⟩
      by_contra earlier
      rw [before index (by omega)] at found
      cases found

end Matcher

namespace Pattern

def block (opening closing : Pattern) : Except BuildError Pattern := do
  let other ← closing.negation
  let skip ← other.repetition 0 none
  sequence [opening, skip, closing]

variable {opening closing whole : Pattern}

theorem block_settled (opening closing : Pattern) :
    Settled [.negation closing.tree, .repetition (.negation closing.tree) ⟨0, none⟩,
        .block opening.tree closing.tree]
      (·.tree = .block opening.tree closing.tree) (block opening closing) := by
  apply (negation_settled closing).bind
  intro other negated
  rw [← negated]
  apply (repetition_settled other 0 none).bind
  intro skip repeated
  rw [Tree.block, ← negated, ← repeated]
  exact sequence_settled [opening, skip, closing]

theorem matchAt_block_iff (built : block opening closing = .ok whole) (options : MatchOptions)
    {tokens : List Token} {offset : Nat} (inside : offset ≤ tokens.length) {total : Nat} :
    Matcher.matchAt ⟨whole, options⟩ tokens offset = some ⟨offset, total⟩ ↔
      ∃ taken position final,
        Matcher.matchAt ⟨opening, options⟩ tokens offset = some ⟨offset, taken⟩ ∧
        IsLeast (Matcher.places ⟨closing, options⟩ tokens (offset + taken)) position ∧
        Matcher.matchAt ⟨closing, options⟩ tokens position = some ⟨position, final⟩ ∧
        position - offset + final = total := by
  have parts : Matcher.matchAt ⟨whole, options⟩ tokens offset = some ⟨offset, total⟩ ↔
      ∃ taken skipped final, Matcher.consume ⟨opening, options⟩ (tokens.drop offset) = some taken ∧
        Matcher.consume ⟨closing, options⟩ (tokens.drop (offset + taken + skipped)) = some final ∧
        taken + skipped ≤ tokens.length - offset ∧
        (∀ index < skipped,
          Matcher.consume ⟨closing, options⟩ (tokens.drop (offset + taken + index)) = none) ∧
        taken + skipped + final = total := by
    simp only [Matcher.matchAt_mk_iff, Matcher.consume, (block_settled opening closing).shape built,
      Tree.consume_block_iff, inside, true_and, List.drop_drop, List.length_drop, Nat.add_assoc]
  rw [parts]
  simp only [Matcher.matchAt_mk_iff, inside, true_and]
  constructor
  · intro found
    rcases found with ⟨taken, skipped, final, opened, closed, within, before, sum⟩
    have least := (Matcher.isLeast_places_iff closed).mpr ⟨by omega, before⟩
    exact ⟨taken, offset + taken + skipped, final, opened, least, ⟨by omega, closed⟩, by omega⟩
  · intro found
    rcases found with ⟨taken, position, final, opened, least, ⟨within, closed⟩, sum⟩
    rcases Nat.exists_eq_add_of_le least.1.1 with ⟨skipped, rfl⟩
    have before := ((Matcher.isLeast_places_iff closed).mp least).2
    exact ⟨taken, skipped, final, opened, closed, by omega, before, by omega⟩

/-- A block matches just where its opening does, if its closing matches at some place behind that, be
it the end of the tokens, and it then ends with the first match of the closing. -/
theorem block_ends_first (built : block opening closing = .ok whole) (options : MatchOptions)
    (tokens : List Token) (offset : Nat) (inside : offset ≤ tokens.length) :
    ((∃ span, Matcher.matchAt ⟨whole, options⟩ tokens offset = some span) ↔
      ∃ taken, Matcher.matchAt ⟨opening, options⟩ tokens offset = some ⟨offset, taken⟩ ∧
        (Matcher.places ⟨closing, options⟩ tokens (offset + taken)).Nonempty) ∧
    ∀ taken position final,
      Matcher.matchAt ⟨opening, options⟩ tokens offset = some ⟨offset, taken⟩ →
      IsLeast (Matcher.places ⟨closing, options⟩ tokens (offset + taken)) position →
      Matcher.matchAt ⟨closing, options⟩ tokens position = some ⟨position, final⟩ →
        Matcher.matchAt ⟨whole, options⟩ tokens offset =
          some ⟨offset, position - offset + final⟩ := by
  refine ⟨⟨?_, ?_⟩, ?_⟩
  · intro matched
    rcases matched with ⟨span, matched⟩
    have start := (Matcher.matchAt_eq_some_iff.mp matched).1
    subst start
    rcases (matchAt_block_iff built options inside).mp matched with
      ⟨taken, position, final, opened, least, -⟩
    exact ⟨taken, opened, least.nonempty⟩
  · intro found
    rcases found with ⟨taken, opened, later⟩
    rcases (OrderBot.bddBelow _).exists_isLeast_of_nonempty later with ⟨position, least⟩
    rcases least.1.2.2 with ⟨final, closed⟩
    exact ⟨_, (matchAt_block_iff built options inside).mpr
      ⟨taken, position, final, opened, least, closed, rfl⟩⟩
  · intro taken position final opened least closed
    exact (matchAt_block_iff built options inside).mpr
      ⟨taken, position, final, opened, least, closed, rfl⟩

def beginEnd : Pattern := .built (.block (keyword "BEGIN").tree (keyword "END").tree) rfl

def blockTokens : List Token :=
  [.keyword "BEGIN", .identifier "a", .keyword "END", .identifier "b", .keyword "END"]

theorem beginEnd_ends_first :
    block (keyword "BEGIN") (keyword "END") = .ok beginEnd ∧ 0 ≤ blockTokens.length ∧
      Matcher.matchAt ⟨keyword "BEGIN", {}⟩ blockTokens 0 = some ⟨0, 1⟩ ∧
      IsLeast (Matcher.places ⟨keyword "END", {}⟩ blockTokens 1) 2 ∧
      Matcher.matchAt ⟨keyword "END", {}⟩ blockTokens 2 = some ⟨2, 1⟩ ∧
      Matcher.matchAt ⟨beginEnd, {}⟩ blockTokens 0 = some ⟨0, 3⟩ := by
  have built : block (keyword "BEGIN") (keyword "END") = .ok beginEnd := rfl
  have inside : 0 ≤ blockTokens.length := Nat.zero_le _
  have opened : Matcher.matchAt ⟨keyword "BEGIN", {}⟩ blockTokens 0 = some ⟨0, 1⟩ := by
    decide +kernel
  have closed : Matcher.matchAt ⟨keyword "END", {}⟩ blockTokens 2 = some ⟨2, 1⟩ := by
    decide +kernel
  have least : IsLeast (Matcher.places ⟨keyword "END", {}⟩ blockTokens 1) 2 := by
    have end_found := (Matcher.matchAt_mk_iff.mp closed).2
    exact (@Matcher.isLeast_places_iff _ _ 1 1 1 end_found).mpr ⟨by decide, by decide +kernel⟩
  have first := (block_ends_first built {} blockTokens 0 inside).2 1 2 1 opened least closed
  exact ⟨built, inside, opened, least, closed, first⟩

end Pattern

end TokenPattern
