import TokenPattern.Proofs.Construction
import TokenPattern.Proofs.Soundness

/-!
What is tried in vain looks ahead as well, but each attempt begins no further on than the parts before
it can take. A negation takes one token only while its item may look further, so that the items of
negations must not take more than one token.
-/

namespace TokenPattern

/-- The first `width` tokens ahead decide what a step takes. -/
def DecidedBy (width : Nat) (step : List Token → Option Nat) : Prop :=
  ∀ ahead, step (ahead.take width) = step ahead

variable {step : List Token → Option Nat} {width : Nat}

theorem DecidedBy.mono (decided : DecidedBy width step) {wider : Nat} (room : width ≤ wider) :
    DecidedBy wider step := by
  intro ahead
  calc
    step (ahead.take wider) = step ((ahead.take wider).take width) := (decided _).symm
    _ = step (ahead.take width) := by rw [List.take_take, Nat.min_eq_left room]
    _ = step ahead := decided ahead

theorem greedy_decided (decided : DecidedBy width step)
    (within : ∀ ahead taken, step ahead = some taken → taken ≤ width) {times : RepeatBounds}
    {max : Nat} (bounded : times.max = some max) (count : Nat) (ahead : List Token) :
    ∀ left room, max ≤ count + left → left * width ≤ room →
      greedy step times count (ahead.take room) = greedy step times count ahead := by
  -- where one more attempt is allowed, its tokens are there
  have reach : ∀ {count left room : Nat}, times.allowsMore count = true → max ≤ count + left →
      left * width ≤ room → ∃ fewer, left = fewer + 1 ∧ fewer * width + width ≤ room := by
    intro count left room allowed enough wide
    have below := RepeatBounds.allowsMore_iff.mp allowed max bounded
    cases left with
    | zero => omega
    | succ fewer => exact ⟨fewer, rfl, by rwa [← Nat.succ_mul]⟩
  fun_induction greedy step times count ahead with
  | case1 count ahead allowed failed =>
      intro left room enough wide
      rcases reach allowed enough wide with ⟨fewer, -, room_le⟩
      rw [greedy, if_pos allowed, decided.mono (by omega) ahead, failed]
  | case2 count ahead allowed empty =>
      intro left room enough wide
      rcases reach allowed enough wide with ⟨fewer, -, room_le⟩
      rw [greedy, if_pos allowed, decided.mono (by omega) ahead, empty]
  | case3 count allowed more matched =>
      intro left room enough wide
      rw [List.take_nil, greedy, if_pos allowed, matched]
  | case4 count allowed more token rest matched later =>
      intro left room enough wide
      rcases reach allowed enough wide with ⟨fewer, rfl, room_le⟩
      have taken := within _ _ matched
      have same := decided.mono (show width ≤ room by omega) (token :: rest)
      cases room with
      | zero => omega
      | succ room =>
          rw [List.take_succ_cons] at same ⊢
          rw [greedy.eq_def, if_pos allowed, same, matched]
          simp only
          rw [List.drop_take, later fewer (room - more) (by omega) (by omega)]
  | case5 count ahead full =>
      intro left room enough wide
      rw [greedy, if_neg full]

namespace LengthBounds

theorem foldl_union_max {parts : List LengthBounds} {first : LengthBounds} {max : Nat}
    (bounded : (parts.foldl union first).max = some max) :
    ∀ part ∈ first :: parts, ∃ most, part.max = some most ∧ most ≤ max := by
  induction parts generalizing first with
  | nil =>
      intro part member
      rw [List.mem_singleton.mp member]
      exact ⟨max, bounded, Nat.le_refl max⟩
  | cons part parts rest =>
      have each := List.forall_mem_cons.mp (rest bounded)
      rcases each.1 with ⟨both, top, low⟩
      rcases union_max_eq_some_iff.mp top with ⟨a, b, firstMax, partMax, rfl⟩
      rw [List.forall_mem_cons, List.forall_mem_cons]
      refine ⟨⟨a, firstMax, ?_⟩, ⟨b, partMax, ?_⟩, each.2⟩
      · exact Nat.le_trans (Nat.le_max_left a b) low
      · exact Nat.le_trans (Nat.le_max_right a b) low

end LengthBounds

namespace Tree

open LengthBounds

/-- The items of all negations in the tree take one token at most. -/
def NarrowNegations (tree : Tree) : Prop :=
  ∀ item, .negation item ∈ tree.postorder → item.bounds.max = some 0 ∨ item.bounds.max = some 1

theorem NarrowNegations.part {tree part : Tree} (narrow : tree.NarrowNegations)
    (member : part ∈ tree.children) : part.NarrowNegations :=
  fun item inside => narrow item (mem_postorder.mpr (.inl ⟨part, member, inside⟩))

variable {ignoreCase : Bool}

theorem consumeAll_decided {items : List Tree} (wellFormed : ∀ item ∈ items, item.WellFormed)
    (each : ∀ item ∈ items, ∀ width, item.bounds.max = some width →
      DecidedBy width (item.consume ignoreCase))
    {start : LengthBounds} {max : Nat}
    (bounded : ((items.map bounds).foldl append start).max = some max) :
    ∃ before, start.max = some before ∧ before ≤ max ∧
      DecidedBy (max - before) (consumeAll ignoreCase items) := by
  induction items generalizing start with
  | nil => exact ⟨max, bounded, Nat.le_refl max, fun ahead => rfl⟩
  | cons item items rest =>
      rcases List.forall_mem_cons.mp wellFormed with ⟨first, others⟩
      rcases List.forall_mem_cons.mp each with ⟨head, tail⟩
      rcases rest others tail bounded with ⟨both, top, low, later⟩
      rcases append_max_eq_some_iff.mp top with ⟨before, width, startMax, itemMax, sum, -⟩
      refine ⟨before, startMax, by omega, fun ahead => ?_⟩
      have same := (head width itemMax).mono (show width ≤ max - before by omega) ahead
      rw [consumeAll, consumeAll, same]
      cases matched : item.consume ignoreCase ahead with
      | none => rfl
      | some taken =>
          have inside := consume_le_max first itemMax matched
          have behind := later.mono (show max - both ≤ max - before - taken by omega)
            (ahead.drop taken)
          simp only [Option.bind_eq_bind, Option.bind_some]
          rw [List.drop_take, behind]

theorem consumeFirst_decided {choices : List Tree} {width : Nat}
    (each : ∀ choice ∈ choices, DecidedBy width (choice.consume ignoreCase)) :
    DecidedBy width (consumeFirst ignoreCase choices) := by
  induction choices with
  | nil => exact fun ahead => rfl
  | cons choice choices rest =>
      intro ahead
      rcases List.forall_mem_cons.mp each with ⟨head, tail⟩
      rw [consumeFirst, consumeFirst, head ahead, rest tail ahead]

theorem choice_max_le {choices : List Tree} {width : Nat}
    (bounded : (alternative choices).bounds.max = some width) :
    ∀ choice ∈ choices, ∃ most, choice.bounds.max = some most ∧ most ≤ width := by
  cases choices with
  | nil => simp
  | cons first choices =>
      rw [bounds_alternative, List.map_cons] at bounded
      intro choice member
      exact foldl_union_max bounded _ (List.mem_map_of_mem (f := bounds) member)

theorem repetition_max_eq_none {item : Tree} {times : RepeatBounds} (endless : times.max = none)
    (inner : item.WellFormed) (positive : item.bounds.min ≠ 0) :
    (repetition item times).bounds.max = none := by
  rw [bounds]
  apply repeated_max_of_none endless
  intro never
  rcases (bounds_tight inner).nonempty with ⟨length, word, member, rfl⟩
  have covered := contains_iff.mp (item.bounds_cover word member)
  have most := covered.2 0 never
  omega

theorem repetition_decided {item : Tree} {times : RepeatBounds} {width : Nat}
    (wellFormed : (repetition item times).WellFormed)
    (decided : ∀ width, item.bounds.max = some width → DecidedBy width (item.consume ignoreCase))
    (bounded : (repetition item times).bounds.max = some width) :
    DecidedBy width (greedy (item.consume ignoreCase) times 0) := by
  intro ahead
  cases wellFormed with
  | repetition ordered ends inner =>
      cases top : times.max with
      | none => simp [repetition_max_eq_none top inner (ends top)] at bounded
      | some max =>
          cases max with
          | zero =>
              have full : ¬ times.allowsMore 0 = true := by simp [top]
              rw [greedy, greedy, if_neg full, if_neg full]
          | succ max =>
              rw [bounds] at bounded
              rcases (repeated_max_eq_some_iff top).mp bounded with ⟨most, itemMax, product, -⟩
              exact greedy_decided (decided most itemMax)
                (fun ahead taken => consume_le_max inner itemMax) top 0 ahead (max + 1) width
                (by omega) (Nat.le_of_eq product)

theorem consume_decided (ignoreCase : Bool) {tree : Tree} (wellFormed : tree.WellFormed) :
    tree.NarrowNegations → ∀ width, tree.bounds.max = some width →
      DecidedBy width (tree.consume ignoreCase) := by
  induction wellFormed with
  | token spec =>
      intro narrow width bounded ahead
      rw [← Option.some.inj bounded]
      cases ahead <;> rfl
  | any =>
      intro narrow width bounded ahead
      rw [← Option.some.inj bounded]
      cases ahead <;> rfl
  | @sequence items filled wellFormed each =>
      intro narrow width bounded ahead
      rw [bounds_sequence, concat] at bounded
      have decided := consumeAll_decided wellFormed
        (fun item member => each item member (narrow.part member)) bounded
      rcases decided with ⟨before, nothing, -, decided⟩
      rw [← Option.some.inj nothing] at decided
      exact decided ahead
  | @alternative choices filled wellFormed each =>
      intro narrow width bounded ahead
      rw [consume, consume]
      apply consumeFirst_decided
      intro choice member
      rcases choice_max_le bounded choice member with ⟨most, top, low⟩
      exact (each choice member (narrow.part member) most top).mono low
  | @optional item inner decided =>
      intro narrow width bounded ahead
      have same := decided (narrow.part List.mem_cons_self) width bounded ahead
      rw [consume, consume, same]
  | @repetition item times ordered ends inner decided =>
      intro narrow width bounded ahead
      rw [consume, consume]
      exact repetition_decided (.repetition ordered ends inner)
        (decided (narrow.part List.mem_cons_self)) bounded ahead
  | @negation item inner decided =>
      intro narrow width bounded ahead
      have inside := decided (narrow.part List.mem_cons_self)
      -- a negation takes one token only, whatever its item looks at
      have single : DecidedBy 1 (item.consume ignoreCase) := by
        rcases narrow item (self_mem_postorder _) with none | one
        · exact (inside 0 none).mono (Nat.zero_le 1)
        · exact inside 1 one
      rw [← Option.some.inj bounded]
      cases ahead with
      | nil => rfl
      | cons first rest =>
          have same : item.consume ignoreCase [first] = item.consume ignoreCase (first :: rest) :=
            single (first :: rest)
          change consume ignoreCase (.negation item) [first] = _
          rw [consume, consume, same]

end Tree

namespace Matcher

/-- Tokens behind the greatest length of a pattern change nothing, neither a match nor a failure, if
the items of its negations take one token at most. -/
theorem matchAt_looks_ahead (matcher : Matcher) (width : Nat)
    (bounded : matcher.pattern.bounds.max = some width)
    (narrow : matcher.pattern.tree.NarrowNegations) (tokens : List Token) (offset : Nat)
    (inside : offset ≤ tokens.length) :
    matcher.matchAt (tokens.take (min tokens.length (offset + width))) offset =
      matcher.matchAt tokens offset := by
  rw [matcher.pattern.bounds_eq] at bounded
  have decided := Tree.consume_decided matcher.options.ignoreCase matcher.pattern.wellFormed narrow
    width bounded
  have cut : (tokens.take (min tokens.length (offset + width))).drop offset =
      (tokens.drop offset).take width := by
    rw [← List.take_take, List.take_of_length_le (List.length_take_le' _ _), List.drop_take,
      Nat.add_sub_cancel_left]
  have kept : offset ≤ (tokens.take (min tokens.length (offset + width))).length := by
    rw [List.length_take]
    omega
  rw [matchAt, matchAt, if_pos kept, if_pos inside, cut, consume, consume, decided]

def statements : List Token :=
  [.identifier "x", .keyword "END", .number "1", .number "2", .number "3", .number "4",
    .number "5", .keyword "END"]

theorem untilEnd_looks_ahead :
    untilEnd.bounds.max = some 5 ∧ untilEnd.tree.NarrowNegations ∧
      0 ≤ statements.length ∧ matchAt ⟨untilEnd, {}⟩ (statements.take 5) 0 = some ⟨0, 2⟩ ∧
      matchAt ⟨untilEnd, {}⟩ statements 0 = some ⟨0, 2⟩ ∧
      2 ≤ statements.length ∧ matchAt ⟨untilEnd, {}⟩ (statements.take 7) 2 = none ∧
      matchAt ⟨untilEnd, {}⟩ statements 2 = none := by
  have narrow : untilEnd.tree.NarrowNegations := by
    intro item member
    have inside : .negation item ∈ othersUntilEnd.postorder := member
    have token : item = .token ⟨Category.keyword, some "END"⟩ := by
      simpa [othersUntilEnd, Tree.postorder] using inside
    subst token
    exact .inr rfl
  have start : 0 ≤ statements.length := by decide
  have middle : 2 ≤ statements.length := by decide
  have first := matchAt_looks_ahead ⟨untilEnd, {}⟩ 5 rfl narrow statements 0 start
  have second := matchAt_looks_ahead ⟨untilEnd, {}⟩ 5 rfl narrow statements 2 middle
  have found : matchAt ⟨untilEnd, {}⟩ statements 0 = some ⟨0, 2⟩ := by decide +kernel
  have failed : matchAt ⟨untilEnd, {}⟩ statements 2 = none := by decide +kernel
  exact ⟨rfl, narrow, start, first.trans found, found, middle, second.trans failed, failed⟩

end Matcher

end TokenPattern
