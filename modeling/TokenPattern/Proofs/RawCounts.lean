import Mathlib.Algebra.BigOperators.Intervals
import Mathlib.Algebra.Order.BigOperators.Group.Finset
import Mathlib.Algebra.Order.BigOperators.GroupWithZero.List
import Mathlib.Algebra.Order.Ring.Nat
import TokenPattern.Proofs.Enumeration
import TokenPattern.Proofs.Tightness

namespace TokenPattern

namespace Tree

mutual

def rawCount : Tree → Nat
  | .token _ => 1
  | .any => 1
  | .sequence items => (rawCountOfAll items).prod
  | .alternative choices => (rawCountOfAll choices).sum
  | .optional item => item.rawCount + 1
  | .repetition item times =>
      match times.max with
      | none => 0
      | some max => ∑ count ∈ Finset.Icc times.min max, item.rawCount ^ count
  | .negation _ => 1

def rawCountOfAll : List Tree → List Nat
  | [] => []
  | item :: items => item.rawCount :: rawCountOfAll items

end

mutual

/-- The nodes of a tree that do not lie inside the item of a negation. -/
def openNodes : Tree → List Tree
  | .token spec => [.token spec]
  | .any => [.any]
  | .sequence items => .sequence items :: openNodesOfAll items
  | .alternative choices => .alternative choices :: openNodesOfAll choices
  | .optional item => .optional item :: item.openNodes
  | .repetition item times => .repetition item times :: item.openNodes
  | .negation item => [.negation item]

def openNodesOfAll : List Tree → List Tree
  | [] => []
  | item :: items => item.openNodes ++ openNodesOfAll items

end

structure Fits (limit : Nat) (node : Tree) : Prop where
  count_le : node.isLeaf = false → node.rawCount ≤ limit
  max_le : ∀ item times, node = .repetition item times → ∃ max, times.max = some max ∧ max ≤ limit

@[simp] theorem rawCountOfAll_eq (items : List Tree) : rawCountOfAll items = items.map rawCount := by
  induction items with
  | nil => rfl
  | cons item items each => simp [rawCountOfAll, each]

@[simp] theorem openNodesOfAll_eq (items : List Tree) :
    openNodesOfAll items = items.flatMap openNodes := by
  induction items with
  | nil => rfl
  | cons item items each => simp [openNodesOfAll, each]

theorem rawCount_sequence (items : List Tree) :
    (sequence items).rawCount = (items.map rawCount).prod := by
  simp [rawCount]

theorem rawCount_alternative (choices : List Tree) :
    (alternative choices).rawCount = (choices.map rawCount).sum := by
  simp [rawCount]

theorem rawCount_repetition {item : Tree} {times : RepeatBounds} {max : Nat}
    (bounded : times.max = some max) :
    (repetition item times).rawCount = ∑ count ∈ Finset.Icc times.min max, item.rawCount ^ count := by
  simp only [rawCount, bounded]

end Tree

namespace Expansion

variable {limit : Nat}

theorem check_eq_ok_iff_le (small : limit < maxCount) {count : Nat} :
    check limit count = .ok () ↔ count ≤ limit := by
  rw [check_eq_ok_iff, saturate]
  omega

theorem length_concatenations (parts : List (List Word)) :
    (concatenations parts).length = (parts.map List.length).prod := by
  induction parts with
  | nil => rfl
  | cons part parts rest =>
      rw [concatenations, length_joined, rest, List.map_cons, List.prod_cons]

theorem length_repeated (once : List Word) (count : Nat) :
    (repeated once count).length = once.length ^ count := by
  rw [repeated, length_concatenations, List.map_replicate, List.prod_replicate]

theorem length_falling_repeated (min max : Nat) (once : List Word) :
    (falling min 0 max (repeated once)).length =
      ∑ count ∈ Finset.Icc min max, once.length ^ count := by
  rw [falling_eq, List.length_flatMap, List.map_reverse, List.sum_reverse, Nat.Icc_eq_range']
  simp only [length_repeated]
  rfl

theorem length_le_falling {min count left : Nat} (reached : min ≤ count + left)
    (block : Nat → List Word) :
    (block left).length ≤ (falling min count left block).length := by
  have last : left ∈ ((List.range (left + 1)).filter fun more => min ≤ count + more).reverse := by
    simp [reached]
  exact (List.sublist_flatten_of_mem (List.mem_map_of_mem last)).length_le

theorem length_withPower {min count : Nat} {power kept : List Word} (reached : min ≤ count) :
    (withPower min count power kept).length = power.length + kept.length := by
  rw [withPower, if_pos reached, List.length_append]

/-- Powers succeed just if there are not too many words at the end: each number that is checked on
the way counts some of these words, or at most as many as the greatest number of repetitions has. -/
theorem exists_powers_iff (small : limit < maxCount) {min left count : Nat}
    {once power kept : List Word} (reached : min ≤ count + left) (filled : 0 < once.length)
    (positive : 0 < power.length) :
    (∃ words, powers limit min once left count power kept = .ok words) ↔
      (falling min count left (fun more => joined power (repeated once more)) ++ kept).length ≤
        limit := by
  induction left generalizing count power kept with
  | zero =>
      simp only [powers_zero_eq_ok_iff, check_eq_ok_iff_le small]
      have enough : min ≤ count := reached
      simp [enough, falling, repeated, concatenations]
  | succ left rest =>
      have next : min ≤ count + 1 + left := by omega
      have more : 0 < (joined power once).length := by
        rw [length_joined]
        exact Nat.mul_pos positive filled
      have later : (∃ words, powers limit min once left (count + 1) (joined power once)
          (withPower min count power kept) = .ok words) ↔ _ := rest next more
      simp only [powers_succ_eq_ok_iff, check_eq_ok_iff_le small, exists_and_left]
      rw [later, falling_powers]
      constructor
      · exact fun checked => checked.2.2
      · intro total
        have last := length_le_falling next fun more =>
          joined (joined power once) (repeated once more)
        simp only [length_joined, length_repeated, List.length_append] at last total
        refine ⟨?_, ?_, by simpa using total⟩
        · intro enough
          rw [length_withPower enough] at total
          omega
        · calc
            power.length * once.length ≤ power.length * once.length * once.length ^ left :=
              Nat.le_mul_of_pos_right _ (Nat.pow_pos filled)
            _ ≤ limit := by omega

end Expansion

namespace Tree

open Expansion

variable {limit : Nat}

theorem length_words (tree : Tree) :
    ∀ words, tree.words limit = .ok words → words.length = tree.rawCount := by
  induction tree with
  | token spec =>
      intro words result
      rw [← Except.ok.inj result]
      rfl
  | any =>
      intro words result
      rw [← Except.ok.inj result]
      rfl
  | sequence items each =>
      intro words result
      rcases wordsOfAll_ok result with ⟨parts, listed, rfl⟩
      rw [one_joined, length_concatenations, map_parts each listed, rawCount_sequence]
  | alternative choices each =>
      intro words result
      rcases wordsOfEach_ok result with ⟨parts, listed, rfl⟩
      rw [List.nil_append, List.length_flatten, map_parts each listed, rawCount_alternative]
  | optional item inner =>
      intro words result
      rcases words_optional_ok result with ⟨present, listed, rfl⟩
      rw [List.length_append, inner present listed, rawCount, List.length_singleton]
  | repetition item times inner =>
      intro words result
      rcases words_repetition_ok result with ⟨max, once, bounded, listed, rfl⟩
      rw [length_falling_repeated, inner once listed, rawCount_repetition bounded]
  | negation item inner =>
      intro words result
      rw [← Except.ok.inj result]
      rfl

theorem rawCount_pos {tree : Tree} (wellFormed : tree.WellFormed) {words : List Word}
    (listed : tree.words limit = .ok words) : 0 < tree.rawCount := by
  rcases (bounds_tight wellFormed).nonempty with ⟨length, word, member, -⟩
  rw [← words_language tree words listed, mem_languageOf] at member
  rw [← length_words tree words listed]
  exact List.length_pos_of_mem member

theorem prod_rawCount_pos {items : List Tree} (wellFormed : ∀ item ∈ items, item.WellFormed)
    (each : ∀ item ∈ items, ∃ words, item.words limit = .ok words) :
    0 < (items.map rawCount).prod := by
  apply List.prod_pos
  intro count member
  rcases List.mem_map.mp member with ⟨item, present, rfl⟩
  rcases each item present with ⟨words, listed⟩
  exact rawCount_pos (wellFormed item present) listed

/-- The words of a sequence can be listed just if those of its items can and if there are not too
many of them: as no factor is zero, the product of the first few items is no greater. -/
theorem exists_wordsOfAll_iff (small : limit < maxCount) {items : List Tree}
    (wellFormed : ∀ item ∈ items, item.WellFormed) {front : List Word} (filled : 0 < front.length) :
    (∃ words, wordsOfAll limit front items = .ok words) ↔
      (∀ item ∈ items, ∃ words, item.words limit = .ok words) ∧
        (items ≠ [] → front.length * (items.map rawCount).prod ≤ limit) := by
  induction items generalizing front with
  | nil => simp [wordsOfAll]
  | cons item items rest =>
      rcases List.forall_mem_cons.mp wellFormed with ⟨first, others⟩
      have step : ∀ part, item.words limit = .ok part →
          (Expansion.joined front part).length = front.length * item.rawCount ∧
            0 < (Expansion.joined front part).length := by
        intro part listed
        have length := length_words item part listed
        rw [length_joined, length]
        exact ⟨rfl, Nat.mul_pos filled (rawCount_pos first listed)⟩
      simp only [wordsOfAll, bind_eq_ok_iff, product_eq_ok_iff, check_eq_ok_iff_le small,
        List.map_cons, List.prod_cons, ← Nat.mul_assoc, ← length_joined]
      constructor
      · intro succeeds
        rcases succeeds with ⟨words, part, listed, -, ⟨fits, rfl⟩, later⟩
        rcases step part listed with ⟨length, positive⟩
        rcases (rest others positive).mp ⟨words, later⟩ with ⟨each, total⟩
        refine ⟨List.forall_mem_cons.mpr ⟨⟨part, listed⟩, each⟩, fun _ => ?_⟩
        rw [← length]
        cases items with
        | nil => simpa using fits
        | cons => exact total (by simp)
      · intro fits
        rcases fits with ⟨each, total⟩
        rcases List.forall_mem_cons.mp each with ⟨⟨part, listed⟩, each⟩
        rcases step part listed with ⟨length, positive⟩
        have whole := total (by simp)
        rw [← length] at whole
        have below : (Expansion.joined front part).length ≤ limit := by
          calc
            (Expansion.joined front part).length ≤
                (Expansion.joined front part).length * (items.map rawCount).prod :=
              Nat.le_mul_of_pos_right _ (prod_rawCount_pos others each)
            _ ≤ limit := whole
        rcases (rest others positive).mpr ⟨each, fun _ => whole⟩ with ⟨words, later⟩
        exact ⟨words, part, listed, Expansion.joined front part, ⟨below, rfl⟩, later⟩

theorem exists_wordsOfEach_iff (small : limit < maxCount) {choices : List Tree}
    {front : List Word} :
    (∃ words, wordsOfEach limit front choices = .ok words) ↔
      (∀ choice ∈ choices, ∃ words, choice.words limit = .ok words) ∧
        (choices ≠ [] → front.length + (choices.map rawCount).sum ≤ limit) := by
  induction choices generalizing front with
  | nil => simp [wordsOfEach]
  | cons choice choices rest =>
      simp only [wordsOfEach, bind_eq_ok_iff, check_eq_ok_iff_le small, exists_const,
        List.map_cons, List.sum_cons, ← Nat.add_assoc]
      constructor
      · intro succeeds
        rcases succeeds with ⟨words, part, listed, fits, later⟩
        rcases rest.mp ⟨words, later⟩ with ⟨each, total⟩
        refine ⟨List.forall_mem_cons.mpr ⟨⟨part, listed⟩, each⟩, fun _ => ?_⟩
        rw [List.length_append, length_words choice part listed] at total
        rw [length_words choice part listed] at fits
        cases choices with
        | nil => simpa using fits
        | cons => exact total (by simp)
      · intro fits
        rcases fits with ⟨each, total⟩
        rcases List.forall_mem_cons.mp each with ⟨⟨part, listed⟩, each⟩
        have whole := total (by simp)
        rw [← length_words choice part listed, ← List.length_append] at whole
        rcases rest.mpr ⟨each, fun _ => whole⟩ with ⟨words, later⟩
        refine ⟨words, part, listed, ?_, later⟩
        rw [List.length_append] at whole
        omega

theorem exists_optional_iff (small : limit < maxCount) {item : Tree} :
    (∃ words, (optional item).words limit = .ok words) ↔
      (∃ words, item.words limit = .ok words) ∧ (optional item).rawCount ≤ limit := by
  simp only [Tree.words, bind_eq_ok_iff, check_eq_ok_iff_le small, exists_const, rawCount]
  constructor
  · intro succeeds
    rcases succeeds with ⟨words, present, listed, fits, -⟩
    rw [length_words item present listed] at fits
    exact ⟨⟨present, listed⟩, fits⟩
  · intro fits
    rcases fits with ⟨⟨present, listed⟩, total⟩
    rw [← length_words item present listed] at total
    exact ⟨_, present, listed, total, rfl⟩

theorem repeats_le_rawCount {item : Tree} {times : RepeatBounds} {max : Nat}
    (bounded : times.max = some max) (positive : 0 < item.rawCount) :
    max + 1 - times.min ≤ (repetition item times).rawCount := by
  calc
    max + 1 - times.min = ∑ _count ∈ Finset.Icc times.min max, 1 := by
      rw [← Finset.card_eq_sum_ones, Nat.card_Icc]
    _ ≤ ∑ count ∈ Finset.Icc times.min max, item.rawCount ^ count :=
      Finset.sum_le_sum fun count _ => Nat.pow_pos positive
    _ = (repetition item times).rawCount := (rawCount_repetition bounded).symm

theorem exists_repetition_iff (small : limit < maxCount) {item : Tree} {times : RepeatBounds}
    {max : Nat} (bounded : times.max = some max) (ordered : times.min ≤ max)
    (wellFormed : item.WellFormed) :
    (∃ words, (repetition item times).words limit = .ok words) ↔
      (∃ words, item.words limit = .ok words) ∧ (repetition item times).rawCount ≤ limit ∧
        max ≤ limit := by
  have reached : times.min ≤ 0 + max := by omega
  have succeeds : ∀ once, item.words limit = .ok once →
      ((∃ words, powers limit times.min once max 0 [[]] [] = .ok words) ↔
        (repetition item times).rawCount ≤ limit) := by
    intro once listed
    have length := length_words item once listed
    have filled : 0 < once.length := by
      rw [length]
      exact rawCount_pos wellFormed listed
    have start : 0 < ([[]] : List Word).length := Nat.one_pos
    rw [exists_powers_iff small reached filled start, rawCount_repetition bounded, ← length,
      ← length_falling_repeated]
    simp only [one_joined, List.append_nil]
  simp only [words_repetition_eq_ok_iff bounded, check_eq_ok_iff_le small]
  constructor
  · intro result
    rcases result with ⟨words, below, -, once, listed, all⟩
    exact ⟨⟨once, listed⟩, (succeeds once listed).mp ⟨words, all⟩, below⟩
  · intro fits
    rcases fits with ⟨⟨once, listed⟩, total, below⟩
    rcases (succeeds once listed).mpr total with ⟨words, all⟩
    have numbers := repeats_le_rawCount bounded (rawCount_pos wellFormed listed)
    exact ⟨words, below, by omega, once, listed, all⟩

theorem fits_iff {node : Tree} (inner : node.isLeaf = false)
    (once : ∀ item times, node ≠ .repetition item times) :
    node.Fits limit ↔ node.rawCount ≤ limit := by
  constructor
  · intro fits
    exact fits.count_le inner
  · intro below
    exact ⟨fun _ => below, fun item times same => absurd same (once item times)⟩

theorem fits_leaf {node : Tree} (leaf : node.isLeaf = true) : node.Fits limit := by
  constructor
  · intro inner
    rw [leaf] at inner
    cases inner
  · intro item times same
    subst same
    cases leaf

theorem fits_repetition_iff {item : Tree} {times : RepeatBounds} :
    (repetition item times).Fits limit ↔
      (repetition item times).rawCount ≤ limit ∧ ∃ max, times.max = some max ∧ max ≤ limit := by
  constructor
  · intro fits
    exact ⟨fits.count_le rfl, fits.max_le item times rfl⟩
  · intro fits
    refine ⟨fun _ => fits.1, fun other others same => ?_⟩
    cases same
    exact fits.2

theorem exists_words_iff (small : limit < maxCount) {tree : Tree} (wellFormed : tree.WellFormed) :
    (∃ words, tree.words limit = .ok words) ↔ ∀ node ∈ tree.openNodes, node.Fits limit := by
  induction wellFormed with
  | token spec => exact iff_of_true ⟨_, rfl⟩ (by simpa [openNodes] using fits_leaf rfl)
  | any => exact iff_of_true ⟨_, rfl⟩ (by simpa [openNodes] using fits_leaf rfl)
  | @sequence items filled wellFormed each =>
      have parts : (∀ item ∈ items, ∃ words, item.words limit = .ok words) ↔
          ∀ item ∈ items, ∀ node ∈ item.openNodes, node.Fits limit := forall₂_congr each
      have front : 0 < ([[]] : List Word).length := Nat.one_pos
      rw [Tree.words, exists_wordsOfAll_iff small wellFormed front, openNodes, openNodesOfAll_eq,
        List.forall_mem_cons, List.forall_mem_flatMap, fits_iff rfl (by simp), rawCount_sequence,
        parts, and_comm]
      simp [filled]
  | @alternative choices filled wellFormed each =>
      have parts : (∀ choice ∈ choices, ∃ words, choice.words limit = .ok words) ↔
          ∀ choice ∈ choices, ∀ node ∈ choice.openNodes, node.Fits limit := forall₂_congr each
      rw [Tree.words, exists_wordsOfEach_iff small, openNodes, openNodesOfAll_eq,
        List.forall_mem_cons, List.forall_mem_flatMap, fits_iff rfl (by simp),
        rawCount_alternative, parts, and_comm]
      simp [filled]
  | @optional item inner listed =>
      rw [exists_optional_iff small, listed, openNodes, List.forall_mem_cons,
        fits_iff rfl (by simp), and_comm]
  | @repetition item times ordered ends inner listed =>
      rw [openNodes, List.forall_mem_cons, fits_repetition_iff, ← listed]
      cases bounded : times.max with
      | none => simp [Tree.words, bounded]
      | some max =>
          rw [exists_repetition_iff small bounded (ordered max bounded) inner, and_comm]
          simp
  | @negation item inner listed =>
      exact iff_of_true ⟨_, rfl⟩ (by simpa [openNodes] using fits_leaf rfl)

end Tree

namespace Pattern

/-- A pattern can be expanded within a limit just if no node outside its negations has more words
than that, repeated ones included, and every repetition there has an upper limit that is no greater. -/
theorem expansion_succeeds_iff (pattern : Pattern) (limit : Nat) (small : limit < maxCount) :
    (∃ words, pattern.expandWithin limit = .ok words) ↔
      ∀ node ∈ pattern.tree.openNodes, node.Fits limit := by
  rw [← Tree.exists_words_iff small pattern.wellFormed]
  simp only [expandWithin_eq_ok_iff]
  constructor
  · intro expanded
    rcases expanded with ⟨words, all, listed, -⟩
    exact ⟨all, listed⟩
  · intro listed
    rcases listed with ⟨all, listed⟩
    exact ⟨_, all, listed, rfl⟩

def guardedRuns : Tree := .sequence [
  .negation (.repetition (.token ⟨Category.keyword, none⟩) ⟨1, none⟩),
  .repetition (.optional .any) ⟨1, some 2⟩]

theorem guardedRuns_succeeds_iff :
    ∃ pattern, ofTree guardedRuns = .ok pattern ∧ 5 < maxCount ∧ 6 < maxCount ∧
      (∃ words, pattern.expandWithin 6 = .ok words) ∧
      (∀ node ∈ pattern.tree.openNodes, node.Fits 6) ∧
      pattern.expandWithin 5 = .error (.aboveLimit 5) ∧
      ¬ ∀ node ∈ pattern.tree.openNodes, node.Fits 5 := by
  have five : 5 < maxCount := by decide
  have six : 6 < maxCount := by decide
  refine ⟨_, rfl, five, six, ⟨_, rfl⟩, ?_, rfl, ?_⟩
  · exact (expansion_succeeds_iff _ 6 six).mp ⟨_, rfl⟩
  · intro fits
    rcases (expansion_succeeds_iff _ 5 five).mpr fits with ⟨words, expanded⟩
    cases expanded

end Pattern

end TokenPattern
