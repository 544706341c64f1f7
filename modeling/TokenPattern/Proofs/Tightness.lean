import Mathlib.Data.Nat.SuccPred
import Mathlib.Order.SuccPred.Archimedean
import TokenPattern.Proofs.Enumeration
import TokenPattern.Proofs.Lengths

/-!
Saturation and giving up commute with the ways in which lengths are combined, so that nothing is
lost on the way up a tree: zero repetitions of an item bring a length that was given up back to zero.
-/

namespace TokenPattern

def lengths (language : Language Element) : Set Nat :=
  {length | ∃ word ∈ language, word.length = length}

section Lengths

variable {language other whole : Language Element} {times : RepeatBounds}

theorem lengths_singleton (word : Word) : lengths {word} = {word.length} := by
  ext length
  constructor
  · intro attained
    rcases attained with ⟨other, rfl, rfl⟩
    rfl
  · intro same
    subst same
    exact ⟨word, rfl, rfl⟩

theorem lengths_add (language other : Language Element) :
    lengths (language + other) = lengths language ∪ lengths other := by
  ext length
  simp only [lengths, Language.mem_add, Set.mem_union, Set.mem_ofPred_eq, or_and_right, exists_or]

theorem mem_lengths_mul {length : Nat} :
    length ∈ lengths (language * other) ↔
      ∃ first ∈ lengths language, ∃ second ∈ lengths other, first + second = length := by
  constructor
  · intro attained
    rcases attained with ⟨word, member, rfl⟩
    rcases Language.mem_mul.mp member with ⟨head, headMember, tail, tailMember, rfl⟩
    exact ⟨_, ⟨head, headMember, rfl⟩, _, ⟨tail, tailMember, rfl⟩, List.length_append.symm⟩
  · intro parts
    rcases parts with ⟨_, ⟨head, headMember, rfl⟩, _, ⟨tail, tailMember, rfl⟩, rfl⟩
    exact ⟨head ++ tail, Language.append_mem_mul headMember tailMember, List.length_append⟩

theorem isLeast_mul {first second : Nat} (front : IsLeast (lengths language) first)
    (back : IsLeast (lengths other) second) :
    IsLeast (lengths (language * other)) (first + second) := by
  constructor
  · exact mem_lengths_mul.mpr ⟨first, front.1, second, back.1, rfl⟩
  · intro length attained
    rcases mem_lengths_mul.mp attained with ⟨head, headLength, tail, tailLength, rfl⟩
    exact Nat.add_le_add (front.2 headLength) (back.2 tailLength)

/-- A longest word of a product is made of longest words: with a longer one in place of either part
the whole would be longer. -/
theorem isGreatest_mul_iff {length : Nat} :
    IsGreatest (lengths (language * other)) length ↔
      ∃ first second, IsGreatest (lengths language) first ∧ IsGreatest (lengths other) second ∧
        first + second = length := by
  constructor
  · intro greatest
    rcases mem_lengths_mul.mp greatest.1 with ⟨first, front, second, back, rfl⟩
    refine ⟨first, second, ⟨front, ?_⟩, ⟨back, ?_⟩, rfl⟩
    · intro longer attained
      apply Nat.le_of_add_le_add_right
      exact greatest.2 (mem_lengths_mul.mpr ⟨longer, attained, second, back, rfl⟩)
    · intro longer attained
      apply Nat.le_of_add_le_add_left
      exact greatest.2 (mem_lengths_mul.mpr ⟨first, front, longer, attained, rfl⟩)
  · intro parts
    rcases parts with ⟨first, second, front, back, rfl⟩
    constructor
    · exact mem_lengths_mul.mpr ⟨first, front.1, second, back.1, rfl⟩
    · intro length attained
      rcases mem_lengths_mul.mp attained with ⟨head, headLength, tail, tailLength, rfl⟩
      exact Nat.add_le_add (front.2 headLength) (back.2 tailLength)

theorem isGreatest_add_iff (filled : (lengths language).Nonempty)
    (otherFilled : (lengths other).Nonempty) {length : Nat} :
    IsGreatest (lengths (language + other)) length ↔
      ∃ first second, IsGreatest (lengths language) first ∧ IsGreatest (lengths other) second ∧
        Nat.max first second = length := by
  rw [lengths_add]
  constructor
  · intro greatest
    have bounded := bddAbove_union.mp greatest.bddAbove
    obtain ⟨first, left⟩ := bounded.1.exists_isGreatest_of_nonempty filled
    obtain ⟨second, right⟩ := bounded.2.exists_isGreatest_of_nonempty otherFilled
    exact ⟨first, second, left, right, (left.union right).unique greatest⟩
  · intro parts
    rcases parts with ⟨first, second, left, right, rfl⟩
    exact left.union right

theorem isLeast_pow {least : Nat} (once : IsLeast (lengths language) least) (count : Nat) :
    IsLeast (lengths (language ^ count)) (count * least) := by
  induction count with
  | zero =>
      rw [pow_zero, Nat.zero_mul]
      exact lengths_singleton [] ▸ isLeast_singleton
  | succ count rest =>
      rw [pow_succ, Nat.succ_mul]
      exact isLeast_mul rest once

theorem isGreatest_pow_iff {count length : Nat} :
    IsGreatest (lengths (language ^ (count + 1))) length ↔
      ∃ greatest, IsGreatest (lengths language) greatest ∧ (count + 1) * greatest = length := by
  induction count generalizing length with
  | zero => simp
  | succ count rest =>
      rw [pow_succ, isGreatest_mul_iff]
      constructor
      · intro parts
        rcases parts with ⟨first, last, front, back, rfl⟩
        rcases rest.mp front with ⟨greatest, once, rfl⟩
        have same : last = greatest := back.unique once
        exact ⟨greatest, once, by rw [Nat.succ_mul (count + 1), same]⟩
      · intro power
        rcases power with ⟨greatest, once, rfl⟩
        exact ⟨_, greatest, rest.mpr ⟨greatest, once, rfl⟩, once, (Nat.succ_mul _ _).symm⟩

theorem lengths_pow_nonempty (filled : (lengths language).Nonempty) (count : Nat) :
    (lengths (language ^ count)).Nonempty := by
  induction count with
  | zero => exact ⟨0, [], Language.nil_mem_one, rfl⟩
  | succ count rest =>
      rw [pow_succ]
      exact ⟨_, mem_lengths_mul.mpr ⟨_, rest.some_mem, _, filled.some_mem, rfl⟩⟩

theorem exists_longer (filled : (lengths language).Nonempty) {count total length : Nat}
    (more : count ≤ total) (attained : length ∈ lengths (language ^ count)) :
    ∃ longer ∈ lengths (language ^ total), length ≤ longer := by
  rcases lengths_pow_nonempty filled (total - count) with ⟨tail, rest⟩
  refine ⟨length + tail, ?_, Nat.le_add_right _ _⟩
  rw [← Nat.add_sub_cancel' more, pow_add]
  exact mem_lengths_mul.mpr ⟨length, attained, tail, rest, rfl⟩

def Repeats (language : Language Element) (times : RepeatBounds)
    (whole : Language Element) : Prop :=
  ∀ word, word ∈ whole ↔ ∃ count, times.Allows count ∧ word ∈ language ^ count

theorem Repeats.mem_lengths_iff (repeats : Repeats language times whole) {length : Nat} :
    length ∈ lengths whole ↔ ∃ count, times.Allows count ∧ length ∈ lengths (language ^ count) := by
  constructor
  · intro attained
    rcases attained with ⟨word, member, rfl⟩
    rcases (repeats word).mp member with ⟨count, allowed, inside⟩
    exact ⟨count, allowed, word, inside, rfl⟩
  · intro power
    rcases power with ⟨count, allowed, word, inside, rfl⟩
    exact ⟨word, (repeats word).mpr ⟨count, allowed, inside⟩, rfl⟩

theorem RepeatBounds.allows_min (ordered : ∀ max, times.max = some max → times.min ≤ max) :
    times.Allows times.min :=
  ⟨Nat.le_refl _, ordered⟩

theorem RepeatBounds.allows_max {max : Nat} (bounded : times.max = some max)
    (ordered : times.min ≤ max) : times.Allows max := by
  refine ⟨ordered, fun top same => ?_⟩
  rw [bounded, Option.some.injEq] at same
  exact Nat.le_of_eq same

theorem isLeast_repeats (repeats : Repeats language times whole)
    (ordered : ∀ max, times.max = some max → times.min ≤ max) {least : Nat}
    (once : IsLeast (lengths language) least) :
    IsLeast (lengths whole) (least * times.min) := by
  rw [Nat.mul_comm]
  constructor
  · apply repeats.mem_lengths_iff.mpr
    exact ⟨times.min, RepeatBounds.allows_min ordered, (isLeast_pow once times.min).1⟩
  · intro length attained
    rcases repeats.mem_lengths_iff.mp attained with ⟨count, allowed, power⟩
    calc
      times.min * least ≤ count * least := Nat.mul_le_mul_right _ allowed.1
      _ ≤ length := (isLeast_pow once count).2 power

theorem isGreatest_repeats_iff (repeats : Repeats language times whole)
    (filled : (lengths language).Nonempty) {max : Nat} (bounded : times.max = some max)
    (ordered : times.min ≤ max) {length : Nat} :
    IsGreatest (lengths whole) length ↔ IsGreatest (lengths (language ^ max)) length := by
  have inside : ∀ length ∈ lengths (language ^ max), length ∈ lengths whole := by
    intro length attained
    apply repeats.mem_lengths_iff.mpr
    exact ⟨max, RepeatBounds.allows_max bounded ordered, attained⟩
  have longer : ∀ length ∈ lengths whole, ∃ other ∈ lengths (language ^ max), length ≤ other := by
    intro length attained
    rcases repeats.mem_lengths_iff.mp attained with ⟨count, allowed, power⟩
    exact exists_longer filled (allowed.2 max bounded) power
  constructor
  · intro greatest
    rcases longer length greatest.1 with ⟨other, power, further⟩
    have same : other = length := Nat.le_antisymm (greatest.2 (inside other power)) further
    subst same
    exact ⟨power, fun third attained => greatest.2 (inside third attained)⟩
  · intro greatest
    refine ⟨inside length greatest.1, ?_⟩
    intro third attained
    rcases longer third attained with ⟨other, power, further⟩
    exact Nat.le_trans further (greatest.2 power)

theorem not_isGreatest_repeats (repeats : Repeats language times whole)
    (endless : times.max = none) {least : Nat} (once : IsLeast (lengths language) least)
    (positive : least ≠ 0) (length : Nat) : ¬ IsGreatest (lengths whole) length := by
  intro greatest
  have allowed : times.Allows (times.min + length + 1) := by
    refine ⟨by omega, ?_⟩
    simp [endless]
  have attained := (isLeast_pow once (times.min + length + 1)).1
  have bound := greatest.2 (repeats.mem_lengths_iff.mpr ⟨_, allowed, attained⟩)
  have wide : times.min + length + 1 ≤ (times.min + length + 1) * least :=
    Nat.le_mul_of_pos_right _ (Nat.pos_of_ne_zero positive)
  omega

end Lengths

namespace LengthBounds

variable {first second bounds : LengthBounds} {language other whole : Language Element}
  {times : RepeatBounds}

/-- The bounds are the least and the greatest length of a word, as far as these can be kept. -/
structure Tight (bounds : LengthBounds) (language : Language Element) : Prop where
  least : ∃ length, IsLeast (lengths language) length ∧ bounds.min = saturate length
  greatest : ∀ length,
    bounds.max = some length ↔ IsGreatest (lengths language) length ∧ length ≤ maxCount

theorem Tight.nonempty (tight : bounds.Tight language) : (lengths language).Nonempty := by
  rcases tight.least with ⟨length, least, -⟩
  exact least.nonempty

theorem tight_singleton (word : Word) (short : word.length ≤ maxCount) :
    (exact word.length).Tight {word} where
  least := by
    rw [lengths_singleton]
    exact ⟨word.length, isLeast_singleton, (saturate_of_le short).symm⟩
  greatest := by
    intro length
    rw [lengths_singleton, exact, Option.some.injEq]
    constructor
    · intro same
      subst same
      exact ⟨isGreatest_singleton, short⟩
    · intro attained
      rcases attained with ⟨greatest, -⟩
      exact isGreatest_singleton.unique greatest

theorem tight_one : (exact 0).Tight 1 := tight_singleton [] (Nat.zero_le _)

theorem append_max_eq_some_iff {length : Nat} :
    (first.append second).max = some length ↔
      ∃ a b, first.max = some a ∧ second.max = some b ∧ a + b = length ∧ length ≤ maxCount := by
  cases left : first.max <;> cases right : second.max <;>
    simp [append, left, right]
  intro same
  subst same
  rfl

theorem union_max_eq_some_iff {length : Nat} :
    (first.union second).max = some length ↔
      ∃ a b, first.max = some a ∧ second.max = some b ∧ Nat.max a b = length := by
  cases left : first.max <;> cases right : second.max <;> simp [union, left, right]

theorem repeated_max_of_none (endless : times.max = none) (positive : bounds.max ≠ some 0) :
    (bounds.repeated times).max = none := by
  simp only [repeated, endless]
  split <;> simp_all

theorem repeated_max_of_zero (never : times.max = some 0) :
    (bounds.repeated times).max = some 0 := by
  simp only [repeated, never]
  split <;> simp_all

theorem repeated_max_eq_some_iff {max length : Nat} (bounded : times.max = some (max + 1)) :
    (bounds.repeated times).max = some length ↔
      ∃ a, bounds.max = some a ∧ (max + 1) * a = length ∧ length ≤ maxCount := by
  cases top : bounds.max with
  | none => simp [repeated, top, bounded]
  | some a =>
      simp only [Option.some.injEq, exists_eq_left']
      cases a with
      | zero =>
          simp only [repeated, top, bounded, Option.some.injEq, Nat.mul_zero]
          constructor
          · intro same
            exact ⟨same, same ▸ Nat.zero_le _⟩
          · exact And.left
      | succ a =>
          simp only [repeated, top, bounded, checked_eq_some, Nat.mul_comm (max + 1)]
          apply and_congr_right
          intro product
          rw [product]

theorem Tight.append (front : first.Tight language) (back : second.Tight other) :
    (first.append second).Tight (language * other) where
  least := by
    rcases front.least with ⟨a, headLeast, headMin⟩
    rcases back.least with ⟨b, tailLeast, tailMin⟩
    refine ⟨a + b, isLeast_mul headLeast tailLeast, ?_⟩
    rw [LengthBounds.append, headMin, tailMin, saturate_add]
  greatest := by
    intro length
    rw [append_max_eq_some_iff, isGreatest_mul_iff]
    simp only [front.greatest, back.greatest]
    constructor
    · intro parts
      rcases parts with ⟨a, b, ⟨head, -⟩, ⟨tail, -⟩, sum, small⟩
      exact ⟨⟨a, b, head, tail, sum⟩, small⟩
    · intro parts
      rcases parts with ⟨⟨a, b, head, tail, sum⟩, small⟩
      exact ⟨a, b, ⟨head, by omega⟩, ⟨tail, by omega⟩, sum, small⟩

theorem Tight.union (left : first.Tight language) (right : second.Tight other) :
    (first.union second).Tight (language + other) where
  least := by
    rcases left.least with ⟨a, leftLeast, leftMin⟩
    rcases right.least with ⟨b, rightLeast, rightMin⟩
    refine ⟨Nat.min a b, ?_, ?_⟩
    · rw [lengths_add]
      exact leftLeast.union rightLeast
    · rw [LengthBounds.union, leftMin, rightMin, saturate_min]
  greatest := by
    intro length
    rw [union_max_eq_some_iff, isGreatest_add_iff left.nonempty right.nonempty]
    simp only [left.greatest, right.greatest]
    constructor
    · intro parts
      rcases parts with ⟨a, b, ⟨one, oneSmall⟩, ⟨two, twoSmall⟩, rfl⟩
      exact ⟨⟨a, b, one, two, rfl⟩, Nat.max_le.mpr ⟨oneSmall, twoSmall⟩⟩
    · intro parts
      rcases parts with ⟨⟨a, b, one, two, rfl⟩, small⟩
      rcases Nat.max_le.mp small with ⟨oneSmall, twoSmall⟩
      exact ⟨a, b, ⟨one, oneSmall⟩, ⟨two, twoSmall⟩, rfl⟩

theorem orNothing_eq_union (bounds : LengthBounds) : bounds.orNothing = bounds.union (exact 0) := by
  cases top : bounds.max <;> simp [orNothing, union, exact, top]

theorem Tight.orNothing (present : bounds.Tight language) :
    bounds.orNothing.Tight (language + 1) := by
  rw [orNothing_eq_union]
  exact present.union tight_one

theorem Tight.repeated (once : bounds.Tight language) (repeats : Repeats language times whole)
    (ordered : ∀ max, times.max = some max → times.min ≤ max)
    (ends : times.max = none → bounds.min ≠ 0) : (bounds.repeated times).Tight whole where
  least := by
    rcases once.least with ⟨least, itemLeast, itemMin⟩
    refine ⟨least * times.min, isLeast_repeats repeats ordered itemLeast, ?_⟩
    rw [LengthBounds.repeated, itemMin, saturate_mul]
  greatest := by
    intro length
    rcases once.least with ⟨least, itemLeast, itemMin⟩
    cases bounded : times.max with
    | none =>
        have positive : least ≠ 0 := by
          intro zero
          apply ends bounded
          rw [itemMin, zero]
          rfl
        have itemMax : bounds.max ≠ some 0 := by
          intro zero
          have longest := ((once.greatest 0).mp zero).1
          exact positive (Nat.le_zero.mp (itemLeast.2 longest.1))
        have endless := not_isGreatest_repeats repeats bounded itemLeast positive length
        simp [repeated_max_of_none bounded itemMax, endless]
    | some max =>
        rw [isGreatest_repeats_iff repeats once.nonempty bounded (ordered max bounded)]
        cases max with
        | zero =>
            -- no repetitions take nothing, also where the item has no greatest length
            rw [repeated_max_of_zero bounded, pow_zero]
            exact tight_one.greatest length
        | succ max =>
            rw [repeated_max_eq_some_iff bounded, isGreatest_pow_iff]
            simp only [once.greatest]
            constructor
            · intro power
              rcases power with ⟨a, ⟨longest, -⟩, product, small⟩
              exact ⟨⟨a, longest, product⟩, small⟩
            · intro power
              rcases power with ⟨⟨a, longest, product⟩, small⟩
              have single : a ≤ (max + 1) * a := Nat.le_mul_of_pos_left a (Nat.succ_pos max)
              exact ⟨a, ⟨longest, by omega⟩, product, small⟩

end LengthBounds

open LengthBounds

theorem Tree.bounds_tight {tree : Tree} (wellFormed : tree.WellFormed) :
    tree.bounds.Tight tree.language := by
  have single : ∀ element : Element, (exact 1).Tight {[element]} :=
    fun element => tight_singleton [element] one_le_maxCount
  induction wellFormed with
  | token spec => exact single (.token spec)
  | any => exact single .any
  | sequence filled wellFormed each => exact sequence_holds Tight.append tight_one each
  | alternative filled wellFormed each => exact alternative_holds Tight.union filled each
  | optional inner tight => exact tight.orNothing
  | repetition ordered ends inner tight =>
      apply tight.repeated _ ordered ends
      exact fun word => mem_language_repetition
  | @negation item inner tight => exact single (.negation item)

/-- The length bounds of a pattern are the least and the greatest number of elements in a word of
its language, the least one no more than `maxCount`, the greatest one only if it is no more. An
expansion without longer words has words of just these lengths. -/
theorem Pattern.bounds_attained (pattern : Pattern) :
    (∃ least, IsLeast (lengths pattern.tree.language) least ∧
      pattern.bounds.min = min least maxCount) ∧
    (∀ greatest, pattern.bounds.max = some greatest ↔
      IsGreatest (lengths pattern.tree.language) greatest ∧ greatest ≤ maxCount) ∧
    ∀ limit words, pattern.expandWithin limit = .ok words →
      (∀ word ∈ words, word.length ≤ maxCount) →
        IsLeast {length | ∃ word ∈ words, word.length = length} pattern.bounds.min ∧
        ∃ greatest, pattern.bounds.max = some greatest ∧
          IsGreatest {length | ∃ word ∈ words, word.length = length} greatest := by
  have tight : pattern.bounds.Tight pattern.tree.language := by
    rw [pattern.bounds_eq]
    exact Tree.bounds_tight pattern.wellFormed
  refine ⟨tight.least, tight.greatest, ?_⟩
  intro limit words expanded short
  have listed : {length | ∃ word ∈ words, word.length = length} =
      lengths pattern.tree.language := by
    ext length
    simp only [lengths, Set.mem_ofPred_eq, Pattern.mem_expandWithin expanded]
  have bounded : ∀ length ∈ lengths pattern.tree.language, length ≤ maxCount := by
    intro length attained
    rcases attained with ⟨word, member, rfl⟩
    exact short word ((Pattern.mem_expandWithin expanded).mpr member)
  rw [listed]
  constructor
  · rcases tight.least with ⟨least, attained, low⟩
    rw [low, saturate_of_le (bounded least attained.1)]
    exact attained
  · obtain ⟨greatest, attained⟩ := BddAbove.exists_isGreatest_of_nonempty ⟨maxCount, bounded⟩
      tight.nonempty
    exact ⟨greatest, (tight.greatest greatest).mpr ⟨attained, bounded greatest attained.1⟩, attained⟩

def upToTwo : Pattern := .built (.repetition (.optional .any) ⟨0, some 2⟩) rfl

theorem upToTwo_bounds_attained :
    upToTwo.expandWithin 7 = .ok [[.any, .any], [.any], []] ∧
      IsLeast {length | ∃ word ∈ [[Element.any, .any], [.any], []], word.length = length} 0 ∧
      ∃ greatest, some 2 = some greatest ∧
        IsGreatest {length | ∃ word ∈ [[Element.any, .any], [.any], []], word.length = length}
          greatest := by
  have expanded : upToTwo.expandWithin 7 = .ok [[.any, .any], [.any], []] := rfl
  exact ⟨expanded, upToTwo.bounds_attained.2.2 7 _ expanded (by decide)⟩

end TokenPattern
