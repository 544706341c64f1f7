import TokenPattern.Proofs.Finiteness

namespace TokenPattern

namespace Expansion

variable {small large limit : Nat} {α β : Type}

/-- The answer within a greater limit is the answer within the smaller one, unless this one is cut
off. -/
def Widened (small : Nat) (narrow wide : Except ExpansionError α) : Prop :=
  narrow = .error (.aboveLimit small) ∨ wide = narrow

theorem Widened.refl (answer : Except ExpansionError α) : Widened small answer answer := .inr rfl

theorem Widened.bind {first second : Except ExpansionError α}
    {next other : α → Except ExpansionError β} (front : Widened small first second)
    (back : ∀ value, Widened small (next value) (other value)) :
    Widened small (first >>= next) (second >>= other) := by
  cases front with
  | inl cut =>
      rw [cut]
      exact .inl rfl
  | inr same =>
      rw [same]
      cases first with
      | error error => exact .refl _
      | ok value => exact back value

theorem check_widened (wider : small ≤ large) (count : Nat) :
    Widened small (check small count) (check large count) := by
  by_cases fits : saturate count ≤ small
  · right
    rw [check_eq_ok_iff.mpr fits, check_eq_ok_iff.mpr (Nat.le_trans fits wider)]
  · exact .inl (if_neg fits)

theorem product_widened (wider : small ≤ large) (heads tails : List Word) :
    Widened small (product small heads tails) (product large heads tails) :=
  (check_widened wider _).bind fun _ => .refl _

theorem keep_widened (wider : small ≤ large) (min count : Nat) (power kept : List Word) :
    Widened small (keep small min count power kept) (keep large min count power kept) := by
  rw [keep, keep]
  by_cases enough : min ≤ count
  · rw [if_pos enough, if_pos enough]
    exact (check_widened wider _).bind fun _ => .refl _
  · rw [if_neg enough, if_neg enough]
    exact .refl _

theorem powers_widened (wider : small ≤ large) (min left count : Nat)
    (once power kept : List Word) :
    Widened small (powers small min once left count power kept)
      (powers large min once left count power kept) := by
  induction left generalizing count power kept with
  | zero =>
      rw [powers_zero, powers_zero]
      exact keep_widened wider min count power kept
  | succ left rest =>
      rw [powers_succ, powers_succ]
      apply (keep_widened wider min count power kept).bind
      intro kept
      exact (product_widened wider power once).bind fun more => rest (count + 1) more kept

theorem powers_checked {min left count : Nat} {once power kept words : List Word}
    (reached : min ≤ count + left)
    (listed : powers limit min once left count power kept = .ok words) :
    check limit words.length = .ok () := by
  induction left generalizing count power kept with
  | zero =>
      have enough : min ≤ count := reached
      obtain ⟨checked, all⟩ := powers_zero_eq_ok_iff.mp listed
      rw [← all, length_withPower enough]
      exact checked enough
  | succ left rest =>
      obtain ⟨-, -, later⟩ := powers_succ_eq_ok_iff.mp listed
      exact rest (by omega) later

end Expansion

namespace Tree

open Expansion

variable {small large limit : Nat}

theorem wordsOfAll_widened (wider : small ≤ large) {items : List Tree}
    (each : ∀ item ∈ items, Widened small (item.words small) (item.words large))
    (front : List Word) :
    Widened small (wordsOfAll small front items) (wordsOfAll large front items) := by
  induction items generalizing front with
  | nil => exact .refl _
  | cons item items rest =>
      obtain ⟨head, tail⟩ := List.forall_mem_cons.mp each
      rw [wordsOfAll, wordsOfAll]
      apply head.bind
      intro part
      exact (product_widened wider front part).bind (rest tail)

theorem wordsOfEach_widened (wider : small ≤ large) {choices : List Tree}
    (each : ∀ choice ∈ choices, Widened small (choice.words small) (choice.words large))
    (front : List Word) :
    Widened small (wordsOfEach small front choices) (wordsOfEach large front choices) := by
  induction choices generalizing front with
  | nil => exact .refl _
  | cons choice choices rest =>
      obtain ⟨head, tail⟩ := List.forall_mem_cons.mp each
      rw [wordsOfEach, wordsOfEach]
      apply head.bind
      intro part
      exact (check_widened wider _).bind fun _ => rest tail (front ++ part)

theorem words_widened (wider : small ≤ large) (tree : Tree) :
    Widened small (tree.words small) (tree.words large) := by
  induction tree with
  | token spec => exact .refl _
  | any => exact .refl _
  | sequence items each =>
      rw [words, words]
      exact wordsOfAll_widened wider each [[]]
  | alternative choices each =>
      rw [words, words]
      exact wordsOfEach_widened wider each []
  | optional item inner =>
      rw [words, words]
      apply inner.bind
      intro present
      exact (check_widened wider _).bind fun _ => .refl _
  | repetition item times inner =>
      rw [words, words]
      cases times.max with
      | none => exact .refl _
      | some max =>
          apply (check_widened wider max).bind
          intro _
          apply (check_widened wider (max - times.min + 1)).bind
          intro _
          apply inner.bind
          intro once
          exact powers_widened wider times.min max 0 once [[]] []
  | negation item inner => exact .refl _

theorem wordsOfAll_checked {items : List Tree} (filled : items ≠ []) {front words : List Word}
    (listed : wordsOfAll limit front items = .ok words) : check limit words.length = .ok () := by
  induction items generalizing front with
  | nil => exact absurd rfl filled
  | cons item items rest =>
      simp only [wordsOfAll, bind_eq_ok_iff, product_eq_ok_iff] at listed
      obtain ⟨part, -, _, ⟨checked, rfl⟩, later⟩ := listed
      cases items with
      | nil =>
          rw [← Except.ok.inj later, length_joined]
          exact checked
      | cons => exact rest (by simp) later

theorem wordsOfEach_checked {choices : List Tree} (filled : choices ≠ []) {front words : List Word}
    (listed : wordsOfEach limit front choices = .ok words) : check limit words.length = .ok () := by
  induction choices generalizing front with
  | nil => exact absurd rfl filled
  | cons choice choices rest =>
      simp only [wordsOfEach, bind_eq_ok_iff] at listed
      obtain ⟨part, -, _, checked, later⟩ := listed
      cases choices with
      | nil =>
          rw [← Except.ok.inj later, List.length_append]
          exact checked
      | cons => exact rest (by simp) later

theorem words_checked {tree : Tree} (wellFormed : tree.WellFormed) (inner : tree.isLeaf = false)
    {all : List Word} (listed : tree.words limit = .ok all) : check limit all.length = .ok () := by
  cases wellFormed with
  | token spec => cases inner
  | any => cases inner
  | sequence filled each => exact wordsOfAll_checked filled listed
  | alternative filled each => exact wordsOfEach_checked filled listed
  | optional once =>
      simp only [words, bind_eq_ok_iff] at listed
      obtain ⟨present, -, _, checked, same⟩ := listed
      rw [← Except.ok.inj same, List.length_append]
      exact checked
  | @repetition item times ordered ends once =>
      obtain ⟨max, -, bounded, -⟩ := words_repetition_ok listed
      obtain ⟨-, -, part, -, all⟩ := (words_repetition_eq_ok_iff bounded).mp listed
      have reached := ordered max bounded
      exact powers_checked (by omega) all
  | negation once => cases inner

theorem words_leaf {tree : Tree} (leaf : tree.isLeaf = true) (limit : Nat) :
    ∃ element, tree.words limit = .ok [[element]] := by
  cases tree with
  | token spec => exact ⟨.token spec, rfl⟩
  | any => exact ⟨.any, rfl⟩
  | negation item => exact ⟨.negation item, rfl⟩
  | _ => cases leaf

end Tree

theorem length_distinctWords_le (words : List Word) :
    (distinctWords words).length ≤ words.length := by
  rw [distinctWords_eq]
  exact (words.nodup_eraseDups.subperm fun word => List.mem_eraseDups.mp).length_le

namespace Pattern

open Expansion

/-- Within a greater limit an expansion gives the same words in the same order, or finds the pattern
unbounded again, unless the smaller limit cut it off. One that the greater limit cuts off has been
cut off by the smaller one already, and each of them names its own limit. -/
theorem greater_limit (pattern : Pattern) (small large : Nat) (wider : small ≤ large) :
    ((∀ limit, pattern.expandWithin small ≠ .error (.aboveLimit limit)) →
      pattern.expandWithin large = pattern.expandWithin small) ∧
    (∀ limit, pattern.expandWithin large = .error (.aboveLimit limit) →
      limit = large ∧ pattern.expandWithin small = .error (.aboveLimit small)) ∧
    ∀ limit, pattern.expandWithin small = .error (.aboveLimit limit) → limit = small := by
  have widened : Widened small (pattern.expandWithin small) (pattern.expandWithin large) :=
    (Tree.words_widened wider pattern.tree).bind fun _ => .refl _
  have own : ∀ {limit other}, pattern.expandWithin limit = .error (.aboveLimit other) →
      other = limit := by
    intro limit other failed
    cases Tree.words_error (expandWithin_eq_error_iff.mp failed) with
    | inl cut => exact ExpansionError.aboveLimit.inj cut.1
    | inr unbounded => cases unbounded.1
  refine ⟨?_, ?_, fun limit failed => own failed⟩
  · intro uncut
    exact widened.resolve_left (uncut small)
  · intro limit failed
    refine ⟨own failed, ?_⟩
    cases widened with
    | inl cut => exact cut
    | inr same =>
        rw [same] at failed
        rw [failed, own failed]

theorem upToTwo_greater_limit :
    7 ≤ defaultLimit ∧ (∀ limit, upToTwo.expandWithin 7 ≠ .error (.aboveLimit limit)) ∧
      upToTwo.expandWithin defaultLimit = .ok [[.any, .any], [.any], []] ∧
      5 ≤ 6 ∧ upToTwo.expandWithin 6 = .error (.aboveLimit 6) ∧
      upToTwo.expandWithin 5 = .error (.aboveLimit 5) := by
  have above : 7 ≤ defaultLimit := by decide
  have listed : upToTwo.expandWithin 7 = .ok [[.any, .any], [.any], []] := rfl
  have uncut : ∀ limit, upToTwo.expandWithin 7 ≠ .error (.aboveLimit limit) := by
    intro limit
    simp [listed]
  have cut : upToTwo.expandWithin 6 = .error (.aboveLimit 6) := rfl
  have next : 5 ≤ 6 := by decide
  have same := (greater_limit upToTwo 7 defaultLimit above).1 uncut
  have earlier := ((greater_limit upToTwo 5 6 next).2.1 6 cut).2
  exact ⟨above, uncut, same.trans listed, next, cut, earlier⟩

/-- An expansion keeps to its limit unless the limit is zero and the pattern a single step. Numbers
beyond `maxCount` count as `maxCount`. -/
theorem capped_iff (pattern : Pattern) (limit : Nat) :
    (∀ words, pattern.expandWithin limit = .ok words → saturate words.length ≤ limit) ↔
      0 < limit ∨ pattern.tree.isLeaf = false := by
  cases step : pattern.tree.isLeaf with
  | true =>
      obtain ⟨element, listed⟩ := Tree.words_leaf step limit
      have expanded : pattern.expandWithin limit = .ok [[element]] :=
        expandWithin_eq_ok_iff.mpr ⟨[[element]], listed, rfl⟩
      simp only [expanded, Except.ok.injEq, forall_eq', List.length_singleton]
      rw [saturate_of_le one_le_maxCount]
      simp [Nat.one_le_iff_ne_zero, Nat.pos_iff_ne_zero]
  | false =>
      refine iff_of_true ?_ (.inr rfl)
      intro words expanded
      obtain ⟨all, listed, rfl⟩ := expandWithin_eq_ok_iff.mp expanded
      have checked := check_eq_ok_iff.mp (Tree.words_checked pattern.wellFormed step listed)
      calc
        saturate (distinctWords all).length ≤ saturate all.length :=
          min_le_min_right maxCount (length_distinctWords_le all)
        _ ≤ limit := checked

theorem any_not_capped : any.expandWithin 0 = .ok [[.any]] ∧ ¬ [[Element.any]].length ≤ 0 :=
  ⟨rfl, by decide⟩

end Pattern

end TokenPattern
