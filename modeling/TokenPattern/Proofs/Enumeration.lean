import Mathlib.Algebra.BigOperators.Group.List.Defs
import Mathlib.Data.List.Intervals
import TokenPattern.Proofs.FirstOccurrences
import TokenPattern.Proofs.Language

namespace TokenPattern

namespace Expansion

variable {limit : Nat}

theorem bind_eq_ok_iff {ε α β : Type} {first : Except ε α} {next : α → Except ε β} {result : β} :
    first >>= next = .ok result ↔ ∃ value, first = .ok value ∧ next value = .ok result := by
  cases first with
  | error error => simp [bind, Except.bind]
  | ok value => simp [bind, Except.bind]

theorem check_bind_eq_ok_iff {α : Type} {count : Nat} {next : Unit → Except ExpansionError α}
    {result : α} :
    check limit count >>= next = .ok result ↔
      check limit count = .ok () ∧ next () = .ok result := by
  rw [bind_eq_ok_iff]
  constructor
  · intro passed
    rcases passed with ⟨⟨⟩, checked, after⟩
    exact ⟨checked, after⟩
  · intro passed
    exact ⟨(), passed⟩

/-- One word of each part, put together in order. The choice in the first part varies slowest. -/
def concatenations : List (List Word) → List Word
  | [] => [[]]
  | part :: parts => joined part (concatenations parts)

def repeated (once : List Word) (count : Nat) : List Word :=
  concatenations (List.replicate count once)

@[simp] theorem joined_one (words : List Word) : joined words [[]] = words := by
  simp [joined]

@[simp] theorem one_joined (words : List Word) : joined [[]] words = words := by
  simp [joined]

theorem product_eq_ok_iff {heads tails words : List Word} :
    product limit heads tails = .ok words ↔
      check limit (heads.length * tails.length) = .ok () ∧ joined heads tails = words := by
  rw [product, check_bind_eq_ok_iff]
  apply and_congr_right
  intro checked
  exact ⟨Except.ok.inj, congrArg Except.ok⟩

def withPower (min count : Nat) (power kept : List Word) : List Word :=
  if min ≤ count then power ++ kept else kept

theorem powers_zero_eq_ok_iff {min count : Nat} {once power kept words : List Word} :
    powers limit min once 0 count power kept = .ok words ↔
      (min ≤ count → check limit (power.length + kept.length) = .ok ()) ∧
        withPower min count power kept = words := by
  unfold powers
  by_cases reached : min ≤ count
  · simp only [reached, if_true, withPower, pure_bind, check_bind_eq_ok_iff, forall_const]
    apply and_congr_right
    intro checked
    exact ⟨Except.ok.inj, congrArg Except.ok⟩
  · simp only [reached, if_false, withPower, pure_bind, false_implies, true_and]
    exact ⟨Except.ok.inj, congrArg Except.ok⟩

theorem powers_succ_eq_ok_iff {min left count : Nat} {once power kept words : List Word} :
    powers limit min once (left + 1) count power kept = .ok words ↔
      (min ≤ count → check limit (power.length + kept.length) = .ok ()) ∧
        check limit (power.length * once.length) = .ok () ∧
        powers limit min once left (count + 1) (joined power once)
          (withPower min count power kept) = .ok words := by
  rw [powers]
  by_cases reached : min ≤ count
  · simp only [reached, if_true, withPower, pure_bind, bind_assoc, check_bind_eq_ok_iff, product,
      forall_const]
  · simp only [reached, if_false, withPower, pure_bind, bind_assoc, check_bind_eq_ok_iff, product,
      false_implies, true_and]

/-- The blocks of the numbers from `left` down to zero, as far as `count` and the number together
are at least `min`. -/
def falling (min count left : Nat) (block : Nat → List Word) : List Word :=
  ((List.range (left + 1)).filter fun more => min ≤ count + more).reverse.flatMap block

theorem falling_eq (min max : Nat) (block : Nat → List Word) :
    falling min 0 max block = (List.Ico min (max + 1)).reverse.flatMap block := by
  simp only [falling, Nat.zero_add]
  rw [← List.Ico.zero_bot, List.Ico.filter_le, Nat.zero_max]

theorem falling_succ (min count left : Nat) (block : Nat → List Word) :
    falling min count (left + 1) block =
      falling min (count + 1) left (fun more => block (more + 1)) ++
        if min ≤ count then block 0 else [] := by
  have shifted : (fun more => decide (min ≤ count + (more + 1))) =
      fun more => decide (min ≤ count + 1 + more) := by
    funext more
    rw [Nat.add_assoc, Nat.add_comm 1 more]
  rw [falling, List.range_succ_eq_map, List.filter_cons, List.filter_map]
  by_cases reached : min ≤ count
  · simp [falling, reached, Function.comp_def, shifted, ← List.map_reverse, List.flatMap_map]
  · simp [falling, reached, Function.comp_def, shifted, ← List.map_reverse, List.flatMap_map]

theorem repeated_succ (once : List Word) (count : Nat) :
    repeated once (count + 1) = joined once (repeated once count) := rfl

theorem falling_powers (min count left : Nat) (once power kept : List Word) :
    falling min count (left + 1) (fun more => joined power (repeated once more)) ++ kept =
      falling min (count + 1) left (fun more => joined (joined power once) (repeated once more)) ++
        withPower min count power kept := by
  have first : joined power (repeated once 0) = power := joined_one power
  rw [falling_succ, first, List.append_assoc]
  simp only [joined_assoc, ← repeated_succ]
  by_cases reached : min ≤ count <;> simp [withPower, reached]

theorem powers_ok {min left count : Nat} {once power kept words : List Word}
    (result : powers limit min once left count power kept = .ok words) :
    words = falling min count left (fun more => joined power (repeated once more)) ++ kept := by
  induction left generalizing count power kept with
  | zero =>
      have listed := (powers_zero_eq_ok_iff.mp result).2
      rw [← listed, withPower]
      by_cases reached : min ≤ count <;>
        simp [falling, reached, repeated, concatenations]
  | succ left rest =>
      have later := (powers_succ_eq_ok_iff.mp result).2.2
      rw [rest later, falling_powers]

def languageOf (words : List Word) : Language Element := {word | word ∈ words}

@[simp] theorem mem_languageOf {words : List Word} {word : Word} :
    word ∈ languageOf words ↔ word ∈ words := Iff.rfl

theorem languageOf_append (first second : List Word) :
    languageOf (first ++ second) = languageOf first + languageOf second := by
  ext word
  rw [Language.mem_add, mem_languageOf, mem_languageOf, mem_languageOf, List.mem_append]

theorem languageOf_joined (heads tails : List Word) :
    languageOf (joined heads tails) = languageOf heads * languageOf tails := by
  ext word
  rw [mem_languageOf, mem_joined, Language.mem_mul]
  rfl

theorem languageOf_one : languageOf [[]] = 1 := by
  ext word
  rw [mem_languageOf, List.mem_singleton, Language.mem_one]

theorem languageOf_concatenations (parts : List (List Word)) :
    languageOf (concatenations parts) = (parts.map languageOf).prod := by
  induction parts with
  | nil => exact languageOf_one
  | cons part parts rest =>
      rw [concatenations, languageOf_joined, rest, List.map_cons, List.prod_cons]

theorem languageOf_flatten (parts : List (List Word)) :
    languageOf parts.flatten = (parts.map languageOf).sum := by
  induction parts with
  | nil => ext word; simp
  | cons part parts rest =>
      rw [List.flatten_cons, languageOf_append, rest, List.map_cons, List.sum_cons]

theorem languageOf_repeated (once : List Word) (count : Nat) :
    languageOf (repeated once count) = languageOf once ^ count := by
  rw [repeated, languageOf_concatenations, List.map_replicate, List.prod_replicate]

theorem mem_falling {min left : Nat} {block : Nat → List Word} {word : Word} :
    word ∈ falling min 0 left block ↔ ∃ count, min ≤ count ∧ count ≤ left ∧ word ∈ block count := by
  simp only [falling, Nat.zero_add, List.mem_flatMap, List.mem_reverse, List.mem_filter,
    List.mem_range, decide_eq_true_eq]
  constructor
  · intro blocks
    rcases blocks with ⟨count, ⟨below, enough⟩, member⟩
    exact ⟨count, enough, Nat.le_of_lt_succ below, member⟩
  · intro blocks
    rcases blocks with ⟨count, enough, below, member⟩
    exact ⟨count, ⟨Nat.lt_succ_of_le below, enough⟩, member⟩

end Expansion

namespace Tree

open Expansion

variable {limit : Nat}

theorem wordsOfAll_ok {front words : List Word} {items : List Tree}
    (result : wordsOfAll limit front items = .ok words) :
    ∃ parts, List.Forall₂ (fun item part => item.words limit = .ok part) items parts ∧
      words = joined front (concatenations parts) := by
  induction items generalizing front with
  | nil =>
      rw [wordsOfAll] at result
      refine ⟨[], .nil, ?_⟩
      rw [concatenations, joined_one]
      exact (Except.ok.inj result).symm
  | cons item items rest =>
      simp only [wordsOfAll, bind_eq_ok_iff, product_eq_ok_iff] at result
      rcases result with ⟨part, listed, -, ⟨-, rfl⟩, later⟩
      have further := rest later
      rcases further with ⟨parts, each, rfl⟩
      exact ⟨part :: parts, .cons listed each, joined_assoc front part (concatenations parts)⟩

theorem wordsOfEach_ok {front words : List Word} {choices : List Tree}
    (result : wordsOfEach limit front choices = .ok words) :
    ∃ parts, List.Forall₂ (fun choice part => choice.words limit = .ok part) choices parts ∧
      words = front ++ parts.flatten := by
  induction choices generalizing front with
  | nil =>
      rw [wordsOfEach] at result
      refine ⟨[], .nil, ?_⟩
      rw [List.flatten_nil, List.append_nil]
      exact (Except.ok.inj result).symm
  | cons choice choices rest =>
      simp only [wordsOfEach, bind_eq_ok_iff] at result
      rcases result with ⟨part, listed, -, -, later⟩
      have further := rest later
      rcases further with ⟨parts, each, rfl⟩
      refine ⟨part :: parts, .cons listed each, ?_⟩
      rw [List.append_assoc, List.flatten_cons]

theorem words_optional_ok {item : Tree} {words : List Word}
    (result : (optional item).words limit = .ok words) :
    ∃ present, item.words limit = .ok present ∧ words = present ++ [[]] := by
  simp only [Tree.words, bind_eq_ok_iff] at result
  rcases result with ⟨present, listed, -, -, appended⟩
  exact ⟨present, listed, (Except.ok.inj appended).symm⟩

theorem words_repetition_eq_ok_iff {item : Tree} {times : RepeatBounds} {max : Nat}
    (bounded : times.max = some max) {words : List Word} :
    (repetition item times).words limit = .ok words ↔
      check limit max = .ok () ∧ check limit (max - times.min + 1) = .ok () ∧
        ∃ once, item.words limit = .ok once ∧
          powers limit times.min once max 0 [[]] [] = .ok words := by
  rw [Tree.words, bounded, check_bind_eq_ok_iff, check_bind_eq_ok_iff, bind_eq_ok_iff]

theorem words_repetition_ok {item : Tree} {times : RepeatBounds} {words : List Word}
    (result : (repetition item times).words limit = .ok words) :
    ∃ max once, times.max = some max ∧ item.words limit = .ok once ∧
      words = falling times.min 0 max (repeated once) := by
  cases bounded : times.max with
  | none => simp [Tree.words, bounded] at result
  | some max =>
      obtain ⟨-, -, once, listed, all⟩ := (words_repetition_eq_ok_iff bounded).mp result
      have powers := powers_ok all
      simp only [one_joined, List.append_nil] at powers
      exact ⟨max, once, rfl, listed, powers⟩

theorem map_parts {α : Type} {view : List Word → α} {value : Tree → α} {items : List Tree}
    {parts : List (List Word)}
    (each : ∀ item ∈ items, ∀ words, item.words limit = .ok words → view words = value item)
    (listed : List.Forall₂ (fun item part => item.words limit = .ok part) items parts) :
    parts.map view = items.map value := by
  induction listed with
  | nil => rfl
  | cons head tail rest =>
      have front := each _ List.mem_cons_self _ head
      have back := rest fun item member => each item (List.mem_cons_of_mem _ member)
      rw [List.map_cons, List.map_cons, front, back]

theorem words_language (tree : Tree) :
    ∀ words, tree.words limit = .ok words → languageOf words = tree.language := by
  induction tree with
  | token spec =>
      intro words result
      rw [← Except.ok.inj result]
      ext word
      exact List.mem_singleton
  | any =>
      intro words result
      rw [← Except.ok.inj result]
      ext word
      exact List.mem_singleton
  | sequence items each =>
      intro words result
      rcases wordsOfAll_ok result with ⟨parts, listed, rfl⟩
      rw [one_joined, languageOf_concatenations, map_parts each listed, language_sequence]
  | alternative choices each =>
      intro words result
      rcases wordsOfEach_ok result with ⟨parts, listed, rfl⟩
      rw [List.nil_append, languageOf_flatten, map_parts each listed, language_alternative]
  | optional item inner =>
      intro words result
      rcases words_optional_ok result with ⟨present, listed, rfl⟩
      rw [languageOf_append, inner present listed, languageOf_one, language]
  | repetition item times inner =>
      intro words result
      rcases words_repetition_ok result with ⟨max, once, bounded, listed, rfl⟩
      ext word
      rw [mem_languageOf, mem_falling, mem_language_repetition]
      simp only [← mem_languageOf, languageOf_repeated, inner once listed, RepeatBounds.Allows,
        bounded, Option.some.injEq, forall_eq', and_assoc]
  | negation item inner =>
      intro words result
      rw [← Except.ok.inj result]
      ext word
      exact List.mem_singleton

end Tree

namespace Pattern

open Expansion

theorem expandWithin_eq_ok_iff {pattern : Pattern} {limit : Nat} {words : List Word} :
    pattern.expandWithin limit = .ok words ↔
      ∃ all, pattern.tree.words limit = .ok all ∧ words = distinctWords all := by
  rw [expandWithin, bind_eq_ok_iff]
  constructor
  · intro expanded
    obtain ⟨all, listed, distinct⟩ := expanded
    exact ⟨all, listed, (Except.ok.inj distinct).symm⟩
  · intro listed
    obtain ⟨all, listed, rfl⟩ := listed
    exact ⟨all, listed, rfl⟩

theorem mem_expandWithin {pattern : Pattern} {limit : Nat} {words : List Word}
    (expanded : pattern.expandWithin limit = .ok words) {word : Word} :
    word ∈ words ↔ word ∈ pattern.tree.language := by
  obtain ⟨all, listed, rfl⟩ := expandWithin_eq_ok_iff.mp expanded
  have same : languageOf all = pattern.tree.language := pattern.tree.words_language all listed
  rw [distinctWords_eq, List.mem_eraseDups, ← same, mem_languageOf]

theorem nodup_expandWithin {pattern : Pattern} {limit : Nat} {words : List Word}
    (expanded : pattern.expandWithin limit = .ok words) : words.Nodup := by
  obtain ⟨all, -, rfl⟩ := expandWithin_eq_ok_iff.mp expanded
  rw [distinctWords_eq]
  exact all.nodup_eraseDups

theorem expandWithin_enumerates (pattern : Pattern) (limit : Nat) (words : List Word)
    (expanded : pattern.expandWithin limit = .ok words) :
    words.Nodup ∧ ∀ word, word ∈ words ↔ word ∈ pattern.tree.language :=
  ⟨nodup_expandWithin expanded, fun _ => mem_expandWithin expanded⟩

def shortRuns : Tree := .repetition (.alternative [.any, .sequence [.any, .any]]) ⟨1, some 2⟩

theorem shortRuns_enumerated :
    ∃ pattern, ofTree shortRuns = .ok pattern ∧
      pattern.expandWithin 6 =
        .ok [[.any, .any], [.any, .any, .any], [.any, .any, .any, .any], [.any]] ∧
      [[Element.any, .any], [.any, .any, .any], [.any, .any, .any, .any], [.any]].Nodup ∧
      ∀ word, word ∈ [[Element.any, .any], [.any, .any, .any], [.any, .any, .any, .any], [.any]] ↔
        word ∈ pattern.tree.language := by
  refine ⟨_, rfl, rfl, ?_⟩
  exact expandWithin_enumerates _ 6 _ rfl

end Pattern

end TokenPattern
