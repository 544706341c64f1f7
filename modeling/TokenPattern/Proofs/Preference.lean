import TokenPattern.Proofs.Construction
import TokenPattern.Proofs.Enumeration

namespace TokenPattern

namespace Expansion

variable {first second third fourth : List Word}

/-- Without the words that came before, the lists are the same. -/
def Alike (first second : List Word) : Prop := first.eraseDups = second.eraseDups

namespace Alike

theorem mem_iff (alike : Alike first second) {word : Word} : word ∈ first ↔ word ∈ second := by
  rw [← List.mem_eraseDups, alike, List.mem_eraseDups]

theorem append (front : Alike first second) (back : Alike third fourth) :
    Alike (first ++ third) (second ++ fourth) := by
  have known : (fun word => !first.elem word) = fun word => !second.elem word := by
    funext word
    rw [Bool.not_inj_iff, Bool.eq_iff_iff]
    simpa using front.mem_iff
  calc
    (first ++ third).eraseDups = first.eraseDups ++ (third.removeAll first).eraseDups :=
      List.eraseDups_append
    _ = first.eraseDups ++ third.eraseDups.filter fun word => !first.elem word := by
      rw [List.removeAll, List.eraseDups_filter]
    _ = second.eraseDups ++ fourth.eraseDups.filter fun word => !second.elem word := by
      rw [known, front, back]
    _ = second.eraseDups ++ (fourth.removeAll second).eraseDups := by
      rw [List.removeAll, List.eraseDups_filter]
    _ = (second ++ fourth).eraseDups := List.eraseDups_append.symm

theorem append_known (known : second ⊆ first) : Alike (first ++ second) first := by
  have nothing : second.removeAll first = [] := by
    apply List.filter_eq_nil_iff.mpr
    intro word member
    simp [known member]
  rw [Alike, List.eraseDups_append, nothing, List.eraseDups_nil, List.append_nil]

theorem eraseDups (words : List Word) : Alike words.eraseDups words := by
  induction words using List.reverseRecOn with
  | nil => rfl
  | append_singleton words word earlier =>
      rw [List.eraseDups_concat]
      by_cases known : word ∈ words
      · rw [if_pos known]
        exact earlier.trans (append_known (by simpa using known)).symm
      · rw [if_neg known]
        exact earlier.append rfl

theorem flatMap_eraseDups (words : List Word) (bring : Word → List Word) :
    Alike (words.eraseDups.flatMap bring) (words.flatMap bring) := by
  induction words using List.reverseRecOn with
  | nil => rfl
  | append_singleton words word earlier =>
      rw [List.eraseDups_concat, List.flatMap_append]
      by_cases known : word ∈ words
      · rw [if_pos known]
        have brought : [word].flatMap bring ⊆ words.flatMap bring := by
          intro other member
          rw [List.flatMap_singleton] at member
          exact List.mem_flatMap.mpr ⟨word, known, member⟩
        exact earlier.trans (append_known brought).symm
      · rw [if_neg known, List.flatMap_append]
        exact earlier.append rfl

theorem flatMap_left (alike : Alike first second) (bring : Word → List Word) :
    Alike (first.flatMap bring) (second.flatMap bring) := by
  have left := flatMap_eraseDups first bring
  have right := flatMap_eraseDups second bring
  rw [show first.eraseDups = second.eraseDups from alike] at left
  exact left.symm.trans right

theorem flatMap_right {α : Type} {bring other : α → List Word}
    (each : ∀ source, Alike (bring source) (other source)) (sources : List α) :
    Alike (sources.flatMap bring) (sources.flatMap other) := by
  induction sources with
  | nil => rfl
  | cons source sources rest => exact (each source).append rest

theorem map (alike : Alike first second) (change : Word → Word) :
    Alike (first.map change) (second.map change) := by
  rw [List.map_eq_flatMap, List.map_eq_flatMap]
  exact alike.flatMap_left fun word => [change word]

theorem joined (front : Alike first second) (back : Alike third fourth) :
    Alike (joined first third) (joined second fourth) :=
  (front.flatMap_left _).trans (flatMap_right (fun head => back.map (head ++ ·)) second)

theorem concatenations {parts others : List (List Word)} (each : List.Forall₂ Alike parts others) :
    Alike (concatenations parts) (concatenations others) := by
  induction each with
  | nil => rfl
  | cons head tail rest => exact head.joined rest

theorem flatten {parts others : List (List Word)} (each : List.Forall₂ Alike parts others) :
    Alike parts.flatten others.flatten := by
  induction each with
  | nil => rfl
  | cons head tail rest => exact head.append rest

theorem repeated (once : Alike first second) (count : Nat) :
    Alike (repeated first count) (repeated second count) := by
  induction count with
  | zero => rfl
  | succ count rest => exact once.joined rest

end Alike

end Expansion

namespace Pattern

open Expansion

variable {limit : Nat} {words : List Word} {whole : Pattern}

def ExpandEach (limit : Nat) (patterns : List Pattern) (parts : List (List Word)) : Prop :=
  List.Forall₂ (fun pattern part => pattern.expandWithin limit = .ok part) patterns parts

theorem expandWithin_of_words {pattern : Pattern} (listed : pattern.tree.words limit = .ok words) :
    pattern.expandWithin limit = .ok words.eraseDups :=
  expandWithin_eq_ok_iff.mpr ⟨words, listed, (distinctWords_eq words).symm⟩

theorem exists_expandEach {items : List Pattern} {lists : List (List Word)}
    (listed : List.Forall₂ (fun item part => item.words limit = .ok part) (items.map tree) lists) :
    ∃ parts, ExpandEach limit items parts ∧ List.Forall₂ Alike parts lists := by
  refine ⟨lists.map List.eraseDups, ?_, ?_⟩
  · rw [List.forall₂_map_left_iff] at listed
    exact List.forall₂_map_right_iff.mpr (listed.imp fun _ _ => expandWithin_of_words)
  · rw [List.forall₂_map_left_iff, List.forall₂_same]
    exact fun part _ => Alike.eraseDups part

theorem sequence_expansion {items : List Pattern} (built : sequence items = .ok whole)
    (expanded : whole.expandWithin limit = .ok words) :
    ∃ parts, ExpandEach limit items parts ∧ words = (concatenations parts).eraseDups := by
  rcases expandWithin_eq_ok_iff.mp expanded with ⟨all, listed, rfl⟩
  rw [(sequence_settled items).shape built, Tree.words] at listed
  rcases Tree.wordsOfAll_ok listed with ⟨lists, each, rfl⟩
  rcases exists_expandEach each with ⟨parts, expansions, alike⟩
  refine ⟨parts, expansions, ?_⟩
  rw [distinctWords_eq, one_joined]
  exact (Alike.concatenations alike).symm

theorem alternative_expansion {choices : List Pattern} (built : alternative choices = .ok whole)
    (expanded : whole.expandWithin limit = .ok words) :
    ∃ parts, ExpandEach limit choices parts ∧ words = parts.flatten.eraseDups := by
  rcases expandWithin_eq_ok_iff.mp expanded with ⟨all, listed, rfl⟩
  rw [(alternative_settled choices).shape built, Tree.words] at listed
  rcases Tree.wordsOfEach_ok listed with ⟨lists, each, rfl⟩
  rcases exists_expandEach each with ⟨parts, expansions, alike⟩
  refine ⟨parts, expansions, ?_⟩
  rw [distinctWords_eq, List.nil_append]
  exact (Alike.flatten alike).symm

theorem optional_expansion {item : Pattern} (built : item.optional = .ok whole)
    (expanded : whole.expandWithin limit = .ok words) :
    ∃ part, item.expandWithin limit = .ok part ∧ words = (part ++ [[]]).eraseDups := by
  rcases expandWithin_eq_ok_iff.mp expanded with ⟨all, listed, rfl⟩
  rw [(optional_settled item).shape built] at listed
  rcases Tree.words_optional_ok listed with ⟨present, once, rfl⟩
  refine ⟨present.eraseDups, expandWithin_of_words once, ?_⟩
  rw [distinctWords_eq]
  exact ((Alike.eraseDups present).append rfl).symm

theorem repetition_expansion {item : Pattern} {min : Nat} {max : Option Nat}
    (built : item.repetition min max = .ok whole)
    (expanded : whole.expandWithin limit = .ok words) :
    ∃ most part, max = some most ∧ item.expandWithin limit = .ok part ∧
      words = ((List.Ico min (most + 1)).reverse.flatMap (repeated part)).eraseDups := by
  rcases expandWithin_eq_ok_iff.mp expanded with ⟨all, listed, rfl⟩
  rw [(repetition_settled item min max).shape built] at listed
  rcases Tree.words_repetition_ok listed with ⟨most, once, bounded, single, rfl⟩
  refine ⟨most, once.eraseDups, bounded, expandWithin_of_words single, ?_⟩
  rw [distinctWords_eq, falling_eq]
  exact (Alike.flatMap_right (Alike.eraseDups once).repeated _).symm

/-- Whatever can be expanded has parts that can be expanded under the same limit, and its expansion
is put together from theirs: one word of each item, the choice in the first item varying slowest;
the words of one choice after those of the other; those of the item and then the empty word; the
words of the greatest number of repetitions first. Of equal words the first is kept. -/
theorem expansion_composed (limit : Nat) :
    (∀ items whole words, sequence items = .ok whole → whole.expandWithin limit = .ok words →
      ∃ parts, ExpandEach limit items parts ∧ words = (concatenations parts).eraseDups) ∧
    (∀ choices whole words, alternative choices = .ok whole → whole.expandWithin limit = .ok words →
      ∃ parts, ExpandEach limit choices parts ∧ words = parts.flatten.eraseDups) ∧
    (∀ item whole words, optional item = .ok whole → whole.expandWithin limit = .ok words →
      ∃ part, item.expandWithin limit = .ok part ∧ words = (part ++ [[]]).eraseDups) ∧
    ∀ item min max whole words, repetition item min max = .ok whole →
      whole.expandWithin limit = .ok words →
        ∃ most part, max = some most ∧ item.expandWithin limit = .ok part ∧
          words = ((List.Ico min (most + 1)).reverse.flatMap (repeated part)).eraseDups := by
  refine ⟨?_, ?_, ?_, ?_⟩
  · exact fun items whole words built => sequence_expansion built
  · exact fun choices whole words built => alternative_expansion built
  · exact fun item whole words built => optional_expansion built
  · exact fun item min max whole words built => repetition_expansion built

theorem maybeAny_expansion_composed :
    ∃ maybe pair either runs,
      any.optional = .ok maybe ∧ maybe.expandWithin 7 = .ok [[.any], []] ∧
      (∃ part, any.expandWithin 7 = .ok part ∧
        [[Element.any], []] = (part ++ [[]]).eraseDups) ∧
      sequence [maybe, maybe] = .ok pair ∧ pair.expandWithin 7 = .ok [[.any, .any], [.any], []] ∧
      (∃ parts, ExpandEach 7 [maybe, maybe] parts ∧
        [[Element.any, .any], [.any], []] = (concatenations parts).eraseDups) ∧
      alternative [maybe, any] = .ok either ∧ either.expandWithin 7 = .ok [[.any], []] ∧
      (∃ parts, ExpandEach 7 [maybe, any] parts ∧
        [[Element.any], []] = parts.flatten.eraseDups) ∧
      maybe.repetition 0 (some 2) = .ok runs ∧
      runs.expandWithin 7 = .ok [[.any, .any], [.any], []] ∧
      ∃ most part, some 2 = some most ∧ maybe.expandWithin 7 = .ok part ∧
        [[Element.any, .any], [.any], []] =
          ((List.Ico 0 (most + 1)).reverse.flatMap (repeated part)).eraseDups := by
  have composed := expansion_composed 7
  refine ⟨_, _, _, _, rfl, rfl, ?_, rfl, rfl, ?_, rfl, rfl, ?_, rfl, rfl, ?_⟩
  · exact composed.2.2.1 _ _ _ rfl rfl
  · exact composed.1 _ _ _ rfl rfl
  · exact composed.2.1 _ _ _ rfl rfl
  · exact composed.2.2.2 _ _ _ _ _ rfl rfl

end Pattern

end TokenPattern
