import Mathlib.Computability.Language
import TokenPattern.Expansion

namespace TokenPattern

def RepeatBounds.Allows (times : RepeatBounds) (count : Nat) : Prop :=
  times.min ≤ count ∧ ∀ max, times.max = some max → count ≤ max

namespace Tree

mutual

def language : Tree → Language Element
  | .token spec => {[.token spec]}
  | .any => {[.any]}
  | .sequence items => (languageOfAll items).prod
  | .alternative choices => (languageOfAll choices).sum
  | .optional item => item.language + 1
  | .repetition item times => {word | ∃ count, times.Allows count ∧ word ∈ item.language ^ count}
  | .negation item => {[.negation item]}

def languageOfAll : List Tree → List (Language Element)
  | [] => []
  | item :: items => item.language :: languageOfAll items

end

@[simp] theorem languageOfAll_eq (items : List Tree) : languageOfAll items = items.map language := by
  induction items with
  | nil => rfl
  | cons item items each => simp [languageOfAll, each]

theorem language_sequence (items : List Tree) :
    (sequence items).language = (items.map language).prod := by
  simp [language]

theorem language_alternative (choices : List Tree) :
    (alternative choices).language = (choices.map language).sum := by
  simp [language]

@[simp] theorem mem_language_repetition {item : Tree} {times : RepeatBounds} {word : Word} :
    word ∈ (repetition item times).language ↔
      ∃ count, times.Allows count ∧ word ∈ item.language ^ count := by
  rw [language]
  rfl

@[simp] theorem mem_sum {languages : List (Language Element)} {word : Word} :
    word ∈ languages.sum ↔ ∃ language ∈ languages, word ∈ language := by
  induction languages with
  | nil => simp
  | cons language languages rest => simp [Language.mem_add, rest]

@[simp] theorem mem_language_alternative {choices : List Tree} {word : Word} :
    word ∈ (alternative choices).language ↔ ∃ choice ∈ choices, word ∈ choice.language := by
  simp [language_alternative]

theorem nil_mem_pow {language : Language Element} (empty : [] ∈ language) (count : Nat) :
    [] ∈ language ^ count := by
  induction count with
  | zero => simp
  | succ count rest =>
      rw [pow_succ]
      exact Language.append_mem_mul rest empty

end Tree

end TokenPattern
