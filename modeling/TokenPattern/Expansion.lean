import TokenPattern.Pattern
import TokenPattern.Tree.Display

/-!
The words of a pattern, the preferred ones first: an earlier choice comes before a later one, an
item before its absence, and more repetitions before fewer. Wherever words are put together their
number is checked, repeated words included, and so is the number of repetitions.
-/

namespace TokenPattern

inductive Element where
  | token (spec : TokenSpec)
  | any
  | negation (item : Tree)
  deriving DecidableEq

namespace Element

def toTree : Element → Tree
  | .token spec => .token spec
  | .any => .any
  | .negation item => .negation item

def display (element : Element) : List Char := element.toTree.display

end Element

abbrev Word := List Element

def defaultLimit : Nat := 1024

inductive ExpansionError where
  | unbounded
  | aboveLimit (limit : Nat)
  deriving DecidableEq, Repr

def ExpansionError.message : ExpansionError → String
  | .unbounded => "cannot expand a repetition without an upper bound"
  | .aboveLimit limit => s!"expansion exceeds the limit of {limit}"

namespace Expansion

/-- Refuses a number above the limit. Numbers beyond `maxCount` count as `maxCount`. -/
def check (limit count : Nat) : Except ExpansionError Unit :=
  if saturate count ≤ limit then .ok () else .error (.aboveLimit limit)

def joined (heads tails : List Word) : List Word :=
  heads.flatMap fun head => tails.map (head ++ ·)

def product (limit : Nat) (heads tails : List Word) : Except ExpansionError (List Word) := do
  check limit (heads.length * tails.length)
  return joined heads tails

/-- The words of `count` to `count + left` repetitions, as far as these are at least `min`, put
before the words `kept`. Here `once` are the words of a single repetition and `power` those of
`count` repetitions. -/
def powers (limit min : Nat) (once : List Word) (left count : Nat) (power kept : List Word) :
    Except ExpansionError (List Word) := do
  let kept ←
    if min ≤ count then do
      check limit (power.length + kept.length)
      pure (power ++ kept)
    else
      pure kept
  match left with
  | 0 => return kept
  | left + 1 => powers limit min once left (count + 1) (← product limit power once) kept

@[simp] theorem check_eq_ok_iff {limit count : Nat} :
    check limit count = .ok () ↔ saturate count ≤ limit := by
  by_cases small : saturate count ≤ limit <;> simp [check, small]

theorem check_eq_error_iff {limit count : Nat} {error : ExpansionError} :
    check limit count = .error error ↔ limit < saturate count ∧ error = .aboveLimit limit := by
  by_cases small : saturate count ≤ limit
  · simp [check, small, Nat.not_lt.mpr small]
  · simp [check, small, Nat.lt_of_not_le small, eq_comm]

@[simp] theorem mem_joined {heads tails : List Word} {word : Word} :
    word ∈ joined heads tails ↔ ∃ head ∈ heads, ∃ tail ∈ tails, head ++ tail = word := by
  simp [joined]

@[simp] theorem length_joined (heads tails : List Word) :
    (joined heads tails).length = heads.length * tails.length := by
  induction heads with
  | nil => simp [joined]
  | cons head heads rest =>
      have split : joined (head :: heads) tails = tails.map (head ++ ·) ++ joined heads tails := rfl
      rw [split, List.length_append, List.length_map, rest, List.length_cons, Nat.succ_mul,
        Nat.add_comm]

theorem joined_assoc (first second third : List Word) :
    joined (joined first second) third = joined first (joined second third) := by
  simp [joined, List.flatMap_assoc, List.map_flatMap, List.flatMap_map, Function.comp_def]

end Expansion

namespace Tree

open Expansion

mutual

def words (limit : Nat) : Tree → Except ExpansionError (List Word)
  | .token spec => .ok [[.token spec]]
  | .any => .ok [[.any]]
  | .sequence items => wordsOfAll limit [[]] items
  | .alternative choices => wordsOfEach limit [] choices
  | .optional item => do
      let present ← words limit item
      check limit (present.length + 1)
      return present ++ [[]]
  | .repetition item times => do
      match times.max with
      | none => .error .unbounded
      | some max =>
          check limit max
          check limit (max - times.min + 1)
          powers limit times.min (← words limit item) max 0 [[]] []
  | .negation item => .ok [[.negation item]]

def wordsOfAll (limit : Nat) (front : List Word) : List Tree → Except ExpansionError (List Word)
  | [] => .ok front
  | item :: items => do
      wordsOfAll limit (← product limit front (← words limit item)) items

def wordsOfEach (limit : Nat) (front : List Word) : List Tree → Except ExpansionError (List Word)
  | [] => .ok front
  | choice :: choices => do
      let more ← words limit choice
      check limit (front.length + more.length)
      wordsOfEach limit (front ++ more) choices

end

end Tree

/-- The words without those that came before. Their lengths are compared first. -/
def distinctWords (words : List Word) : List Word :=
  ((words.map fun word => (word.length, word)).eraseDups).map Prod.snd

@[simp] theorem distinctWords_eq (words : List Word) : distinctWords words = words.eraseDups := by
  have same (word other : Word) :
      ((other.length, other) == (word.length, word)) = (other == word) := by
    rw [Bool.eq_iff_iff, beq_iff_eq, beq_iff_eq, Prod.mk.injEq]
    exact ⟨And.right, fun equal => ⟨congrArg List.length equal, equal⟩⟩
  have keyed (count : Nat) : ∀ words : List Word, words.length = count →
      (words.map fun word => (word.length, word)).eraseDups =
        words.eraseDups.map fun word => (word.length, word) := by
    induction count using Nat.strongRecOn with
    | _ count shorter =>
        intro words size
        cases words with
        | nil => rfl
        | cons word rest =>
            have kept := List.length_filter_le (fun other => !other == word) rest
            simp only [List.length_cons] at size
            simp only [List.map_cons, List.eraseDups_cons, List.filter_map, Function.comp_def, same]
            rw [shorter _ (by omega) _ rfl]
  simp [distinctWords, keyed _ words rfl, Function.comp_def]

namespace Pattern

def expandWithin (limit : Nat) (pattern : Pattern) : Except ExpansionError (List Word) := do
  return distinctWords (← pattern.tree.words limit)

def expand (pattern : Pattern) : Except ExpansionError (List Word) :=
  pattern.expandWithin defaultLimit

end Pattern

end TokenPattern
