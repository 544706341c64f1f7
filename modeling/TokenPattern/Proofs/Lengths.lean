import TokenPattern.Proofs.Language
import TokenPattern.Tree.Bounds

namespace TokenPattern

namespace LengthBounds

/-- The bounds hold for the length of every word of the language. -/
def Covers (bounds : LengthBounds) (language : Language Element) : Prop :=
  ∀ word ∈ language, bounds.contains word.length = true

variable {first second bounds : LengthBounds} {language other : Language Element}

theorem covers_singleton (word : Word) : (exact word.length).Covers {word} := by
  intro other member
  have same : other = word := member
  subst same
  simp [exact]

theorem covers_one : (exact 0).Covers 1 := covers_singleton []

theorem Covers.append (front : first.Covers language) (back : second.Covers other) :
    (first.append second).Covers (language * other) := by
  intro word member
  rcases Language.mem_mul.mp member with ⟨head, headMember, tail, tailMember, rfl⟩
  rcases contains_iff.mp (front head headMember) with ⟨headMin, headMax⟩
  rcases contains_iff.mp (back tail tailMember) with ⟨tailMin, tailMax⟩
  rw [contains_iff, List.length_append]
  constructor
  · calc
      saturate (first.min + second.min) ≤ first.min + second.min := saturate_le _
      _ ≤ head.length + tail.length := Nat.add_le_add headMin tailMin
  · intro max bounded
    simp only [LengthBounds.append] at bounded
    split at bounded
    · rename_i a b firstMax secondMax
      have sum : a + b = max := (checked_eq_some.mp bounded).1
      have headBelow := headMax a firstMax
      have tailBelow := tailMax b secondMax
      calc
        head.length + tail.length ≤ a + b := Nat.add_le_add headBelow tailBelow
        _ = max := sum
    · simp at bounded

theorem contains_union_left {length : Nat} (inside : first.contains length = true)
    (second : LengthBounds) : (first.union second).contains length = true := by
  rcases contains_iff.mp inside with ⟨low, high⟩
  rw [contains_iff]
  constructor
  · exact Nat.le_trans (Nat.min_le_left _ _) low
  · intro max bounded
    simp only [LengthBounds.union] at bounded
    split at bounded
    · rename_i a b firstMax secondMax
      calc
        length ≤ a := high a firstMax
        _ ≤ Nat.max a b := Nat.le_max_left a b
        _ = max := Option.some.inj bounded
    · simp at bounded

theorem union_comm (first second : LengthBounds) : first.union second = second.union first := by
  rw [LengthBounds.union, LengthBounds.union]
  cases first.max <;> cases second.max <;> simp [Nat.min_comm, Nat.max_comm]

theorem Covers.union (left : first.Covers language) (right : second.Covers other) :
    (first.union second).Covers (language + other) := by
  intro word member
  rcases (Language.mem_add language other word).mp member with inside | inside
  · exact contains_union_left (left word inside) second
  · rw [union_comm]
    exact contains_union_left (right word inside) first

theorem Covers.orNothing (present : bounds.Covers language) :
    bounds.orNothing.Covers (language + 1) := by
  intro word member
  rw [contains_iff]
  refine ⟨Nat.zero_le _, ?_⟩
  intro max bounded
  rcases (Language.mem_add language 1 word).mp member with inside | nothing
  · exact (contains_iff.mp (present word inside)).2 max bounded
  · rw [(Language.mem_one word).mp nothing]
    exact Nat.zero_le max

theorem Covers.length_pow (once : bounds.Covers language) (count : Nat) :
    ∀ word ∈ language ^ count, count * bounds.min ≤ word.length ∧
      ∀ max, bounds.max = some max → word.length ≤ count * max := by
  induction count with
  | zero => simp
  | succ count rest =>
      intro word member
      rw [pow_succ] at member
      rcases Language.mem_mul.mp member with ⟨front, frontMember, back, backMember, rfl⟩
      rcases rest front frontMember with ⟨frontMin, frontMax⟩
      rcases contains_iff.mp (once back backMember) with ⟨backMin, backMax⟩
      rw [List.length_append, Nat.succ_mul]
      constructor
      · exact Nat.add_le_add frontMin backMin
      · intro max bounded
        rw [Nat.succ_mul]
        exact Nat.add_le_add (frontMax max bounded) (backMax max bounded)

theorem Covers.repeated (once : bounds.Covers language) {times : RepeatBounds} {count : Nat}
    (allowed : times.Allows count) : (bounds.repeated times).Covers (language ^ count) := by
  intro word member
  rcases once.length_pow count word member with ⟨low, high⟩
  rw [contains_iff]
  constructor
  · calc
      saturate (bounds.min * times.min) ≤ bounds.min * times.min := saturate_le _
      _ ≤ bounds.min * count := Nat.mul_le_mul_left _ allowed.1
      _ = count * bounds.min := Nat.mul_comm _ _
      _ ≤ word.length := low
  · intro max bounded
    simp only [LengthBounds.repeated] at bounded
    split at bounded
    · rename_i itemMax
      have below := high 0 itemMax
      omega
    · -- no repetition at all: the item may be as long as it likes
      rename_i timesMax positive
      have nothing : count = 0 := Nat.le_zero.mp (allowed.2 0 timesMax)
      subst nothing
      have empty := (Language.mem_one word).mp member
      simp [empty]
    · rename_i a b itemPositive timesPositive itemMax timesMax
      have product : a * b = max := (checked_eq_some.mp bounded).1
      calc
        word.length ≤ count * a := high a itemMax
        _ ≤ b * a := Nat.mul_le_mul_right _ (allowed.2 b timesMax)
        _ = max := by rw [Nat.mul_comm, product]
    · simp at bounded

end LengthBounds

namespace Tree

open LengthBounds

section Combining

variable {holds : LengthBounds → Language Element → Prop} {items choices : List Tree}

theorem foldl_holds {combine : LengthBounds → LengthBounds → LengthBounds}
    {join : Language Element → Language Element → Language Element}
    (sound : ∀ {first second : LengthBounds} {language other : Language Element},
      holds first language → holds second other →
        holds (combine first second) (join language other))
    (each : ∀ item ∈ items, holds item.bounds item.language)
    {start : LengthBounds} {language : Language Element} (front : holds start language) :
    holds ((items.map bounds).foldl combine start)
      ((items.map Tree.language).foldl join language) := by
  induction items generalizing start language with
  | nil => exact front
  | cons item items rest =>
      have head := each item List.mem_cons_self
      have tail : ∀ item ∈ items, holds item.bounds item.language :=
        fun item member => each item (List.mem_cons_of_mem _ member)
      exact rest tail (sound front head)

theorem sequence_holds
    (sound : ∀ {first second : LengthBounds} {language other : Language Element},
      holds first language → holds second other → holds (first.append second) (language * other))
    (start : holds (exact 0) 1) (each : ∀ item ∈ items, holds item.bounds item.language) :
    holds (sequence items).bounds (sequence items).language := by
  rw [bounds_sequence, language_sequence, concat, List.prod_eq_foldl]
  exact foldl_holds sound each start

theorem alternative_holds
    (sound : ∀ {first second : LengthBounds} {language other : Language Element},
      holds first language → holds second other → holds (first.union second) (language + other))
    (filled : choices ≠ []) (each : ∀ choice ∈ choices, holds choice.bounds choice.language) :
    holds (alternative choices).bounds (alternative choices).language := by
  cases choices with
  | nil => exact absurd rfl filled
  | cons choice choices =>
      have head := each choice List.mem_cons_self
      have tail : ∀ item ∈ choices, holds item.bounds item.language :=
        fun item member => each item (List.mem_cons_of_mem _ member)
      rw [bounds_alternative, language_alternative, List.sum_eq_foldl, List.map_cons,
        List.map_cons, List.foldl_cons, zero_add, LengthBounds.choice]
      exact foldl_holds sound tail head

end Combining

theorem bounds_cover (tree : Tree) : tree.bounds.Covers tree.language := by
  induction tree with
  | token spec => exact covers_singleton [.token spec]
  | any => exact covers_singleton [.any]
  | sequence items each => exact sequence_holds Covers.append covers_one each
  | alternative choices each =>
      cases choices with
      | nil =>
          intro word member
          obtain ⟨choice, none, -⟩ := mem_language_alternative.mp member
          simp at none
      | cons choice choices => exact alternative_holds Covers.union (by simp) each
  | optional item inner => exact inner.orNothing
  | repetition item times inner =>
      intro word member
      obtain ⟨count, allowed, inside⟩ := mem_language_repetition.mp member
      exact inner.repeated allowed word inside
  | negation item inner => exact covers_singleton [.negation item]

end Tree

end TokenPattern
