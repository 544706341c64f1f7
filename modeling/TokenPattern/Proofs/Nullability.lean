import TokenPattern.Match

namespace TokenPattern

namespace LengthBounds

variable {first second bounds : LengthBounds}

theorem nullable_append :
    (first.append second).nullable = (first.nullable && second.nullable) := by
  rw [Bool.eq_iff_iff]
  simp [append]

theorem nullable_union :
    (first.union second).nullable = (first.nullable || second.nullable) := by
  rw [Bool.eq_iff_iff, Bool.or_eq_true]
  simp only [nullable_iff]
  exact Nat.min_eq_zero_iff

theorem nullable_repeated (times : RepeatBounds) :
    (bounds.repeated times).nullable = (bounds.nullable || times.min == 0) := by
  rw [Bool.eq_iff_iff]
  simp [repeated, Nat.mul_eq_zero]

theorem nullable_foldl_append (parts : List LengthBounds) :
    (parts.foldl append first).nullable = (first.nullable && parts.all nullable) := by
  induction parts generalizing first with
  | nil => simp
  | cons part parts rest =>
      rw [List.foldl_cons, rest, nullable_append, List.all_cons, Bool.and_assoc]

theorem nullable_foldl_union (parts : List LengthBounds) :
    (parts.foldl union first).nullable = (first.nullable || parts.any nullable) := by
  induction parts generalizing first with
  | nil => simp
  | cons part parts rest =>
      rw [List.foldl_cons, rest, nullable_union, List.any_cons, Bool.or_assoc]

theorem nullable_concat (parts : List LengthBounds) :
    (concat parts).nullable = parts.all nullable :=
  nullable_foldl_append parts

theorem nullable_choice {parts : List LengthBounds} (filled : parts ≠ []) :
    (choice parts).nullable = parts.any nullable := by
  cases parts with
  | nil => exact absurd rfl filled
  | cons part parts => rw [choice, nullable_foldl_union, List.any_cons]

end LengthBounds

def emptyMatch (succeeds : Bool) : Option Nat := if succeeds then some 0 else none

/-- With no token left, one attempt decides: an item that matches is empty, and one that does not
match leaves the repetition at a count of zero. -/
theorem greedy_nil {step : List Token → Option Nat} {succeeds : Bool}
    (attempt : step [] = emptyMatch succeeds) {times : RepeatBounds}
    (ordered : ∀ max, times.max = some max → times.min ≤ max) :
    greedy step times 0 [] = emptyMatch (succeeds || times.min == 0) := by
  rw [greedy, attempt]
  by_cases allowed : times.allowsMore 0 = true
  · rw [if_pos allowed]
    cases succeeds with
    | true => rfl
    | false => simp [emptyMatch, RepeatBounds.enough]
  · -- without any repetition there is no least number to reach
    have bounded : times.max = some 0 :=
      RepeatBounds.max_eq_of_not_allowsMore (fun max _ => Nat.zero_le max) allowed
    have free : times.min = 0 := Nat.le_zero.mp (ordered 0 bounded)
    rw [if_neg allowed]
    simp [emptyMatch, RepeatBounds.enough, free]

namespace Tree

variable {ignoreCase : Bool}

theorem consumeAll_nil {items : List Tree}
    (each : ∀ item ∈ items, item.consume ignoreCase [] = emptyMatch item.bounds.nullable) :
    consumeAll ignoreCase items [] = emptyMatch (items.all fun item => item.bounds.nullable) := by
  induction items with
  | nil => rfl
  | cons item items rest =>
      have head := each item List.mem_cons_self
      have tail := rest fun item member => each item (List.mem_cons_of_mem _ member)
      rw [consumeAll, head, List.all_cons]
      cases item.bounds.nullable with
      | false => rfl
      | true =>
          simp only [emptyMatch, if_true, Option.bind_eq_bind, Option.bind_some, List.drop_nil,
            tail, Bool.true_and]
          split <;> rfl

theorem consumeFirst_nil {choices : List Tree}
    (each : ∀ choice ∈ choices,
      choice.consume ignoreCase [] = emptyMatch choice.bounds.nullable) :
    consumeFirst ignoreCase choices [] =
      emptyMatch (choices.any fun choice => choice.bounds.nullable) := by
  induction choices with
  | nil => rfl
  | cons choice choices rest =>
      have head := each choice List.mem_cons_self
      have tail := rest fun choice member => each choice (List.mem_cons_of_mem _ member)
      rw [consumeFirst, head, List.any_cons]
      cases choice.bounds.nullable with
      | true => rfl
      | false => exact tail

theorem consume_nil (ignoreCase : Bool) {tree : Tree} (wellFormed : tree.WellFormed) :
    tree.consume ignoreCase [] = emptyMatch tree.bounds.nullable := by
  induction wellFormed with
  | token spec => rfl
  | any => rfl
  | @sequence items filled wellFormed each =>
      rw [consume, consumeAll_nil each, bounds_sequence, LengthBounds.nullable_concat, List.all_map]
      rfl
  | @alternative choices filled wellFormed each =>
      have parts : choices.map bounds ≠ [] := by simpa using filled
      rw [consume, consumeFirst_nil each, bounds_alternative, LengthBounds.nullable_choice parts,
        List.any_map]
      rfl
  | @optional item inner matched =>
      rw [consume, matched]
      cases item.bounds.nullable <;> rfl
  | @repetition item times ordered ends inner matched =>
      rw [consume, greedy_nil matched ordered, bounds, LengthBounds.nullable_repeated]
  | @negation item inner matched => rfl

end Tree

namespace Matcher

theorem matchAt_length (matcher : Matcher) (tokens : List Token) :
    matcher.matchAt tokens tokens.length =
      if matcher.pattern.bounds.nullable then some ⟨tokens.length, 0⟩ else none := by
  have ended : matcher.consume (tokens.drop tokens.length) =
      emptyMatch matcher.pattern.bounds.nullable := by
    rw [consume, List.drop_length, Tree.consume_nil _ matcher.pattern.wellFormed,
      matcher.pattern.bounds_eq]
  rw [matchAt, if_pos (Nat.le_refl _), ended, emptyMatch]
  split <;> rfl

end Matcher

namespace Pattern

theorem above_ne_zeroWidthRepetition (parts : List Pattern) (tree : Tree) (bounds : LengthBounds)
    (wellFormed : tree.WellFormed) (children : tree.children = parts.map Pattern.tree)
    (bounds_eq : bounds = tree.bounds) :
    above parts tree bounds wellFormed children bounds_eq ≠ .error .zeroWidthRepetition := by
  rw [above]
  split <;> simp

theorem repetition_eq_zeroWidth_iff {item : Pattern} {min : Nat} :
    item.repetition min none = .error .zeroWidthRepetition ↔ item.bounds.nullable = true := by
  rw [LengthBounds.nullable_iff, repetition]
  split
  · rename_i nothing
    exact iff_of_true rfl nothing
  · rename_i something
    exact iff_of_false (above_ne_zeroWidthRepetition _ _ _ _ _ _) something

end Pattern

/-- At the end of the tokens a pattern matches, without taking any, if its least length is zero, and
does not match otherwise. So exactly the patterns that match where there is no token cannot be
repeated without an upper limit. -/
theorem Pattern.nullable_matches_end (pattern : Pattern) :
    (∀ options tokens, Matcher.matchAt ⟨pattern, options⟩ tokens tokens.length =
      if pattern.bounds.nullable then some ⟨tokens.length, 0⟩ else none) ∧
      ∀ options min, pattern.repetition min none = .error .zeroWidthRepetition ↔
        Matcher.matchAt ⟨pattern, options⟩ [] 0 = some ⟨0, 0⟩ := by
  constructor
  · intro options tokens
    exact Matcher.matchAt_length ⟨pattern, options⟩ tokens
  · intro options min
    have ended := Matcher.matchAt_length ⟨pattern, options⟩ []
    rw [List.length_nil] at ended
    rw [repetition_eq_zeroWidth_iff, ended]
    cases pattern.bounds.nullable <;> simp

end TokenPattern
