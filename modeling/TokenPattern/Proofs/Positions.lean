import TokenPattern.Match

namespace TokenPattern

/-- Repeats `step` from `position` on, after `count` repetitions have taken `consumed` tokens. No
token lies at `stop` or behind it. -/
def walkRepeat (step : Nat → Option Nat) (times : RepeatBounds)
    (stop position count consumed : Nat) : Option Nat :=
  if times.allowsMore count then
    match step (position + consumed) with
    | none => (times.enough count).map (consumed + ·)
    | some 0 => some consumed
    | some (more + 1) =>
        if position + consumed < stop then
          walkRepeat step times stop position (count + 1) (consumed + (more + 1))
        else
          (times.enough count).map (consumed + ·)
  else
    (times.enough count).map (consumed + ·)
termination_by stop - (position + consumed)

namespace Tree

mutual

/-- How many tokens the tree takes at a position, `none` if it does not match there. -/
def walk (ignoreCase : Bool) (tokens : List Token) : Tree → Nat → Option Nat
  | .token spec, position => do
      let token ← tokens[position]?
      if spec.accepts ignoreCase token then some 1 else none
  | .any, position => do
      let _ ← tokens[position]?
      return 1
  | .sequence items, position => walkAll ignoreCase tokens items position 0
  | .alternative choices, position => walkFirst ignoreCase tokens choices position
  | .optional item, position => some ((walk ignoreCase tokens item position).getD 0)
  | .repetition item times, position =>
      walkRepeat (walk ignoreCase tokens item) times tokens.length position 0 0
  | .negation item, position => do
      let _ ← tokens[position]?
      if (walk ignoreCase tokens item position).isNone then some 1 else none

def walkAll (ignoreCase : Bool) (tokens : List Token) : List Tree → Nat → Nat → Option Nat
  | [], _, consumed => some consumed
  | item :: items, position, consumed => do
      let taken ← walk ignoreCase tokens item (position + consumed)
      walkAll ignoreCase tokens items position (consumed + taken)

def walkFirst (ignoreCase : Bool) (tokens : List Token) : List Tree → Nat → Option Nat
  | [], _ => none
  | item :: items, position =>
      match walk ignoreCase tokens item position with
      | some taken => some taken
      | none => walkFirst ignoreCase tokens items position

end

end Tree

def Matcher.walkAt (matcher : Matcher) (tokens : List Token) (offset : Nat) : Option Span :=
  if offset ≤ tokens.length then
    (matcher.pattern.tree.walk matcher.options.ignoreCase tokens offset).map (⟨offset, ·⟩)
  else
    none

variable {tokens : List Token}

/-- The loop of a walk is a greedy repetition on the tokens ahead. Its step may be known at the
positions up to the end only, since it never leads behind it. -/
theorem walkRepeat_eq {step : Nat → Option Nat} {next : List Token → Option Nat}
    (within : ∀ ahead taken, next ahead = some taken → taken ≤ ahead.length)
    (agree : ∀ position ≤ tokens.length, step position = next (tokens.drop position))
    (times : RepeatBounds) (position count consumed : Nat)
    (inside : position + consumed ≤ tokens.length) :
    walkRepeat step times tokens.length position count consumed =
      (greedy next times count (tokens.drop (position + consumed))).map (consumed + ·) := by
  fun_induction walkRepeat step times tokens.length position count consumed with
  | case1 count consumed allowed failed =>
      rw [agree _ inside] at failed
      rw [greedy, if_pos allowed, failed]
  | case2 count consumed allowed matched =>
      rw [agree _ inside] at matched
      rw [greedy, if_pos allowed, matched]
      rfl
  | case3 count consumed allowed more matched before later =>
      rw [agree _ inside] at matched
      have bound := within _ _ matched
      rw [List.length_drop] at bound
      cases ahead : tokens.drop (position + consumed) with
      | nil =>
          have ended := List.drop_eq_nil_iff.mp ahead
          omega
      | cons token rest =>
          have tail : rest.drop more = tokens.drop (position + (consumed + (more + 1))) := by
            have behind := congrArg (List.drop (more + 1)) ahead
            rw [List.drop_drop, List.drop_succ_cons] at behind
            rw [← behind, Nat.add_assoc]
          rw [ahead] at matched
          calc
            _ = (greedy next times (count + 1) (rest.drop more)).map
                (consumed + (more + 1) + ·) := by rw [tail, later (by omega)]
            _ = ((greedy next times (count + 1) (rest.drop more)).map (more + 1 + ·)).map
                (consumed + ·) := by simp only [Option.map_map, Function.comp_def, Nat.add_assoc]
            _ = (greedy next times count (token :: rest)).map (consumed + ·) := by
              rw [greedy.eq_def next times count, if_pos allowed, matched]
  | case4 count consumed allowed more matched ended =>
      rw [agree _ inside] at matched
      have bound := within _ _ matched
      rw [List.length_drop] at bound
      omega
  | case5 count consumed full => rw [greedy, if_neg full]

namespace Tree

variable {ignoreCase : Bool}

theorem walkAll_eq {items : List Tree}
    (each : ∀ item ∈ items, ∀ position ≤ tokens.length,
      item.walk ignoreCase tokens position = item.consume ignoreCase (tokens.drop position))
    (position consumed : Nat) (inside : position + consumed ≤ tokens.length) :
    walkAll ignoreCase tokens items position consumed =
      (consumeAll ignoreCase items (tokens.drop (position + consumed))).map (consumed + ·) := by
  induction items generalizing consumed with
  | nil => rfl
  | cons item items rest =>
      have tail := rest fun item member => each item (List.mem_cons_of_mem _ member)
      rw [walkAll, consumeAll, each item List.mem_cons_self _ inside]
      cases matched : item.consume ignoreCase (tokens.drop (position + consumed)) with
      | none => rfl
      | some taken =>
          have bound := consume_le _ _ _ _ matched
          rw [List.length_drop] at bound
          simp only [Option.bind_eq_bind, Option.bind_some]
          rw [tail _ (by omega), List.drop_drop, Nat.add_assoc]
          cases consumeAll ignoreCase items (tokens.drop (position + (consumed + taken))) with
          | none => rfl
          | some more => simp [Nat.add_assoc]

theorem walkFirst_eq {choices : List Tree} {position : Nat}
    (each : ∀ choice ∈ choices,
      choice.walk ignoreCase tokens position = choice.consume ignoreCase (tokens.drop position)) :
    walkFirst ignoreCase tokens choices position =
      consumeFirst ignoreCase choices (tokens.drop position) := by
  induction choices with
  | nil => rfl
  | cons choice choices rest =>
      have tail := rest fun choice member => each choice (List.mem_cons_of_mem _ member)
      have head := each choice List.mem_cons_self
      cases taken : choice.consume ignoreCase (tokens.drop position) <;>
        simp [walkFirst, consumeFirst, head, taken, tail]

theorem walk_eq (tree : Tree) :
    ∀ position ≤ tokens.length,
      tree.walk ignoreCase tokens position = tree.consume ignoreCase (tokens.drop position) := by
  induction tree with
  | token spec =>
      intro position inside
      rw [walk, ← List.head?_drop]
      cases tokens.drop position <;> rfl
  | any =>
      intro position inside
      rw [walk, ← List.head?_drop]
      cases tokens.drop position <;> rfl
  | sequence items each =>
      intro position inside
      rw [walk, walkAll_eq each position 0 inside, consume]
      simp
  | alternative choices each =>
      intro position inside
      rw [walk, consume]
      exact walkFirst_eq fun choice member => each choice member position inside
  | optional item inner =>
      intro position inside
      rw [walk, consume, inner position inside]
  | repetition item times inner =>
      intro position inside
      rw [walk, consume, walkRepeat_eq (consume_le _ item) inner times position 0 0 inside]
      simp
  | negation item inner =>
      intro position inside
      rw [walk, ← List.head?_drop, inner position inside]
      cases tokens.drop position <;> rfl

end Tree

theorem Matcher.walkAt_eq (matcher : Matcher) (tokens : List Token) (offset : Nat) :
    matcher.walkAt tokens offset = matcher.matchAt tokens offset := by
  rw [walkAt, matchAt]
  split
  · rename_i inside
    rw [Tree.walk_eq _ _ inside, consume]
  · rfl

end TokenPattern
