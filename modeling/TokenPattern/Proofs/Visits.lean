import TokenPattern.Proofs.Positions

/-!
A walk in machine words gives up where a sum of positions and counts does not fit into one. What it
does is written down on its way: a visit of a tree holds the visits that are made for it.
-/

namespace TokenPattern

def wordSum (first second : Nat) : Option Nat := checked (first + second)

/-- A visit of a tree at a position: the visits of its parts, in the order in which they are made,
and how many tokens it takes in the end. -/
structure Visit where
  tree : Tree
  position : Nat
  parts : List Visit
  taken : Option Nat

structure Course where
  parts : List Visit
  taken : Option Nat

def Course.after (course : Course) (visit : Visit) : Course :=
  { course with parts := visit :: course.parts }

/-- Repeats `step` from `position` on, after `count` repetitions have taken `consumed` tokens. -/
def visitRepeat (step : Nat → Option Visit) (times : RepeatBounds)
    (position count consumed : Nat) : Option Course :=
  if times.allowsMore count then do
    let place ← wordSum position consumed
    let part ← step place
    match part.taken with
    | none => some ⟨[part], if times.min ≤ count then some consumed else none⟩
    | some 0 => some ⟨[part], some consumed⟩
    | some (more + 1) =>
        let counted ← wordSum count 1
        match _fits : wordSum consumed (more + 1) with
        | none => none
        | some further => do
            let course ← visitRepeat step times position counted further
            return course.after part
  else
    some ⟨[], if times.min ≤ count then some consumed else none⟩
termination_by maxCount - consumed
decreasing_by
  -- a sum that fits ends the loop in time, whatever the steps claim to take
  have sum := checked_eq_some.mp _fits
  omega

namespace Tree

mutual

/-- Visits the tree at a position, `none` if a sum does not fit into a word on the way. -/
def visit (ignoreCase : Bool) (tokens : List Token) : Tree → Nat → Option Visit
  | .token spec, position => some ⟨.token spec, position, [], do
      let token ← tokens[position]?
      if spec.accepts ignoreCase token then some 1 else none⟩
  | .any, position => some ⟨.any, position, [], do
      let _ ← tokens[position]?
      return 1⟩
  | .sequence items, position => do
      let course ← visitAll ignoreCase tokens items position 0
      return ⟨.sequence items, position, course.parts, course.taken⟩
  | .alternative choices, position => do
      let course ← visitFirst ignoreCase tokens choices position
      return ⟨.alternative choices, position, course.parts, course.taken⟩
  | .optional item, position => do
      let part ← visit ignoreCase tokens item position
      return ⟨.optional item, position, [part], some (part.taken.getD 0)⟩
  | .repetition item times, position => do
      let course ← visitRepeat (visit ignoreCase tokens item) times position 0 0
      return ⟨.repetition item times, position, course.parts, course.taken⟩
  | .negation item, position =>
      match tokens[position]? with
      | none => some ⟨.negation item, position, [], none⟩
      | some _ => do
          let part ← visit ignoreCase tokens item position
          return ⟨.negation item, position, [part], if part.taken.isNone then some 1 else none⟩

def visitAll (ignoreCase : Bool) (tokens : List Token) : List Tree → Nat → Nat → Option Course
  | [], _, consumed => some ⟨[], some consumed⟩
  | item :: items, position, consumed => do
      let place ← wordSum position consumed
      let part ← visit ignoreCase tokens item place
      match part.taken with
      | none => some ⟨[part], none⟩
      | some taken => do
          let further ← wordSum consumed taken
          let course ← visitAll ignoreCase tokens items position further
          return course.after part

def visitFirst (ignoreCase : Bool) (tokens : List Token) : List Tree → Nat → Option Course
  | [], _ => some ⟨[], none⟩
  | choice :: choices, position => do
      let part ← visit ignoreCase tokens choice position
      match part.taken with
      | some taken => some ⟨[part], some taken⟩
      | none => do
          let course ← visitFirst ignoreCase tokens choices position
          return course.after part

end

end Tree

def Matcher.visitAt (matcher : Matcher) (tokens : List Token) (offset : Nat) :
    Option (List Visit × Option Span) :=
  if offset ≤ tokens.length then do
    let visit ← matcher.pattern.tree.visit matcher.options.ignoreCase tokens offset
    return ([visit], visit.taken.map (⟨offset, ·⟩))
  else
    some ([], none)

namespace Visit

/-- The property holds of the visit and of every visit made for it, however far down. -/
inductive Everywhere (property : Visit → Prop) : Visit → Prop
  | intro {visit : Visit} (here : property visit)
      (below : ∀ part ∈ visit.parts, Everywhere property part) : Everywhere property visit

/-- The visit lies between the two positions, and if a repetition is visited, its item is asked for
at most once more than there are tokens left. -/
structure Bounded (first stop : Nat) (visit : Visit) : Prop where
  after : first ≤ visit.position
  inside : visit.position ≤ stop
  attempts : ∀ item times, visit.tree = .repetition item times →
    visit.parts.length ≤ stop - visit.position + 1

end Visit

def Visit.Settled (first stop : Nat) (visit : Option Visit) (taken : Option Nat) : Prop :=
  ∃ made, visit = some made ∧ made.taken = taken ∧ made.Everywhere (Visit.Bounded first stop)

def Course.Settled (first stop most : Nat) (course : Option Course) (taken : Option Nat) : Prop :=
  ∃ made, course = some made ∧ made.taken = taken ∧ made.parts.length ≤ most ∧
    ∀ part ∈ made.parts, part.Everywhere (Visit.Bounded first stop)

theorem wordSum_eq {first second : Nat} (fits : first + second ≤ maxCount) :
    wordSum first second = some (first + second) :=
  checked_eq_some.mpr ⟨rfl, fits⟩

variable {first stop : Nat}

namespace Course.Settled

variable {most : Nat} {loop : Option Course} {taken : Option Nat} {part : Visit}

theorem done : Course.Settled first stop most (some ⟨[], taken⟩) taken :=
  ⟨_, rfl, rfl, Nat.zero_le most, by simp⟩

theorem last (bounded : part.Everywhere (Visit.Bounded first stop)) :
    Course.Settled first stop (most + 1) (some ⟨[part], taken⟩) taken :=
  ⟨_, rfl, rfl, Nat.le_add_left 1 most, by simpa using bounded⟩

theorem after {fewer : Nat} (settled : Course.Settled first stop fewer loop taken)
    (room : fewer < most) (bounded : part.Everywhere (Visit.Bounded first stop)) :
    Course.Settled first stop most (do let course ← loop; return course.after part) taken := by
  rcases settled with ⟨course, rfl, rfl, length, below⟩
  refine ⟨course.after part, rfl, rfl, Nat.lt_of_le_of_lt length room, ?_⟩
  simpa [Course.after] using ⟨bounded, below⟩

theorem visit (settled : Course.Settled first stop most loop taken) {tree : Tree} {position : Nat}
    (after : first ≤ position) (inside : position ≤ stop)
    (attempts : ∀ item times, tree = .repetition item times → most ≤ stop - position + 1) :
    Visit.Settled first stop
      (do let course ← loop; return ⟨tree, position, course.parts, course.taken⟩) taken := by
  rcases settled with ⟨course, rfl, rfl, length, below⟩
  have here : Visit.Bounded first stop ⟨tree, position, course.parts, course.taken⟩ :=
    ⟨after, inside, fun item times same => Nat.le_trans length (attempts item times same)⟩
  exact ⟨_, rfl, rfl, .intro here below⟩

end Course.Settled

section Repeat

variable {step : Nat → Option Visit} {walk : Nat → Option Nat}

/-- A repetition in words takes what a walk takes, and it moves on by a token at least with every
attempt but the last one. The count never exceeds the number of tokens taken, so it fits as well. -/
theorem visitRepeat_settled (short : stop < maxCount)
    (each : ∀ position, first ≤ position → position ≤ stop →
      Visit.Settled first stop (step position) (walk position))
    (within : ∀ position taken, position ≤ stop → walk position = some taken →
      position + taken ≤ stop)
    (times : RepeatBounds) (position count consumed : Nat) (after : first ≤ position)
    (inside : position + consumed ≤ stop) (fewer : count ≤ consumed) :
    Course.Settled first stop (stop - (position + consumed) + 1)
      (visitRepeat step times position count consumed)
      (walkRepeat walk times stop position count consumed) := by
  fun_induction walkRepeat walk times stop position count consumed with
  | case1 count consumed allowed failed =>
      rcases each (position + consumed) (by omega) inside with ⟨part, visited, taken, bounded⟩
      rw [failed] at taken
      rw [visitRepeat, if_pos allowed, wordSum_eq (by omega)]
      simp only [Option.bind_eq_bind, Option.bind_some, visited, taken, RepeatBounds.enough,
        Option.map_if, Nat.add_zero]
      exact .last bounded
  | case2 count consumed allowed matched =>
      rcases each (position + consumed) (by omega) inside with ⟨part, visited, taken, bounded⟩
      rw [matched] at taken
      rw [visitRepeat, if_pos allowed, wordSum_eq (by omega)]
      simp only [Option.bind_eq_bind, Option.bind_some, visited, taken]
      exact .last bounded
  | case3 count consumed allowed more matched before later =>
      rcases each (position + consumed) (by omega) inside with ⟨part, visited, taken, bounded⟩
      rw [matched] at taken
      have ahead := within _ _ inside matched
      have counted : wordSum count 1 = some (count + 1) := wordSum_eq (by omega)
      have further : wordSum consumed (more + 1) = some (consumed + (more + 1)) :=
        wordSum_eq (by omega)
      rw [visitRepeat, if_pos allowed, wordSum_eq (by omega)]
      simp only [Option.bind_eq_bind, Option.bind_some, visited, taken, counted]
      split
      · rename_i overflow
        rw [further] at overflow
        cases overflow
      · rename_i sum fits
        rw [further] at fits
        cases fits
        exact (later (by omega) (by omega)).after (by omega) bounded
  | case4 count consumed allowed more matched ended =>
      have ahead := within _ _ inside matched
      omega
  | case5 count consumed full =>
      rw [visitRepeat, if_neg full]
      simp only [RepeatBounds.enough, Option.map_if, Nat.add_zero]
      exact .done

end Repeat

namespace Tree

variable {ignoreCase : Bool} {tokens : List Token}

theorem walk_within (tree : Tree) {position taken : Nat} (inside : position ≤ tokens.length)
    (matched : tree.walk ignoreCase tokens position = some taken) :
    position + taken ≤ tokens.length := by
  rw [walk_eq tree position inside] at matched
  have bound := consume_le _ _ _ _ matched
  rw [List.length_drop] at bound
  omega

theorem visitAll_settled (short : tokens.length < maxCount) {items : List Tree}
    (each : ∀ item ∈ items, ∀ position, first ≤ position → position ≤ tokens.length →
      Visit.Settled first tokens.length (item.visit ignoreCase tokens position)
        (item.walk ignoreCase tokens position))
    (position consumed : Nat) (after : first ≤ position)
    (inside : position + consumed ≤ tokens.length) :
    Course.Settled first tokens.length items.length
      (visitAll ignoreCase tokens items position consumed)
      (walkAll ignoreCase tokens items position consumed) := by
  induction items generalizing consumed with
  | nil => exact .done
  | cons item items rest =>
      have head := each item List.mem_cons_self (position + consumed) (by omega) inside
      have tail := rest fun item member => each item (List.mem_cons_of_mem _ member)
      rcases head with ⟨part, visited, taken, bounded⟩
      rw [visitAll, walkAll, wordSum_eq (by omega), ← taken]
      simp only [Option.bind_eq_bind, Option.bind_some, visited]
      cases matched : part.taken with
      | none => exact .last bounded
      | some more =>
          rw [matched] at taken
          have ahead := walk_within item inside taken.symm
          simp only [Option.bind_some, wordSum_eq (show consumed + more ≤ maxCount by omega)]
          exact (tail (consumed + more) (by omega)).after (Nat.lt_succ_self _) bounded

theorem visitFirst_settled {choices : List Tree} {position : Nat}
    (each : ∀ choice ∈ choices,
      Visit.Settled first stop (choice.visit ignoreCase tokens position)
        (choice.walk ignoreCase tokens position)) :
    Course.Settled first stop choices.length (visitFirst ignoreCase tokens choices position)
      (walkFirst ignoreCase tokens choices position) := by
  induction choices with
  | nil => exact .done
  | cons choice choices rest =>
      have tail := rest fun choice member => each choice (List.mem_cons_of_mem _ member)
      rcases each choice List.mem_cons_self with ⟨part, visited, taken, bounded⟩
      rw [visitFirst, walkFirst, ← taken]
      simp only [Option.bind_eq_bind, Option.bind_some, visited]
      cases part.taken with
      | none => exact tail.after (Nat.lt_succ_self _) bounded
      | some more => exact .last bounded

/-- A visit in words takes what a walk takes, and all visits made for it keep to the tokens from
`first` on. -/
theorem visit_settled (short : tokens.length < maxCount) (first : Nat) (tree : Tree) :
    ∀ position, first ≤ position → position ≤ tokens.length →
      Visit.Settled first tokens.length (tree.visit ignoreCase tokens position)
        (tree.walk ignoreCase tokens position) := by
  induction tree with
  | token spec =>
      intro position after inside
      exact ⟨_, rfl, rfl, .intro ⟨after, inside, by simp⟩ (by simp)⟩
  | any =>
      intro position after inside
      exact ⟨_, rfl, rfl, .intro ⟨after, inside, by simp⟩ (by simp)⟩
  | sequence items each =>
      intro position after inside
      rw [visit, walk]
      exact (visitAll_settled short each position 0 after inside).visit after inside (by simp)
  | alternative choices each =>
      intro position after inside
      have choice_settled := fun choice member => each choice member position after inside
      rw [visit, walk]
      exact (visitFirst_settled choice_settled).visit after inside (by simp)
  | optional item inner =>
      intro position after inside
      rcases inner position after inside with ⟨part, visited, taken, bounded⟩
      refine ⟨⟨.optional item, position, [part], some (part.taken.getD 0)⟩, ?_, ?_, ?_⟩
      · simp [visit, visited]
      · rw [walk, ← taken]
      · exact .intro ⟨after, inside, by simp⟩ (by simpa using bounded)
  | repetition item times inner =>
      intro position after inside
      have loop := visitRepeat_settled short inner (fun position taken => walk_within item) times
        position 0 0 after inside (Nat.le_refl 0)
      rw [visit, walk]
      exact loop.visit after inside fun _ _ _ => Nat.le_refl _
  | negation item inner =>
      intro position after inside
      rcases inner position after inside with ⟨part, visited, taken, bounded⟩
      rw [visit, walk]
      cases tokens[position]? with
      | none => exact ⟨_, rfl, rfl, .intro ⟨after, inside, by simp⟩ (by simp)⟩
      | some token =>
          refine ⟨⟨.negation item, position, [part], if part.taken.isNone then some 1 else none⟩,
            ?_, ?_, ?_⟩
          · simp [visited]
          · simp [taken]
          · exact .intro ⟨after, inside, by simp⟩ (by simpa using bounded)

end Tree

theorem Matcher.visitAt_settled (matcher : Matcher) {tokens : List Token}
    (short : tokens.length < maxCount) (offset : Nat) :
    ∃ visits, matcher.visitAt tokens offset = some (visits, matcher.matchAt tokens offset) ∧
      ∀ visit ∈ visits, visit.Everywhere (Visit.Bounded offset tokens.length) := by
  rw [← walkAt_eq, visitAt, walkAt]
  by_cases inside : offset ≤ tokens.length
  · have settled : Visit.Settled offset tokens.length
        (matcher.pattern.tree.visit matcher.options.ignoreCase tokens offset)
        (matcher.pattern.tree.walk matcher.options.ignoreCase tokens offset) :=
      Tree.visit_settled short offset _ offset (Nat.le_refl offset) inside
    rcases settled with ⟨visit, visited, taken, bounded⟩
    refine ⟨[visit], ?_, by simpa using bounded⟩
    simp [inside, visited, taken]
  · exact ⟨[], by simp [inside], by simp⟩

end TokenPattern
