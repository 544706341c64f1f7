import TokenPattern.Pattern

/-!
Choices are committed to: an alternative takes its first choice that matches, an optional its item
if that matches, a repetition as many items as it can, and none of them is tried again when
something later fails.

A repetition stops at an item that takes nothing, and then succeeds whatever its count: the same
empty item could be repeated until enough of them were counted.
-/

namespace TokenPattern

structure MatchOptions where
  ignoreCase : Bool := false
  reportEmpty : Bool := false
  deriving DecidableEq, Repr

structure Span where
  start : Nat
  consumed : Nat
  deriving DecidableEq, Repr

namespace Span

def stop (span : Span) : Nat := span.start + span.consumed

def isEmpty (span : Span) : Bool := span.consumed == 0

/-- No tokens at all unless the whole span lies within `tokens`. -/
def slice {α : Type} (span : Span) (tokens : List α) : List α :=
  if span.stop ≤ tokens.length then (tokens.drop span.start).take span.consumed else []

theorem length_slice {α : Type} {span : Span} {tokens : List α}
    (inside : span.stop ≤ tokens.length) : (span.slice tokens).length = span.consumed := by
  simp only [stop] at inside
  simp only [slice, stop, inside, ↓reduceIte, List.length_take, List.length_drop]
  omega

end Span

/-- What `count` repetitions and no further one come to: no more tokens, if they are enough. -/
def RepeatBounds.enough (times : RepeatBounds) (count : Nat) : Option Nat :=
  if times.min ≤ count then some 0 else none

@[simp] theorem RepeatBounds.enough_eq_some_iff {times : RepeatBounds} {count taken : Nat} :
    times.enough count = some taken ↔ times.min ≤ count ∧ taken = 0 := by
  simp [enough, eq_comm]

/-- Repeats `step` on the tokens ahead, after `count` repetitions have been made. A step is meant to
take no more than lies ahead; one that claims tokens where none are left counts as failed. -/
def greedy (step : List Token → Option Nat) (times : RepeatBounds) (count : Nat)
    (ahead : List Token) : Option Nat :=
  if times.allowsMore count then
    match step ahead with
    | none => times.enough count
    | some 0 => some 0
    | some (more + 1) =>
        match ahead with
        | [] => times.enough count
        | _ :: rest => (greedy step times (count + 1) (rest.drop more)).map (more + 1 + ·)
  else
    times.enough count
termination_by ahead.length

namespace Tree

mutual

/-- How many of the tokens ahead the tree takes, `none` if it does not match. -/
def consume (ignoreCase : Bool) : Tree → List Token → Option Nat
  | .token _, [] => none
  | .token spec, first :: _ => if spec.accepts ignoreCase first then some 1 else none
  | .any, [] => none
  | .any, _ :: _ => some 1
  | .sequence items, ahead => consumeAll ignoreCase items ahead
  | .alternative choices, ahead => consumeFirst ignoreCase choices ahead
  | .optional item, ahead => some ((consume ignoreCase item ahead).getD 0)
  | .repetition item times, ahead => greedy (consume ignoreCase item) times 0 ahead
  | .negation _, [] => none
  | .negation item, first :: rest =>
      if (consume ignoreCase item (first :: rest)).isNone then some 1 else none

def consumeAll (ignoreCase : Bool) : List Tree → List Token → Option Nat
  | [], _ => some 0
  | item :: items, ahead => do
      let taken ← consume ignoreCase item ahead
      let more ← consumeAll ignoreCase items (ahead.drop taken)
      return taken + more

def consumeFirst (ignoreCase : Bool) : List Tree → List Token → Option Nat
  | [], _ => none
  | item :: items, ahead =>
      match consume ignoreCase item ahead with
      | some taken => some taken
      | none => consumeFirst ignoreCase items ahead

end

@[simp] theorem consumeFirst_eq (ignoreCase : Bool) (choices : List Tree) (ahead : List Token) :
    consumeFirst ignoreCase choices ahead =
      choices.findSome? fun choice => choice.consume ignoreCase ahead := by
  induction choices with
  | nil => simp [consumeFirst]
  | cons choice choices rest =>
      cases taken : choice.consume ignoreCase ahead <;> simp [consumeFirst, taken, rest]

end Tree

structure Matcher where
  pattern : Pattern
  options : MatchOptions := {}

namespace Matcher

/-- How many of the tokens ahead the pattern takes. -/
def consume (matcher : Matcher) (ahead : List Token) : Option Nat :=
  matcher.pattern.tree.consume matcher.options.ignoreCase ahead

def matchAt (matcher : Matcher) (tokens : List Token) (offset : Nat) : Option Span :=
  if offset ≤ tokens.length then
    (matcher.consume (tokens.drop offset)).map (⟨offset, ·⟩)
  else
    none

theorem matchAt_eq_some_iff {matcher : Matcher} {tokens : List Token} {offset : Nat}
    {span : Span} :
    matcher.matchAt tokens offset = some span ↔
      span.start = offset ∧ offset ≤ tokens.length ∧
        matcher.consume (tokens.drop offset) = some span.consumed := by
  by_cases inside : offset ≤ tokens.length
  · simp only [matchAt, inside, if_true, Option.map_eq_some_iff, true_and]
    constructor
    · intro found
      rcases found with ⟨taken, matched, rfl⟩
      exact ⟨rfl, matched⟩
    · intro found
      rcases found with ⟨rfl, matched⟩
      exact ⟨span.consumed, matched, rfl⟩
  · simp [matchAt, inside]

end Matcher

def Pattern.matchAt (pattern : Pattern) (tokens : List Token) (offset : Nat) : Option Span :=
  Matcher.matchAt ⟨pattern, {}⟩ tokens offset

theorem greedy_le {step : List Token → Option Nat}
    (within : ∀ ahead taken, step ahead = some taken → taken ≤ ahead.length)
    (times : RepeatBounds) (count : Nat) (ahead : List Token) :
    ∀ taken, greedy step times count ahead = some taken → taken ≤ ahead.length := by
  fun_induction greedy step times count ahead with
  | case1 count ahead allowed failed =>
      intro taken settled
      simp [(RepeatBounds.enough_eq_some_iff.mp settled).2]
  | case2 count ahead allowed matched => simp
  | case3 count allowed more matched =>
      intro taken settled
      simp [(RepeatBounds.enough_eq_some_iff.mp settled).2]
  | case4 count allowed more token rest matched tail =>
      intro taken result
      rcases Option.map_eq_some_iff.mp result with ⟨later, found, rfl⟩
      have first := within _ _ matched
      have last := tail later found
      simp only [List.length_cons, List.length_drop] at first last ⊢
      omega
  | case5 count ahead full =>
      intro taken settled
      simp [(RepeatBounds.enough_eq_some_iff.mp settled).2]

namespace Tree

theorem consumeAll_cons_eq_some_iff {ignoreCase : Bool} {item : Tree} {items : List Tree}
    {ahead : List Token} {total : Nat} :
    consumeAll ignoreCase (item :: items) ahead = some total ↔
      ∃ taken, item.consume ignoreCase ahead = some taken ∧
        ∃ more, consumeAll ignoreCase items (ahead.drop taken) = some more ∧ taken + more = total := by
  simp only [consumeAll, Option.bind_eq_bind, Option.bind_eq_some_iff, Option.pure_def,
    Option.some.injEq]

theorem consumeAll_singleton (ignoreCase : Bool) (item : Tree) (ahead : List Token) :
    consumeAll ignoreCase [item] ahead = item.consume ignoreCase ahead := by
  cases taken : item.consume ignoreCase ahead <;> simp [consumeAll, taken]

theorem consumeAll_map {ignoreCase other : Bool} {f : Tree → Tree}
    {change : List Token → List Token}
    (drops : ∀ taken ahead, change (ahead.drop taken) = (change ahead).drop taken)
    {items : List Tree}
    (each : ∀ item ∈ items, ∀ ahead,
      (f item).consume other (change ahead) = item.consume ignoreCase ahead)
    (ahead : List Token) :
    consumeAll other (items.map f) (change ahead) = consumeAll ignoreCase items ahead := by
  induction items generalizing ahead with
  | nil => rfl
  | cons item items rest =>
      have head := each item List.mem_cons_self ahead
      have tail := rest fun item member => each item (List.mem_cons_of_mem _ member)
      simp only [List.map_cons, consumeAll, head, ← drops, tail]

theorem consumeFirst_map {ignoreCase other : Bool} {f : Tree → Tree} {ahead changed : List Token}
    {choices : List Tree}
    (each : ∀ choice ∈ choices, (f choice).consume other changed = choice.consume ignoreCase ahead) :
    consumeFirst other (choices.map f) changed = consumeFirst ignoreCase choices ahead := by
  induction choices with
  | nil => rfl
  | cons choice choices rest =>
      have head := each choice List.mem_cons_self
      have tail := rest fun choice member => each choice (List.mem_cons_of_mem _ member)
      simp only [List.map_cons, consumeFirst, head, tail]

theorem consumeAll_le {ignoreCase : Bool} {items : List Tree}
    (each : ∀ item ∈ items, ∀ ahead taken,
      item.consume ignoreCase ahead = some taken → taken ≤ ahead.length)
    (ahead : List Token) : ∀ taken,
      consumeAll ignoreCase items ahead = some taken → taken ≤ ahead.length := by
  induction items generalizing ahead with
  | nil => simp [consumeAll]
  | cons item items rest =>
      intro taken result
      rcases consumeAll_cons_eq_some_iff.mp result with ⟨first, matched, more, later, rfl⟩
      have front := each item List.mem_cons_self ahead first matched
      have back := rest (fun item member => each item (List.mem_cons_of_mem _ member)) _ more later
      simp only [List.length_drop] at back
      omega

theorem consume_le (ignoreCase : Bool) (tree : Tree) (ahead : List Token) :
    ∀ taken, tree.consume ignoreCase ahead = some taken → taken ≤ ahead.length := by
  induction tree generalizing ahead with
  | token spec => cases ahead <;> simp [consume]
  | any => cases ahead <;> simp [consume]
  | sequence items each => simpa only [consume] using consumeAll_le each ahead
  | alternative choices each =>
      intro taken result
      rw [consume, consumeFirst_eq] at result
      rcases List.exists_of_findSome?_eq_some result with ⟨choice, member, matched⟩
      exact each choice member ahead taken matched
  | optional item inner =>
      intro taken result
      cases matched : item.consume ignoreCase ahead with
      | none =>
          have nothing : 0 = taken := by simpa [consume, matched] using result
          omega
      | some first =>
          have bound := inner ahead first matched
          have same : first = taken := by simpa [consume, matched] using result
          omega
  | repetition item times inner =>
      simpa only [consume] using greedy_le inner times 0 ahead
  | negation item inner => cases ahead <;> simp [consume]

end Tree

end TokenPattern
