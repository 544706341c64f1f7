import TokenPattern.Tree

namespace TokenPattern.Tree

mutual

def bounds : Tree → LengthBounds
  | .token _ => .one
  | .any => .one
  | .sequence items => .concat (boundsOfAll items)
  | .alternative choices => .choice (boundsOfAll choices)
  | .optional item => item.bounds.orNothing
  | .repetition item times => item.bounds.repeated times
  | .negation _ => .one

def boundsOfAll : List Tree → List LengthBounds
  | [] => []
  | item :: items => item.bounds :: boundsOfAll items

end

@[simp] theorem boundsOfAll_eq (items : List Tree) : boundsOfAll items = items.map bounds := by
  induction items with
  | nil => rfl
  | cons item items each => simp [boundsOfAll, each]

@[simp] theorem bounds_sequence (items : List Tree) :
    (sequence items).bounds = .concat (items.map bounds) := by
  simp [bounds]

@[simp] theorem bounds_alternative (choices : List Tree) :
    (alternative choices).bounds = .choice (choices.map bounds) := by
  simp [bounds]

/-- The trees fit for matching: no list is empty, no repetition has its bounds the wrong way round,
and one without an upper limit has an item that takes at least one token. -/
inductive WellFormed : Tree → Prop
  | token (spec : TokenSpec) : WellFormed (.token spec)
  | any : WellFormed .any
  | sequence {items : List Tree} (filled : items ≠ [])
      (each : ∀ item ∈ items, WellFormed item) : WellFormed (.sequence items)
  | alternative {choices : List Tree} (filled : choices ≠ [])
      (each : ∀ choice ∈ choices, WellFormed choice) : WellFormed (.alternative choices)
  | optional {item : Tree} (inner : WellFormed item) : WellFormed (.optional item)
  | repetition {item : Tree} {times : RepeatBounds}
      (ordered : ∀ max, times.max = some max → times.min ≤ max)
      (ends : times.max = none → item.bounds.min ≠ 0)
      (inner : WellFormed item) : WellFormed (.repetition item times)
  | negation {item : Tree} (inner : WellFormed item) : WellFormed (.negation item)

end TokenPattern.Tree
