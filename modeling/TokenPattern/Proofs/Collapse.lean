import TokenPattern.Match
import TokenPattern.Proofs.Tightness

namespace TokenPattern

theorem LengthBounds.exact_zero_append {bounds : LengthBounds} (low : bounds.min ≤ maxCount)
    (high : ∀ max, bounds.max = some max → max ≤ maxCount) :
    (exact 0).append bounds = bounds := by
  rcases bounds with ⟨min, max⟩
  have least : saturate (0 + min) = min := by
    rw [Nat.zero_add, saturate_of_le low]
  cases max with
  | none => simp only [append, exact, least]
  | some max =>
      have greatest : checked (0 + max) = some max := by
        rw [checked_eq_some, Nat.zero_add]
        exact ⟨rfl, high max rfl⟩
      simp only [append, exact, least, greatest]

namespace Tree

def joined (join : List Tree → Tree) : List Tree → Tree
  | [item] => item
  | items => join items

mutual

/-- The tree with the item in place of every sequence of one item and every alternative of one
choice. -/
def collapse : Tree → Tree
  | .token spec => .token spec
  | .any => .any
  | .sequence items => joined .sequence (collapseAll items)
  | .alternative choices => joined .alternative (collapseAll choices)
  | .optional item => .optional item.collapse
  | .repetition item times => .repetition item.collapse times
  | .negation item => .negation item.collapse

def collapseAll : List Tree → List Tree
  | [] => []
  | item :: items => item.collapse :: collapseAll items

end

@[simp] theorem collapseAll_eq (items : List Tree) : collapseAll items = items.map collapse := by
  induction items with
  | nil => rfl
  | cons item items each => simp [collapseAll, each]

@[simp] theorem collapse_sequence (items : List Tree) :
    (sequence items).collapse = joined .sequence (items.map collapse) := by
  simp [collapse]

@[simp] theorem collapse_alternative (choices : List Tree) :
    (alternative choices).collapse = joined .alternative (choices.map collapse) := by
  simp [collapse]

theorem exact_zero_append_bounds {tree : Tree} (wellFormed : tree.WellFormed) :
    (LengthBounds.exact 0).append tree.bounds = tree.bounds := by
  have tight := bounds_tight wellFormed
  apply LengthBounds.exact_zero_append
  · rcases tight.least with ⟨least, -, low⟩
    rw [low]
    exact saturate_le_maxCount least
  · exact fun max bounded => ((tight.greatest max).mp bounded).2

theorem bounds_joined_sequence {items : List Tree}
    (each : ∀ item ∈ items, (LengthBounds.exact 0).append item.bounds = item.bounds) :
    (joined .sequence items).bounds = (sequence items).bounds := by
  unfold joined
  split
  · rename_i item
    rw [bounds_sequence]
    exact (each item List.mem_cons_self).symm
  · rfl

theorem bounds_joined_alternative (choices : List Tree) :
    (joined .alternative choices).bounds = (alternative choices).bounds := by
  unfold joined
  split
  · rw [bounds_alternative]
    rfl
  · rfl

theorem map_bounds_collapse {items : List Tree}
    (each : ∀ item ∈ items, item.collapse.bounds = item.bounds) :
    (items.map collapse).map bounds = items.map bounds := by
  rw [List.map_map]
  exact List.map_congr_left each

theorem bounds_collapse {tree : Tree} (wellFormed : tree.WellFormed) :
    tree.collapse.bounds = tree.bounds := by
  induction wellFormed with
  | token spec => rfl
  | any => rfl
  | @sequence items filled wellFormed each =>
      have kept : ∀ item ∈ items.map collapse,
          (LengthBounds.exact 0).append item.bounds = item.bounds := by
        intro collapsed member
        rcases List.mem_map.mp member with ⟨item, inside, rfl⟩
        rw [each item inside]
        exact exact_zero_append_bounds (wellFormed item inside)
      rw [collapse_sequence, bounds_joined_sequence kept, bounds_sequence, bounds_sequence,
        map_bounds_collapse each]
  | @alternative choices filled wellFormed each =>
      rw [collapse_alternative, bounds_joined_alternative, bounds_alternative, bounds_alternative,
        map_bounds_collapse each]
  | optional inner same => rw [collapse, bounds, bounds, same]
  | repetition ordered ends inner same => rw [collapse, bounds, bounds, same]
  | negation inner same => rfl

variable {ignoreCase : Bool}

theorem consume_joined_sequence (items : List Tree) (ahead : List Token) :
    (joined .sequence items).consume ignoreCase ahead =
      (sequence items).consume ignoreCase ahead := by
  unfold joined
  split
  · rename_i item
    rw [consume, consumeAll_singleton]
  · rfl

theorem consume_joined_alternative (choices : List Tree) (ahead : List Token) :
    (joined .alternative choices).consume ignoreCase ahead =
      (alternative choices).consume ignoreCase ahead := by
  unfold joined
  split
  · rename_i choice
    cases taken : choice.consume ignoreCase ahead <;> simp [consume, consumeFirst, taken]
  · rfl

theorem consume_collapse (ignoreCase : Bool) (tree : Tree) (ahead : List Token) :
    tree.collapse.consume ignoreCase ahead = tree.consume ignoreCase ahead := by
  induction tree generalizing ahead with
  | token spec => rfl
  | any => rfl
  | sequence items each =>
      rw [collapse_sequence, consume_joined_sequence, consume, consume]
      exact consumeAll_map (fun _ _ => rfl) each ahead
  | alternative choices each =>
      rw [collapse_alternative, consume_joined_alternative, consume, consume]
      exact consumeFirst_map fun choice member => each choice member ahead
  | optional item inner => rw [collapse, consume, consume, inner]
  | repetition item times inner =>
      have step : item.collapse.consume ignoreCase = item.consume ignoreCase := funext inner
      rw [collapse, consume, consume, step]
  | negation item inner =>
      cases ahead with
      | nil => rfl
      | cons token ahead => rw [collapse, consume, consume, inner]

end Tree

end TokenPattern
