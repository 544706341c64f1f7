import TokenPattern.LengthBounds
import TokenPattern.Token

namespace TokenPattern

inductive Tree where
  | token (spec : TokenSpec)
  | any
  | sequence (items : List Tree)
  /-- The first choice that matches. -/
  | alternative (choices : List Tree)
  | optional (item : Tree)
  | repetition (item : Tree) (times : RepeatBounds)
  /-- One token at which the item does not match. -/
  | negation (item : Tree)

namespace Tree

/-- Induction on a tree, with the hypothesis for every item of a list. -/
@[elab_as_elim, induction_eliminator]
theorem induction {motive : Tree → Prop}
    (token : ∀ spec, motive (.token spec))
    (any : motive .any)
    (sequence : ∀ items, (∀ item ∈ items, motive item) → motive (.sequence items))
    (alternative : ∀ choices, (∀ choice ∈ choices, motive choice) → motive (.alternative choices))
    (optional : ∀ item, motive item → motive (.optional item))
    (repetition : ∀ item times, motive item → motive (.repetition item times))
    (negation : ∀ item, motive item → motive (.negation item)) : ∀ tree, motive tree
  | .token spec => token spec
  | .any => any
  | .sequence items => sequence items fun item _ =>
      induction token any sequence alternative optional repetition negation item
  | .alternative choices => alternative choices fun choice _ =>
      induction token any sequence alternative optional repetition negation choice
  | .optional item => optional item
      (induction token any sequence alternative optional repetition negation item)
  | .repetition item times => repetition item times
      (induction token any sequence alternative optional repetition negation item)
  | .negation item => negation item
      (induction token any sequence alternative optional repetition negation item)

mutual

def same : Tree → Tree → Bool
  | .token first, .token second => first == second
  | .any, .any => true
  | .sequence first, .sequence second => sameAll first second
  | .alternative first, .alternative second => sameAll first second
  | .optional first, .optional second => first.same second
  | .repetition first times, .repetition second others => first.same second && times == others
  | .negation first, .negation second => first.same second
  | _, _ => false

def sameAll : List Tree → List Tree → Bool
  | [], [] => true
  | first :: firsts, second :: seconds => first.same second && sameAll firsts seconds
  | _, _ => false

end

theorem sameAll_iff {firsts : List Tree} (each : ∀ first ∈ firsts, ∀ second,
    first.same second = true ↔ first = second) (seconds : List Tree) :
    sameAll firsts seconds = true ↔ firsts = seconds := by
  induction firsts generalizing seconds with
  | nil => cases seconds <;> simp [sameAll]
  | cons first firsts rest =>
      cases seconds with
      | nil => simp [sameAll]
      | cons second seconds =>
          have tail := rest (fun item member => each item (List.mem_cons_of_mem _ member)) seconds
          simp [sameAll, each first List.mem_cons_self second, tail]

theorem same_iff (first second : Tree) : first.same second = true ↔ first = second := by
  induction first generalizing second with
  | sequence items each => cases second <;> simp [same, sameAll_iff each]
  | alternative choices each => cases second <;> simp [same, sameAll_iff each]
  | optional item matched => cases second <;> simp [same, matched]
  | repetition item times matched => cases second <;> simp [same, matched]
  | negation item matched => cases second <;> simp [same, matched]
  | _ => cases second <;> simp [same]

instance : DecidableEq Tree := fun first second =>
  decidable_of_iff _ (same_iff first second)

end Tree
end TokenPattern
