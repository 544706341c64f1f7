import TokenPattern.Tree

namespace TokenPattern.Tree

def children : Tree → List Tree
  | .token _ => []
  | .any => []
  | .sequence items => items
  | .alternative choices => choices
  | .optional item => [item]
  | .repetition item _ => [item]
  | .negation item => [item]

/-- The trees that take exactly one token whenever they match. -/
def isLeaf : Tree → Bool
  | .token _ => true
  | .any => true
  | .negation _ => true
  | _ => false

mutual

def height : Tree → Nat
  | .token _ => 1
  | .any => 1
  | .sequence items => 1 + heightOfAll items
  | .alternative choices => 1 + heightOfAll choices
  | .optional item => 1 + item.height
  | .repetition item _ => 1 + item.height
  | .negation item => 1 + item.height

def heightOfAll : List Tree → Nat
  | [] => 0
  | item :: items => max item.height (heightOfAll items)

end

mutual

/-- The nodes of a tree whose root lies at `level`, each with its level, every node before its
parts. -/
def nodes (level : Nat) : Tree → List (Nat × Tree)
  | .token spec => [(level, .token spec)]
  | .any => [(level, .any)]
  | .sequence items => (level, .sequence items) :: nodesOfAll (level + 1) items
  | .alternative choices => (level, .alternative choices) :: nodesOfAll (level + 1) choices
  | .optional item => (level, .optional item) :: nodes (level + 1) item
  | .repetition item times => (level, .repetition item times) :: nodes (level + 1) item
  | .negation item => (level, .negation item) :: nodes (level + 1) item

def nodesOfAll (level : Nat) : List Tree → List (Nat × Tree)
  | [] => []
  | item :: items => nodes level item ++ nodesOfAll level items

end

@[simp] theorem heightOfAll_eq (items : List Tree) :
    heightOfAll items = (items.map height).foldr max 0 := by
  induction items with
  | nil => rfl
  | cons item items each => simp [heightOfAll, each]

theorem height_eq (tree : Tree) : tree.height = 1 + heightOfAll tree.children := by
  cases tree <;> simp [height, children]

@[simp] theorem nodesOfAll_eq (level : Nat) (items : List Tree) :
    nodesOfAll level items = items.flatMap (nodes level) := by
  induction items with
  | nil => rfl
  | cons item items each => simp [nodesOfAll, each]

theorem nodes_eq (level : Nat) (tree : Tree) :
    nodes level tree = (level, tree) :: tree.children.flatMap (nodes (level + 1)) := by
  cases tree <;> simp [nodes, children]

end TokenPattern.Tree
