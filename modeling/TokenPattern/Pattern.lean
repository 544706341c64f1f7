import TokenPattern.Tree.Bounds
import TokenPattern.Tree.Shape

/-!
Patterns are built from smaller patterns. Each step checks the new node only, since depth and length
bounds are kept with every pattern.
-/

namespace TokenPattern

def maxDepth : Nat := 500

inductive BuildError where
  | emptySequence
  | emptyAlternative
  | repetitionBounds (min max : Nat)
  | zeroWidthRepetition
  | tooDeep (depth : Nat)
  deriving DecidableEq, Repr

def BuildError.message : BuildError → String
  | .emptySequence => "sequence requires at least one item"
  | .emptyAlternative => "alternative requires at least one choice"
  | .repetitionBounds min max => s!"invalid repetition bounds ({min} > {max})"
  | .zeroWidthRepetition => "unbounded repetition of an item that can match zero tokens"
  | .tooDeep depth => s!"predicate nesting too deep ({depth} > {maxDepth})"

/-- A tree that is well-formed and not too deep, with its depth and its length bounds. -/
structure Pattern where
  tree : Tree
  depth : Nat
  bounds : LengthBounds
  wellFormed : tree.WellFormed
  depth_eq : depth = tree.height
  bounds_eq : bounds = tree.bounds
  depth_le : depth ≤ maxDepth

namespace Pattern

theorem ext_tree {first second : Pattern} (trees : first.tree = second.tree) :
    first = second := by
  cases first
  cases second
  simp_all

instance : DecidableEq Pattern := fun first second =>
  decidable_of_iff (first.tree = second.tree) ⟨ext_tree, congrArg tree⟩

def depthAbove (parts : List Pattern) : Nat := 1 + (parts.map depth).foldr max 0

theorem depthAbove_eq (parts : List Pattern) :
    depthAbove parts = 1 + Tree.heightOfAll (parts.map tree) := by
  have each : parts.map depth = (parts.map tree).map Tree.height := by
    simp [depth_eq, Function.comp_def]
  simp [depthAbove, each]

/-- A tree whose parts are patterns already, if it is not too deep. -/
def above (parts : List Pattern) (tree : Tree) (bounds : LengthBounds)
    (wellFormed : tree.WellFormed) (children : tree.children = parts.map Pattern.tree)
    (bounds_eq : bounds = tree.bounds) : Except BuildError Pattern :=
  if depth_le : depthAbove parts ≤ maxDepth then
    .ok ⟨tree, depthAbove parts, bounds, wellFormed,
      by rw [depthAbove_eq, Tree.height_eq, children], bounds_eq, depth_le⟩
  else
    .error (.tooDeep (depthAbove parts))

def token (category value : String) : Pattern where
  tree := .token ⟨category, some value⟩
  depth := 1
  bounds := .one
  wellFormed := .token _
  depth_eq := rfl
  bounds_eq := rfl
  depth_le := by decide

def kind (category : String) : Pattern where
  tree := .token ⟨category, none⟩
  depth := 1
  bounds := .one
  wellFormed := .token _
  depth_eq := rfl
  bounds_eq := rfl
  depth_le := by decide

def keyword (value : String) : Pattern := token Category.keyword value

def any : Pattern where
  tree := .any
  depth := 1
  bounds := .one
  wellFormed := .any
  depth_eq := rfl
  bounds_eq := rfl
  depth_le := by decide

theorem boundsOfAll_tree (parts : List Pattern) :
    parts.map bounds = Tree.boundsOfAll (parts.map tree) := by
  simp [bounds_eq, Function.comp_def]

theorem wellFormed_each (parts : List Pattern) :
    ∀ part ∈ parts.map Pattern.tree, part.WellFormed := by
  intro part member
  rcases List.mem_map.mp member with ⟨pattern, _, rfl⟩
  exact pattern.wellFormed

def sequence (items : List Pattern) : Except BuildError Pattern :=
  if filled : items = [] then
    .error .emptySequence
  else
    above items (.sequence (items.map tree)) (.concat (items.map bounds))
      (.sequence (by simpa using filled) (wellFormed_each items)) rfl
      (by rw [boundsOfAll_tree, Tree.bounds])

def alternative (choices : List Pattern) : Except BuildError Pattern :=
  if filled : choices = [] then
    .error .emptyAlternative
  else
    above choices (.alternative (choices.map tree)) (.choice (choices.map bounds))
      (.alternative (by simpa using filled) (wellFormed_each choices)) rfl
      (by rw [boundsOfAll_tree, Tree.bounds])

def optional (item : Pattern) : Except BuildError Pattern :=
  above [item] (.optional item.tree) item.bounds.orNothing (.optional item.wellFormed) rfl
    (by rw [item.bounds_eq, Tree.bounds])

def repetition (item : Pattern) (min : Nat) (max : Option Nat) : Except BuildError Pattern :=
  match max with
  | none =>
      if ends : item.bounds.min = 0 then
        .error .zeroWidthRepetition
      else
        above [item] (.repetition item.tree ⟨min, none⟩) (item.bounds.repeated ⟨min, none⟩)
          (.repetition (by simp) (by simpa [← item.bounds_eq] using ends) item.wellFormed) rfl
          (by rw [item.bounds_eq, Tree.bounds])
  | some max =>
      if ordered : max < min then
        .error (.repetitionBounds min max)
      else
        above [item] (.repetition item.tree ⟨min, some max⟩) (item.bounds.repeated ⟨min, some max⟩)
          (.repetition (by simpa using ordered) (by simp) item.wellFormed) rfl
          (by rw [item.bounds_eq, Tree.bounds])

def negation (item : Pattern) : Except BuildError Pattern :=
  above [item] (.negation item.tree) .one (.negation item.wellFormed) rfl rfl

mutual

/-- Builds the parts of a tree first, from left to right. The first that cannot be built decides the
error. -/
def ofTree : Tree → Except BuildError Pattern
  | .token ⟨category, some value⟩ => .ok (token category value)
  | .token ⟨category, none⟩ => .ok (kind category)
  | .any => .ok any
  | .sequence items => do sequence (← ofTrees items)
  | .alternative choices => do alternative (← ofTrees choices)
  | .optional item => do optional (← ofTree item)
  | .repetition item times => do repetition (← ofTree item) times.min times.max
  | .negation item => do negation (← ofTree item)

def ofTrees : List Tree → Except BuildError (List Pattern)
  | [] => .ok []
  | tree :: trees => do
      let pattern ← ofTree tree
      return pattern :: (← ofTrees trees)

end

/-- The pattern of a tree that is known to be fit for one. -/
def built (tree : Tree) (fit : (ofTree tree).toOption.isSome = true) : Pattern :=
  (ofTree tree).toOption.get fit

end Pattern

end TokenPattern
