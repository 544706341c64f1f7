import TokenPattern.Pattern
import TokenPattern.Proofs.Tightness

/-!
A fault of a node is told from the words that its item stands for and from its height. Each step of
the construction finds the faults of its node, since the bounds and the depths that it reads are
those of the trees below.
-/

namespace TokenPattern

/-- The place of an error among the checks on one node. -/
def BuildError.rank : BuildError → Nat
  | .emptySequence => 0
  | .emptyAlternative => 0
  | .repetitionBounds _ _ => 1
  | .zeroWidthRepetition => 2
  | .tooDeep _ => 3

namespace Tree

mutual

def postorder : Tree → List Tree
  | .token spec => [.token spec]
  | .any => [.any]
  | .sequence items => postorderOfAll items ++ [.sequence items]
  | .alternative choices => postorderOfAll choices ++ [.alternative choices]
  | .optional item => item.postorder ++ [.optional item]
  | .repetition item times => item.postorder ++ [.repetition item times]
  | .negation item => item.postorder ++ [.negation item]

def postorderOfAll : List Tree → List Tree
  | [] => []
  | item :: items => item.postorder ++ postorderOfAll items

end

/-- What can be wrong with a node. An item that can be empty is told from its words, not from the
least length that is kept with it. -/
inductive Fault : Tree → BuildError → Prop
  | emptySequence : Fault (.sequence []) .emptySequence
  | emptyAlternative : Fault (.alternative []) .emptyAlternative
  | repetitionBounds {item : Tree} {min max : Nat} (inverted : max < min) :
      Fault (.repetition item ⟨min, some max⟩) (.repetitionBounds min max)
  | zeroWidthRepetition {item : Tree} {min : Nat} (empty : IsLeast (lengths item.language) 0) :
      Fault (.repetition item ⟨min, none⟩) .zeroWidthRepetition
  | tooDeep {tree : Tree} (deep : maxDepth < tree.height) : Fault tree (.tooDeep (maxDepth + 1))

def Sound (tree : Tree) : Prop := ∀ error, ¬ tree.Fault error

def Reports (tree : Tree) (error : BuildError) : Prop :=
  tree.Fault error ∧ ∀ other, tree.Fault other → error.rank ≤ other.rank

/-- The first node that is not sound reports the error. -/
inductive FirstFault : List Tree → BuildError → Prop
  | here {node : Tree} {nodes : List Tree} {error : BuildError} (reported : node.Reports error) :
      FirstFault (node :: nodes) error
  | later {node : Tree} {nodes : List Tree} {error : BuildError} (sound : node.Sound)
      (rest : FirstFault nodes error) : FirstFault (node :: nodes) error

structure Buildable (tree : Tree) : Prop where
  sequences : .sequence [] ∉ tree.postorder
  alternatives : .alternative [] ∉ tree.postorder
  ordered : ∀ item min max, .repetition item ⟨min, some max⟩ ∈ tree.postorder → min ≤ max
  ends : ∀ item min, .repetition item ⟨min, none⟩ ∈ tree.postorder →
    ¬ IsLeast (lengths item.language) 0
  height_le : tree.height ≤ maxDepth

theorem induction_children {motive : Tree → Prop}
    (step : ∀ tree, (∀ part ∈ tree.children, motive part) → motive tree) (tree : Tree) :
    motive tree := by
  induction tree with
  | token spec => exact step _ (by simp [children])
  | any => exact step _ (by simp [children])
  | sequence items each => exact step _ each
  | alternative choices each => exact step _ each
  | optional item inner => exact step _ (by simpa [children] using inner)
  | repetition item times inner => exact step _ (by simpa [children] using inner)
  | negation item inner => exact step _ (by simpa [children] using inner)

@[simp] theorem postorderOfAll_eq (items : List Tree) :
    postorderOfAll items = items.flatMap postorder := by
  induction items with
  | nil => rfl
  | cons item items each => simp [postorderOfAll, each]

theorem postorder_eq (tree : Tree) :
    tree.postorder = tree.children.flatMap postorder ++ [tree] := by
  cases tree <;> simp [postorder, children]

theorem self_mem_postorder (tree : Tree) : tree ∈ tree.postorder := by
  rw [postorder_eq]
  simp

theorem mem_postorder {tree node : Tree} :
    node ∈ tree.postorder ↔ (∃ part ∈ tree.children, node ∈ part.postorder) ∨ node = tree := by
  rw [postorder_eq, List.mem_append, List.mem_flatMap, List.mem_singleton]

theorem height_le_of_mem_children {tree part : Tree} (member : part ∈ tree.children) :
    part.height ≤ tree.height := by
  have bounded : ∀ items : List Tree, part ∈ items → part.height ≤ heightOfAll items := by
    intro items inside
    induction items with
    | nil => simp at inside
    | cons item items rest =>
        cases List.mem_cons.mp inside with
        | inl same => simp [heightOfAll, same]
        | inr later => exact Nat.le_trans (rest later) (Nat.le_max_right _ _)
  have below := bounded _ member
  rw [height_eq tree]
  omega

theorem height_le_of_mem (tree : Tree) :
    ∀ node ∈ tree.postorder, node.height ≤ tree.height := by
  induction tree using induction_children with
  | step tree each =>
      intro node member
      cases mem_postorder.mp member with
      | inl inside =>
          obtain ⟨part, isPart, deeper⟩ := inside
          exact Nat.le_trans (each part isPart node deeper) (height_le_of_mem_children isPart)
      | inr same => rw [same]

theorem postorder_subset (tree : Tree) :
    ∀ node ∈ tree.postorder, node.postorder ⊆ tree.postorder := by
  induction tree using induction_children with
  | step tree each =>
      intro node member
      cases mem_postorder.mp member with
      | inl inside =>
          obtain ⟨part, isPart, deeper⟩ := inside
          intro other below
          exact mem_postorder.mpr (.inl ⟨part, isPart, each part isPart node deeper below⟩)
      | inr same =>
          rw [same]
          exact List.Subset.refl _

theorem buildable_iff {tree : Tree} : tree.Buildable ↔ ∀ node ∈ tree.postorder, node.Sound := by
  constructor
  · intro buildable node member error fault
    cases fault with
    | emptySequence => exact buildable.sequences member
    | emptyAlternative => exact buildable.alternatives member
    | repetitionBounds inverted =>
        exact Nat.not_le.mpr inverted (buildable.ordered _ _ _ member)
    | zeroWidthRepetition empty => exact buildable.ends _ _ member empty
    | tooDeep deep =>
        have below := tree.height_le_of_mem node member
        have shallow := buildable.height_le
        omega
  · intro sound
    constructor
    · intro member
      exact sound _ member _ .emptySequence
    · intro member
      exact sound _ member _ .emptyAlternative
    · intro item min max member
      apply Nat.not_lt.mp
      exact fun inverted => sound _ member _ (.repetitionBounds inverted)
    · intro item min member empty
      exact sound _ member _ (.zeroWidthRepetition empty)
    · apply Nat.not_lt.mp
      exact fun deep => sound _ tree.self_mem_postorder _ (.tooDeep deep)

theorem Buildable.node {tree node : Tree} (buildable : tree.Buildable)
    (member : node ∈ tree.postorder) : node.Buildable := by
  rw [buildable_iff] at buildable ⊢
  intro other below
  exact buildable other (tree.postorder_subset node member below)

theorem WellFormed.part {tree part : Tree} (wellFormed : tree.WellFormed)
    (member : part ∈ tree.children) : part.WellFormed := by
  cases wellFormed with
  | token spec => simp [children] at member
  | any => simp [children] at member
  | sequence filled each => exact each part member
  | alternative filled each => exact each part member
  | optional inner => rwa [List.mem_singleton.mp member]
  | repetition ordered ends inner => rwa [List.mem_singleton.mp member]
  | negation inner => rwa [List.mem_singleton.mp member]

theorem WellFormed.node {tree node : Tree} (wellFormed : tree.WellFormed)
    (member : node ∈ tree.postorder) : node.WellFormed := by
  induction tree using induction_children with
  | step tree each =>
      cases mem_postorder.mp member with
      | inl inside =>
          obtain ⟨part, isPart, deeper⟩ := inside
          exact each part isPart (wellFormed.part isPart) deeper
      | inr same => rwa [same]

theorem WellFormed.bounds_min_eq_zero_iff {tree : Tree} (wellFormed : tree.WellFormed) :
    tree.bounds.min = 0 ↔ IsLeast (lengths tree.language) 0 := by
  obtain ⟨length, least, kept⟩ := (bounds_tight wellFormed).least
  rw [kept, saturate_eq_zero]
  constructor
  · intro zero
    rwa [zero] at least
  · intro empty
    exact least.unique empty

theorem WellFormed.buildable {tree : Tree} (wellFormed : tree.WellFormed)
    (shallow : tree.height ≤ maxDepth) : tree.Buildable := by
  constructor
  · intro member
    cases wellFormed.node member with
    | sequence filled each => exact filled rfl
  · intro member
    cases wellFormed.node member with
    | alternative filled each => exact filled rfl
  · intro item min max member
    cases wellFormed.node member with
    | repetition ordered ends inner => exact ordered max rfl
  · intro item min member empty
    cases wellFormed.node member with
    | repetition ordered ends inner => exact ends rfl (inner.bounds_min_eq_zero_iff.mpr empty)
  · exact shallow

theorem token_sound (spec : TokenSpec) : (token spec).Sound := by
  intro error fault
  cases fault with
  | tooDeep deep => exact absurd deep (by simp [height, maxDepth])

theorem any_sound : any.Sound := by
  intro error fault
  cases fault with
  | tooDeep deep => exact absurd deep (by simp [height, maxDepth])

theorem Reports.unique {tree : Tree} {error other : BuildError} (one : tree.Reports error)
    (two : tree.Reports other) : error = other := by
  have low := one.2 other two.1
  have high := two.2 error one.1
  cases one.1 <;> cases two.1 <;> simp_all [BuildError.rank]

namespace FirstFault

variable {nodes others : List Tree} {error other : BuildError}

theorem append (found : FirstFault nodes error) (others : List Tree) :
    FirstFault (nodes ++ others) error := by
  induction found with
  | here reported => exact .here reported
  | later sound rest inner => exact .later sound inner

theorem append_left (sound : ∀ node ∈ nodes, node.Sound) (found : FirstFault others error) :
    FirstFault (nodes ++ others) error := by
  induction nodes with
  | nil => exact found
  | cons node nodes rest =>
      have tail := rest fun node member => sound node (List.mem_cons_of_mem _ member)
      exact .later (sound node List.mem_cons_self) tail

theorem not_sound (found : FirstFault nodes error) : ¬ ∀ node ∈ nodes, node.Sound := by
  intro sound
  induction found with
  | @here node nodes error reported => exact sound node List.mem_cons_self error reported.1
  | later first rest inner =>
      exact inner fun node member => sound node (List.mem_cons_of_mem _ member)

theorem unique (found : FirstFault nodes error) (again : FirstFault nodes other) :
    error = other := by
  induction found with
  | here reported =>
      cases again with
      | here repeated => exact reported.unique repeated
      | later sound rest => exact absurd reported.1 (sound _)
  | later sound rest inner =>
      cases again with
      | here reported => exact absurd reported.1 (sound _)
      | later sound rest => exact inner rest

theorem exists_fault (found : FirstFault nodes error) : ∃ node ∈ nodes, node.Fault error := by
  induction found with
  | @here node nodes error reported => exact ⟨node, List.mem_cons_self, reported.1⟩
  | later sound rest inner =>
      obtain ⟨node, member, fault⟩ := inner
      exact ⟨node, List.mem_cons_of_mem _ member, fault⟩

end FirstFault

end Tree

namespace Pattern

open TokenPattern.Tree

/-- The answer to a list of nodes: what has been built from sound ones, or else the error of the
first that is not sound. -/
def Settled {α : Type} (nodes : List Tree) (built : α → Prop) : Except BuildError α → Prop
  | .ok value => built value ∧ ∀ node ∈ nodes, node.Sound
  | .error error => FirstFault nodes error

theorem Settled.shape {nodes : List Tree} {tree : Tree} {answer : Except BuildError Pattern}
    {whole : Pattern} (settled : Settled nodes (·.tree = tree) answer) (built : answer = .ok whole) :
    whole.tree = tree := by
  rw [built] at settled
  exact settled.1

theorem Settled.bind {α β : Type} {nodes others : List Tree} {built : α → Prop} {final : β → Prop}
    {first : Except BuildError α} {next : α → Except BuildError β}
    (front : Settled nodes built first)
    (back : ∀ value, built value → Settled others final (next value)) :
    Settled (nodes ++ others) final (first >>= next) := by
  cases first with
  | error error => exact FirstFault.append front others
  | ok value =>
      have later := back value front.1
      change Settled (nodes ++ others) final (next value)
      cases answer : next value with
      | error error =>
          rw [answer] at later
          exact FirstFault.append_left front.2 later
      | ok result =>
          rw [answer] at later
          refine ⟨later.1, fun node member => ?_⟩
          cases List.mem_append.mp member with
          | inl earlier => exact front.2 node earlier
          | inr last => exact later.2 node last

theorem settled_error {tree : Tree} {error : BuildError} {built : Pattern → Prop}
    (fault : tree.Fault error) (first : ∀ other, tree.Fault other → error.rank ≤ other.rank) :
    Settled [tree] built (.error error) :=
  .here ⟨fault, first⟩

theorem settled_ok (pattern : Pattern) (sound : pattern.tree.Sound) :
    Settled [pattern.tree] (·.tree = pattern.tree) (.ok pattern) := by
  refine ⟨rfl, fun node member => ?_⟩
  rwa [List.mem_singleton.mp member]

theorem depthAbove_le (parts : List Pattern) : depthAbove parts ≤ maxDepth + 1 := by
  have each : (parts.map depth).foldr max 0 ≤ maxDepth := by
    induction parts with
    | nil => exact Nat.zero_le _
    | cons part parts rest => exact Nat.max_le.mpr ⟨part.depth_le, rest⟩
  rw [depthAbove]
  omega

/-- If only its height can be wrong with a node, `above` settles it. -/
theorem above_settled {parts : List Pattern} {tree : Tree} {bounds : LengthBounds}
    {wellFormed : tree.WellFormed} {children : tree.children = parts.map Pattern.tree}
    {bounds_eq : bounds = tree.bounds}
    (otherwise : ∀ error, tree.Fault error → error = .tooDeep (maxDepth + 1)) :
    Settled [tree] (·.tree = tree) (above parts tree bounds wellFormed children bounds_eq) := by
  have height : depthAbove parts = tree.height := by
    rw [depthAbove_eq, Tree.height_eq, children]
  have most := depthAbove_le parts
  rw [above]
  by_cases shallow : depthAbove parts ≤ maxDepth
  · rw [dif_pos shallow]
    refine ⟨rfl, fun node member error fault => ?_⟩
    rw [List.mem_singleton.mp member] at fault
    rw [otherwise error fault] at fault
    cases fault with
    | tooDeep deep => omega
  · rw [dif_neg shallow]
    have exact : depthAbove parts = maxDepth + 1 := by omega
    rw [exact]
    apply settled_error (.tooDeep (by omega))
    intro other fault
    rw [otherwise other fault]

theorem sequence_settled (items : List Pattern) :
    Settled [.sequence (items.map tree)] (·.tree = .sequence (items.map tree))
      (sequence items) := by
  rw [sequence]
  by_cases filled : items = []
  · rw [dif_pos filled]
    subst filled
    exact settled_error .emptySequence fun other _ => Nat.zero_le _
  · rw [dif_neg filled]
    apply above_settled
    intro error fault
    generalize parts : items.map tree = trees at fault
    cases fault with
    | emptySequence => exact absurd (List.map_eq_nil_iff.mp parts) filled
    | tooDeep deep => rfl

theorem alternative_settled (choices : List Pattern) :
    Settled [.alternative (choices.map tree)] (·.tree = .alternative (choices.map tree))
      (alternative choices) := by
  rw [alternative]
  by_cases filled : choices = []
  · rw [dif_pos filled]
    subst filled
    exact settled_error .emptyAlternative fun other _ => Nat.zero_le _
  · rw [dif_neg filled]
    apply above_settled
    intro error fault
    generalize parts : choices.map tree = trees at fault
    cases fault with
    | emptyAlternative => exact absurd (List.map_eq_nil_iff.mp parts) filled
    | tooDeep deep => rfl

theorem optional_settled (item : Pattern) :
    Settled [.optional item.tree] (·.tree = .optional item.tree) (optional item) := by
  apply above_settled
  intro error fault
  cases fault
  rfl

theorem negation_settled (item : Pattern) :
    Settled [.negation item.tree] (·.tree = .negation item.tree) (negation item) := by
  apply above_settled
  intro error fault
  cases fault
  rfl

theorem bounds_min_eq_zero_iff (pattern : Pattern) :
    pattern.bounds.min = 0 ↔ IsLeast (lengths pattern.tree.language) 0 := by
  rw [pattern.bounds_eq]
  exact pattern.wellFormed.bounds_min_eq_zero_iff

theorem repetition_settled (item : Pattern) (min : Nat) (max : Option Nat) :
    Settled [.repetition item.tree ⟨min, max⟩] (·.tree = .repetition item.tree ⟨min, max⟩)
      (repetition item min max) := by
  cases max with
  | none =>
      rw [repetition]
      by_cases empty : item.bounds.min = 0
      · rw [dif_pos empty]
        apply settled_error (.zeroWidthRepetition (item.bounds_min_eq_zero_iff.mp empty))
        intro other fault
        cases fault <;> simp [BuildError.rank]
      · rw [dif_neg empty]
        apply above_settled
        intro error fault
        cases fault with
        | zeroWidthRepetition least => exact absurd (item.bounds_min_eq_zero_iff.mpr least) empty
        | tooDeep deep => rfl
  | some max =>
      rw [repetition]
      by_cases inverted : max < min
      · rw [dif_pos inverted]
        apply settled_error (.repetitionBounds inverted)
        intro other fault
        cases fault <;> simp [BuildError.rank]
      · rw [dif_neg inverted]
        apply above_settled
        intro error fault
        cases fault with
        | repetitionBounds reversed => exact absurd reversed inverted
        | tooDeep deep => rfl

theorem ofTrees_settled {items : List Tree}
    (each : ∀ item ∈ items, Settled item.postorder (·.tree = item) (ofTree item)) :
    Settled (postorderOfAll items) (·.map tree = items) (ofTrees items) := by
  induction items with
  | nil => exact ⟨rfl, by simp [postorderOfAll]⟩
  | cons item items rest =>
      have head := each item List.mem_cons_self
      have tail := rest fun other member => each other (List.mem_cons_of_mem _ member)
      rw [ofTrees, postorderOfAll]
      apply head.bind
      intro pattern shape
      rw [← List.append_nil (postorderOfAll items)]
      apply tail.bind
      intro patterns shapes
      have whole : (pattern :: patterns).map Pattern.tree = item :: items := by
        rw [List.map_cons, shape, shapes]
      exact ⟨whole, by simp⟩

theorem ofTree_settled (tree : Tree) : Settled tree.postorder (·.tree = tree) (ofTree tree) := by
  induction tree with
  | token spec =>
      obtain ⟨category, value⟩ := spec
      cases value with
      | none => exact settled_ok (kind category) (token_sound _)
      | some value => exact settled_ok (token category value) (token_sound _)
  | any => exact settled_ok Pattern.any any_sound
  | sequence items each =>
      rw [ofTree, postorder]
      apply (ofTrees_settled each).bind
      intro patterns shape
      rw [← shape]
      exact sequence_settled patterns
  | alternative choices each =>
      rw [ofTree, postorder]
      apply (ofTrees_settled each).bind
      intro patterns shape
      rw [← shape]
      exact alternative_settled patterns
  | optional item inner =>
      rw [ofTree, postorder]
      apply inner.bind
      intro pattern shape
      rw [← shape]
      exact optional_settled pattern
  | repetition item times inner =>
      rw [ofTree, postorder]
      apply inner.bind
      intro pattern shape
      rw [← shape]
      exact repetition_settled pattern times.min times.max
  | negation item inner =>
      rw [ofTree, postorder]
      apply inner.bind
      intro pattern shape
      rw [← shape]
      exact negation_settled pattern

theorem ofTree_eq_ok_iff {tree : Tree} {pattern : Pattern} :
    ofTree tree = .ok pattern ↔ tree.Buildable ∧ pattern.tree = tree := by
  rw [buildable_iff]
  have settled := ofTree_settled tree
  cases answer : ofTree tree with
  | error error =>
      rw [answer] at settled
      constructor
      · intro built
        cases built
      · intro sound
        exact absurd sound.1 settled.not_sound
  | ok built =>
      rw [answer] at settled
      constructor
      · intro same
        rw [← Except.ok.inj same]
        exact ⟨settled.2, settled.1⟩
      · intro shape
        rw [ext_tree (settled.1.trans shape.2.symm)]

theorem ofTree_tree (pattern : Pattern) : ofTree pattern.tree = .ok pattern := by
  have shallow : pattern.tree.height ≤ maxDepth := by
    rw [← pattern.depth_eq]
    exact pattern.depth_le
  exact ofTree_eq_ok_iff.mpr ⟨pattern.wellFormed.buildable shallow, rfl⟩

theorem ofTree_eq_error_iff {tree : Tree} {error : BuildError} :
    ofTree tree = .error error ↔ FirstFault tree.postorder error := by
  have settled := ofTree_settled tree
  cases answer : ofTree tree with
  | error other =>
      rw [answer] at settled
      constructor
      · intro same
        rw [← Except.error.inj same]
        exact settled
      · intro found
        rw [settled.unique found]
  | ok built =>
      rw [answer] at settled
      constructor
      · intro failed
        cases failed
      · intro found
        exact absurd settled.2 found.not_sound

theorem exists_ofTree_iff {tree : Tree} :
    (∃ pattern, ofTree tree = .ok pattern) ↔ tree.Buildable := by
  constructor
  · intro built
    obtain ⟨pattern, answer⟩ := built
    exact (ofTree_eq_ok_iff.mp answer).1
  · intro buildable
    cases answer : ofTree tree with
    | ok pattern => exact ⟨pattern, rfl⟩
    | error error =>
        have found := ofTree_eq_error_iff.mp answer
        exact absurd (buildable_iff.mp buildable) found.not_sound

/-- A tree of constructions succeeds just if it is well formed and not too high. What is kept with
each of its nodes is then what the subtree comes to by itself. Otherwise the first faulty node in
post-order decides the error, and one that is too deep has the depth 501. -/
theorem ofTree_accepts_buildable (tree : Tree) :
    ((∃ pattern, ofTree tree = .ok pattern) ↔ tree.Buildable) ∧
    (∀ pattern, ofTree tree = .ok pattern → pattern.tree = tree ∧ pattern.depth = tree.height ∧
      ∀ node ∈ tree.postorder, ∃ part, ofTree node = .ok part ∧
        part.tree = node ∧ part.depth = node.height ∧ part.bounds = node.bounds) ∧
    (∀ error, ofTree tree = .error error ↔ FirstFault tree.postorder error) ∧
    ∀ depth, ofTree tree = .error (.tooDeep depth) → depth = 501 := by
  have kept : ∀ {node part}, ofTree node = .ok part →
      part.tree = node ∧ part.depth = node.height ∧ part.bounds = node.bounds := by
    intro node part answer
    have shape : part.tree = node := (ofTree_eq_ok_iff.mp answer).2
    rw [part.depth_eq, part.bounds_eq, shape]
    exact ⟨rfl, rfl, rfl⟩
  refine ⟨exists_ofTree_iff, ?_, fun error => ofTree_eq_error_iff, ?_⟩
  · intro pattern answer
    have buildable := (ofTree_eq_ok_iff.mp answer).1
    refine ⟨(kept answer).1, (kept answer).2.1, fun node member => ?_⟩
    obtain ⟨part, built⟩ := exists_ofTree_iff.mpr (buildable.node member)
    exact ⟨part, built, kept built⟩
  · intro depth failed
    obtain ⟨node, -, fault⟩ := (ofTree_eq_error_iff.mp failed).exists_fault
    cases fault
    rfl

def pairs : Tree := .repetition (.sequence [.optional .any, .any]) ⟨1, none⟩

def twoFaults : Tree :=
  .sequence [.repetition (.optional .any) ⟨3, none⟩, .repetition .any ⟨3, some 2⟩]

theorem pairs_accepted_twoFaults_refused :
    (∃ pattern, ofTree pairs = .ok pattern ∧ pattern.depth = pairs.height ∧ pairs.Buildable) ∧
      ofTree twoFaults = .error .zeroWidthRepetition ∧
      FirstFault twoFaults.postorder .zeroWidthRepetition := by
  refine ⟨⟨_, rfl, ?_, ?_⟩, rfl, ?_⟩
  · exact ((ofTree_accepts_buildable pairs).2.1 _ rfl).2.1
  · exact (ofTree_accepts_buildable pairs).1.mp ⟨_, rfl⟩
  · exact ((ofTree_accepts_buildable twoFaults).2.2.1 _).mp rfl

end Pattern

end TokenPattern
