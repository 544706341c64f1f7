import TokenPattern.Proofs.Lookahead
import TokenPattern.Proofs.RawCounts

/-!
An expansion fails because its limit cuts it off, or because a repetition without an upper limit lies
outside the negations. In a pattern of bounded length such a repetition is inside of one that is made
zero times: the length bounds leave the item of that one out, the expansion lists its words all the
same.
-/

namespace TokenPattern

namespace Tree

def isEndless : Tree → Bool
  | .repetition _ times => times.max.isNone
  | _ => false

def isSkipped : Tree → Bool
  | .repetition _ times => times.max == some 0
  | _ => false

/-- The parts whose words an expansion puts together. A negation is a step of its own. -/
def openParts : Tree → List Tree
  | .negation _ => []
  | tree => tree.children

theorem openParts_subset (tree : Tree) : tree.openParts ⊆ tree.children := by
  cases tree <;> simp [openParts]

theorem openNodes_eq (tree : Tree) :
    tree.openNodes = tree :: tree.openParts.flatMap openNodes := by
  cases tree <;> simp [openNodes, openParts, children]

theorem mem_openNodes {tree node : Tree} :
    node ∈ tree.openNodes ↔ node = tree ∨ ∃ part ∈ tree.openParts, node ∈ part.openNodes := by
  rw [openNodes_eq, List.mem_cons, List.mem_flatMap]

theorem openNodes_subset (tree : Tree) :
    ∀ node ∈ tree.openNodes, node.openNodes ⊆ tree.openNodes := by
  induction tree using induction_children with
  | step tree each =>
      intro node member
      cases mem_openNodes.mp member with
      | inl same =>
          rw [same]
          exact List.Subset.refl _
      | inr inside =>
          obtain ⟨part, isPart, deeper⟩ := inside
          intro other below
          have found := each part (tree.openParts_subset isPart) node deeper below
          exact mem_openNodes.mpr (.inr ⟨part, isPart, found⟩)

end Tree

theorem LengthBounds.foldl_append_max {parts : List LengthBounds} {first : LengthBounds} {most : Nat}
    (finite : (parts.foldl append first).max = some most) :
    ∀ part ∈ first :: parts, ∃ width, part.max = some width := by
  induction parts generalizing first with
  | nil =>
      intro part member
      rw [List.mem_singleton.mp member]
      exact ⟨most, finite⟩
  | cons part parts rest =>
      obtain ⟨⟨both, top⟩, others⟩ := List.forall_mem_cons.mp (rest finite)
      obtain ⟨a, b, firstMax, partMax, -⟩ := append_max_eq_some_iff.mp top
      exact List.forall_mem_cons.mpr
        ⟨⟨a, firstMax⟩, List.forall_mem_cons.mpr ⟨⟨b, partMax⟩, others⟩⟩

namespace Expansion

variable {limit : Nat} {error : ExpansionError}

/-- The limit is to blame for the error, and it is one that a number can exceed. -/
def CutOff (limit : Nat) (error : ExpansionError) : Prop :=
  error = .aboveLimit limit ∧ limit < maxCount

theorem bind_eq_error_iff {ε α β : Type} {first : Except ε α} {next : α → Except ε β} {error : ε} :
    first >>= next = .error error ↔
      first = .error error ∨ ∃ value, first = .ok value ∧ next value = .error error := by
  cases first with
  | error other => simp [bind, Except.bind]
  | ok value => simp [bind, Except.bind]

theorem bind_pure_eq_error_iff {ε α β : Type} {first : Except ε α} {make : α → β} {error : ε} :
    (first >>= fun value => pure (make value)) = .error error ↔ first = .error error := by
  cases first <;> simp [bind, Except.bind, pure, Except.pure]

theorem check_cutOff {count : Nat} (failed : check limit count = .error error) :
    CutOff limit error := by
  have exceeded := check_eq_error_iff.mp failed
  exact ⟨exceeded.2, Nat.lt_of_lt_of_le exceeded.1 (saturate_le_maxCount count)⟩

theorem product_cutOff {heads tails : List Word}
    (failed : product limit heads tails = .error error) : CutOff limit error :=
  check_cutOff (bind_pure_eq_error_iff.mp failed)

def keep (limit min count : Nat) (power kept : List Word) : Except ExpansionError (List Word) :=
  if min ≤ count then do
    check limit (power.length + kept.length)
    return power ++ kept
  else
    return kept

theorem powers_zero (limit min count : Nat) (once power kept : List Word) :
    powers limit min once 0 count power kept = keep limit min count power kept := by
  unfold powers keep
  by_cases enough : min ≤ count <;> simp only [enough, if_true, if_false, pure_bind]

theorem powers_succ (limit min left count : Nat) (once power kept : List Word) :
    powers limit min once (left + 1) count power kept =
      (keep limit min count power kept >>= fun kept =>
        product limit power once >>= fun more =>
          powers limit min once left (count + 1) more kept) := by
  rw [powers, keep]
  by_cases enough : min ≤ count <;> simp only [enough, if_true, if_false, pure_bind, bind_assoc]

theorem keep_cutOff {min count : Nat} {power kept : List Word}
    (failed : keep limit min count power kept = .error error) : CutOff limit error := by
  rw [keep] at failed
  by_cases enough : min ≤ count
  · rw [if_pos enough] at failed
    exact check_cutOff (bind_pure_eq_error_iff.mp failed)
  · rw [if_neg enough] at failed
    cases failed

theorem powers_cutOff {min left count : Nat} {once power kept : List Word}
    (failed : powers limit min once left count power kept = .error error) :
    CutOff limit error := by
  induction left generalizing count power kept with
  | zero =>
      rw [powers_zero] at failed
      exact keep_cutOff failed
  | succ left rest =>
      rw [powers_succ, bind_eq_error_iff] at failed
      cases failed with
      | inl exceeded => exact keep_cutOff exceeded
      | inr kept =>
          obtain ⟨kept, -, failed⟩ := kept
          cases bind_eq_error_iff.mp failed with
          | inl exceeded => exact product_cutOff exceeded
          | inr listed =>
              obtain ⟨more, -, later⟩ := listed
              exact rest later

end Expansion

namespace Tree

open Expansion LengthBounds

variable {limit : Nat} {error : ExpansionError}

theorem wordsOfAll_error {items : List Tree} {front : List Word}
    (failed : wordsOfAll limit front items = .error error) :
    CutOff limit error ∨ ∃ item ∈ items, item.words limit = .error error := by
  induction items generalizing front with
  | nil => cases failed
  | cons item items rest =>
      rw [wordsOfAll, bind_eq_error_iff] at failed
      cases failed with
      | inl first => exact .inr ⟨item, List.mem_cons_self, first⟩
      | inr listed =>
          obtain ⟨part, -, failed⟩ := listed
          cases bind_eq_error_iff.mp failed with
          | inl exceeded => exact .inl (product_cutOff exceeded)
          | inr joined =>
              obtain ⟨words, -, later⟩ := joined
              apply (rest later).imp_right
              intro found
              obtain ⟨other, member, inner⟩ := found
              exact ⟨other, List.mem_cons_of_mem _ member, inner⟩

theorem wordsOfEach_error {choices : List Tree} {front : List Word}
    (failed : wordsOfEach limit front choices = .error error) :
    CutOff limit error ∨ ∃ choice ∈ choices, choice.words limit = .error error := by
  induction choices generalizing front with
  | nil => cases failed
  | cons choice choices rest =>
      rw [wordsOfEach, bind_eq_error_iff] at failed
      cases failed with
      | inl first => exact .inr ⟨choice, List.mem_cons_self, first⟩
      | inr listed =>
          obtain ⟨part, -, failed⟩ := listed
          cases bind_eq_error_iff.mp failed with
          | inl exceeded => exact .inl (check_cutOff exceeded)
          | inr added =>
              obtain ⟨-, -, later⟩ := added
              apply (rest later).imp_right
              intro found
              obtain ⟨other, member, inner⟩ := found
              exact ⟨other, List.mem_cons_of_mem _ member, inner⟩

theorem words_error_step {tree : Tree} (failed : tree.words limit = .error error) :
    CutOff limit error ∨ (error = .unbounded ∧ tree.isEndless = true) ∨
      ∃ part ∈ tree.openParts, part.words limit = .error error := by
  cases tree with
  | token spec => cases failed
  | any => cases failed
  | sequence items => exact (wordsOfAll_error failed).imp_right .inr
  | alternative choices => exact (wordsOfEach_error failed).imp_right .inr
  | optional item =>
      rw [words, bind_eq_error_iff] at failed
      cases failed with
      | inl inner => exact .inr (.inr ⟨item, List.mem_cons_self, inner⟩)
      | inr listed =>
          obtain ⟨present, -, failed⟩ := listed
          exact .inl (check_cutOff (bind_pure_eq_error_iff.mp failed))
  | repetition item times =>
      rw [words] at failed
      cases bounded : times.max with
      | none =>
          rw [bounded] at failed
          cases failed
          exact .inr (.inl ⟨rfl, by simp [isEndless, bounded]⟩)
      | some max =>
          simp only [bounded, bind_eq_error_iff] at failed
          rcases failed with exceeded | ⟨-, -, exceeded | ⟨-, -, inner | ⟨once, -, repeated⟩⟩⟩
          · exact .inl (check_cutOff exceeded)
          · exact .inl (check_cutOff exceeded)
          · exact .inr (.inr ⟨item, List.mem_cons_self, inner⟩)
          · exact .inl (powers_cutOff repeated)
  | negation item => cases failed

theorem words_error {tree : Tree} (failed : tree.words limit = .error error) :
    CutOff limit error ∨
      error = .unbounded ∧ ∃ node ∈ tree.openNodes, node.isEndless = true := by
  induction tree using induction_children with
  | step tree each =>
      cases words_error_step failed with
      | inl cut => exact .inl cut
      | inr other =>
          cases other with
          | inl endless => exact .inr ⟨endless.1, tree, mem_openNodes.mpr (.inl rfl), endless.2⟩
          | inr inside =>
              obtain ⟨part, isPart, inner⟩ := inside
              apply (each part (tree.openParts_subset isPart) inner).imp_right
              intro found
              obtain ⟨unbounded, node, member, endless⟩ := found
              exact ⟨unbounded, node, mem_openNodes.mpr (.inr ⟨part, isPart, member⟩), endless⟩

theorem exists_words_of_mem {items : List Tree} {parts : List (List Word)}
    (listed : List.Forall₂ (fun item part => item.words limit = .ok part) items parts) :
    ∀ item ∈ items, ∃ part, item.words limit = .ok part := by
  induction listed with
  | nil => simp
  | cons head tail rest => exact List.forall_mem_cons.mpr ⟨⟨_, head⟩, rest⟩

theorem words_ok_step {tree : Tree} {all : List Word} (listed : tree.words limit = .ok all) :
    tree.isEndless = false ∧ ∀ part ∈ tree.openParts, ∃ words, part.words limit = .ok words := by
  cases tree with
  | token spec => exact ⟨rfl, by simp [openParts, children]⟩
  | any => exact ⟨rfl, by simp [openParts, children]⟩
  | sequence items =>
      obtain ⟨parts, each, -⟩ := wordsOfAll_ok listed
      exact ⟨rfl, exists_words_of_mem each⟩
  | alternative choices =>
      obtain ⟨parts, each, -⟩ := wordsOfEach_ok listed
      exact ⟨rfl, exists_words_of_mem each⟩
  | optional item =>
      obtain ⟨present, inner, -⟩ := words_optional_ok listed
      exact ⟨rfl, by simpa [openParts, children] using ⟨present, inner⟩⟩
  | repetition item times =>
      obtain ⟨max, once, bounded, inner, -⟩ := words_repetition_ok listed
      refine ⟨by simp [isEndless, bounded], ?_⟩
      simpa [openParts, children] using ⟨once, inner⟩
  | negation item => exact ⟨rfl, by simp [openParts]⟩

theorem words_ok_bounded {tree : Tree} {all : List Word} (listed : tree.words limit = .ok all) :
    ∀ node ∈ tree.openNodes, node.isEndless = false := by
  induction tree using induction_children generalizing all with
  | step tree each =>
      obtain ⟨bounded, inside⟩ := words_ok_step listed
      intro node member
      cases mem_openNodes.mp member with
      | inl same => rwa [same]
      | inr deeper =>
          obtain ⟨part, isPart, below⟩ := deeper
          obtain ⟨words, inner⟩ := inside part isPart
          exact each part (tree.openParts_subset isPart) inner node below

/-- No number exceeds `maxCount`, and so a repetition without an upper limit is all that can be in the
way of an expansion within that limit. -/
theorem words_maxCount_iff {tree : Tree} :
    tree.words maxCount = .error .unbounded ↔ ∃ node ∈ tree.openNodes, node.isEndless = true := by
  constructor
  · intro failed
    cases words_error failed with
    | inl cut => exact absurd cut.2 (Nat.lt_irrefl _)
    | inr endless => exact endless.2
  · intro found
    obtain ⟨node, member, endless⟩ := found
    cases answer : tree.words maxCount with
    | ok all =>
        rw [words_ok_bounded answer node member] at endless
        cases endless
    | error error =>
        cases words_error answer with
        | inl cut => exact absurd cut.2 (Nat.lt_irrefl _)
        | inr unbounded => rw [unbounded.1]

theorem bounded_step {tree : Tree} (wellFormed : tree.WellFormed) {most : Nat}
    (finite : tree.bounds.max = some most) :
    tree.isEndless = false ∧ ∀ part ∈ tree.openParts,
      (∃ width, part.bounds.max = some width) ∨ tree.isSkipped = true := by
  cases wellFormed with
  | token spec => exact ⟨rfl, by simp [openParts, children]⟩
  | any => exact ⟨rfl, by simp [openParts, children]⟩
  | @sequence items filled each =>
      rw [bounds_sequence] at finite
      refine ⟨rfl, fun part isPart => .inl ?_⟩
      exact foldl_append_max finite _ (List.mem_cons_of_mem _ (List.mem_map_of_mem isPart))
  | @alternative choices filled each =>
      refine ⟨rfl, fun part isPart => .inl ?_⟩
      obtain ⟨width, top, -⟩ := choice_max_le finite part isPart
      exact ⟨width, top⟩
  | @optional item inner =>
      refine ⟨rfl, fun part isPart => .inl ⟨most, ?_⟩⟩
      rw [List.mem_singleton.mp isPart]
      exact finite
  | @repetition item times ordered ends inner =>
      cases bounded : times.max with
      | none =>
          rw [repetition_max_eq_none bounded inner (ends bounded)] at finite
          cases finite
      | some max =>
          refine ⟨by simp [isEndless, bounded], fun part isPart => ?_⟩
          rw [List.mem_singleton.mp isPart]
          cases max with
          | zero => exact .inr (by simp [isSkipped, bounded])
          | succ max =>
              rw [bounds] at finite
              obtain ⟨width, top, -⟩ := (repeated_max_eq_some_iff bounded).mp finite
              exact .inl ⟨width, top⟩
  | negation inner => exact ⟨rfl, by simp [openParts]⟩

theorem endless_skipped {tree : Tree} (wellFormed : tree.WellFormed) {most : Nat}
    (finite : tree.bounds.max = some most) :
    ∀ node ∈ tree.openNodes, node.isEndless = true →
      ∃ skipped ∈ tree.openNodes, skipped.isSkipped = true ∧ node ∈ skipped.openNodes := by
  induction tree using induction_children generalizing most with
  | step tree each =>
      obtain ⟨bounded, inside⟩ := bounded_step wellFormed finite
      intro node member endless
      cases mem_openNodes.mp member with
      | inl same =>
          rw [same, bounded] at endless
          cases endless
      | inr deeper =>
          obtain ⟨part, isPart, below⟩ := deeper
          have child := tree.openParts_subset isPart
          cases inside part isPart with
          | inl width =>
              obtain ⟨width, top⟩ := width
              obtain ⟨skipped, found, never, within⟩ :=
                each part child (wellFormed.part child) top node below endless
              exact ⟨skipped, mem_openNodes.mpr (.inr ⟨part, isPart, found⟩), never, within⟩
          | inr never => exact ⟨tree, mem_openNodes.mpr (.inl rfl), never, member⟩

end Tree

namespace Pattern

open Expansion

theorem expandWithin_eq_error_iff {pattern : Pattern} {limit : Nat} {error : ExpansionError} :
    pattern.expandWithin limit = .error error ↔ pattern.tree.words limit = .error error :=
  bind_pure_eq_error_iff

theorem never_unbounded_iff (pattern : Pattern) :
    (∀ limit, pattern.expandWithin limit ≠ .error .unbounded) ↔
      ∀ node ∈ pattern.tree.openNodes, node.isEndless = false := by
  simp only [ne_eq, expandWithin_eq_error_iff]
  constructor
  · intro never node member
    by_contra endless
    rw [Bool.not_eq_false] at endless
    exact never maxCount (Tree.words_maxCount_iff.mpr ⟨node, member, endless⟩)
  · intro bounded limit failed
    cases Tree.words_error failed with
    | inl cut => cases cut.1
    | inr found =>
        obtain ⟨-, node, member, endless⟩ := found
        rw [bounded node member] at endless
        cases endless

/-- A pattern of bounded length is never found to be unbounded just if no repetition that is made zero
times has one without an upper limit inside. -/
theorem finite_never_unbounded_iff (pattern : Pattern) (most : Nat)
    (finite : pattern.bounds.max = some most) :
    (∀ limit, pattern.expandWithin limit ≠ .error .unbounded) ↔
      ∀ skipped ∈ pattern.tree.openNodes, skipped.isSkipped = true →
        ∀ node ∈ skipped.openNodes, node.isEndless = false := by
  rw [never_unbounded_iff]
  rw [pattern.bounds_eq] at finite
  constructor
  · intro bounded skipped member _ node below
    exact bounded node (pattern.tree.openNodes_subset skipped member below)
  · intro bounded node member
    by_contra endless
    rw [Bool.not_eq_false] at endless
    obtain ⟨skipped, found, never, within⟩ :=
      Tree.endless_skipped pattern.wellFormed finite node member endless
    rw [bounded skipped found never node within] at endless
    cases endless

def lastToken : Tree := .sequence [
  .negation (.sequence [.any, .repetition .any ⟨1, none⟩]),
  .repetition (.optional .any) ⟨0, some 0⟩]

theorem lastToken_never_unbounded :
    ∃ pattern, ofTree lastToken = .ok pattern ∧ pattern.bounds.max = some 1 ∧
      (∀ skipped ∈ pattern.tree.openNodes, skipped.isSkipped = true →
        ∀ node ∈ skipped.openNodes, node.isEndless = false) ∧
      ∀ limit, pattern.expandWithin limit ≠ .error .unbounded := by
  have bounded : ∀ skipped ∈ lastToken.openNodes, skipped.isSkipped = true →
      ∀ node ∈ skipped.openNodes, node.isEndless = false := by
    decide
  exact ⟨_, rfl, rfl, bounded, (finite_never_unbounded_iff _ 1 rfl).mpr bounded⟩

def noRuns : Tree := .repetition (.repetition .any ⟨0, none⟩) ⟨0, some 0⟩

theorem noRuns_unbounded :
    ∃ pattern, ofTree noRuns = .ok pattern ∧ pattern.bounds.max = some 0 ∧
      pattern.expandWithin defaultLimit = .error .unbounded :=
  ⟨_, rfl, rfl, rfl⟩

end Pattern

end TokenPattern
