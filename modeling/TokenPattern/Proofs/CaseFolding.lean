import TokenPattern.Proofs.Construction
import TokenPattern.Proofs.Leftmost
import TokenPattern.Proofs.Precedence

namespace TokenPattern

def Token.fold (token : Token) : Token := { token with text := foldCase token.text }

def TokenSpec.fold (spec : TokenSpec) : TokenSpec := { spec with value := spec.value.map foldCase }

namespace Tree

mutual

def fold : Tree → Tree
  | .token spec => .token spec.fold
  | .any => .any
  | .sequence items => .sequence (foldAll items)
  | .alternative choices => .alternative (foldAll choices)
  | .optional item => .optional item.fold
  | .repetition item times => .repetition item.fold times
  | .negation item => .negation item.fold

def foldAll : List Tree → List Tree
  | [] => []
  | item :: items => item.fold :: foldAll items

end

@[simp] theorem foldAll_eq (items : List Tree) : foldAll items = items.map fold := by
  induction items with
  | nil => rfl
  | cons item items each => simp [foldAll, each]

@[simp] theorem fold_sequence (items : List Tree) :
    (sequence items).fold = .sequence (items.map fold) := by
  simp [fold]

@[simp] theorem fold_alternative (choices : List Tree) :
    (alternative choices).fold = .alternative (choices.map fold) := by
  simp [fold]

theorem map_fold {α : Type} {view : Tree → α} {items : List Tree}
    (each : ∀ item ∈ items, view item.fold = view item) :
    (items.map fold).map view = items.map view := by
  rw [List.map_map]
  exact List.map_congr_left each

theorem bounds_fold (tree : Tree) : tree.fold.bounds = tree.bounds := by
  induction tree with
  | token spec => rfl
  | any => rfl
  | sequence items each => rw [fold_sequence, bounds_sequence, bounds_sequence, map_fold each]
  | alternative choices each =>
      rw [fold_alternative, bounds_alternative, bounds_alternative, map_fold each]
  | optional item inner => rw [fold, bounds, bounds, inner]
  | repetition item times inner => rw [fold, bounds, bounds, inner]
  | negation item inner => rfl

theorem height_fold (tree : Tree) : tree.fold.height = tree.height := by
  induction tree with
  | token spec => rfl
  | any => rfl
  | sequence items each =>
      rw [fold_sequence, height, height, heightOfAll_eq, heightOfAll_eq, map_fold each]
  | alternative choices each =>
      rw [fold_alternative, height, height, heightOfAll_eq, heightOfAll_eq, map_fold each]
  | optional item inner => rw [fold, height, height, inner]
  | repetition item times inner => rw [fold, height, height, inner]
  | negation item inner => rw [fold, height, height, inner]

theorem WellFormed.fold {tree : Tree} (wellFormed : tree.WellFormed) : tree.fold.WellFormed := by
  induction wellFormed with
  | token spec => exact .token _
  | any => exact .any
  | @sequence items filled wellFormed each =>
      rw [fold_sequence]
      exact .sequence (by simpa using filled) (List.forall_mem_map.mpr each)
  | @alternative choices filled wellFormed each =>
      rw [fold_alternative]
      exact .alternative (by simpa using filled) (List.forall_mem_map.mpr each)
  | optional inner folded => exact .optional folded
  | @repetition item times ordered ends inner folded =>
      rw [Tree.fold]
      refine .repetition ordered ?_ folded
      rw [bounds_fold]
      exact ends
  | negation inner folded => exact .negation folded

end Tree

theorem TokenSpec.accepts_fold (spec : TokenSpec) (token : Token) :
    spec.fold.accepts false token.fold = spec.accepts true token := by
  rw [accepts, accepts]
  cases value : spec.value <;> simp [fold, Token.fold, value]

theorem greedy_map {change : Token → Token} {step next : List Token → Option Nat}
    (agree : ∀ ahead, next (ahead.map change) = step ahead)
    (times : RepeatBounds) (count : Nat) (ahead : List Token) :
    greedy next times count (ahead.map change) = greedy step times count ahead := by
  fun_induction greedy step times count ahead with
  | case1 count ahead allowed failed => rw [greedy, if_pos allowed, agree, failed]
  | case2 count ahead allowed matched => rw [greedy, if_pos allowed, agree, matched]
  | case3 count allowed more matched =>
      rw [greedy, if_pos allowed, agree, matched]
      rfl
  | case4 count allowed more token rest matched later =>
      rw [greedy, if_pos allowed, agree, matched]
      simp only [List.map_cons]
      rw [← List.map_drop, later]
  | case5 count ahead full => rw [greedy, if_neg full]

namespace Tree

theorem consume_fold (tree : Tree) (ahead : List Token) :
    tree.fold.consume false (ahead.map Token.fold) = tree.consume true ahead := by
  induction tree generalizing ahead with
  | token spec =>
      cases ahead with
      | nil => rfl
      | cons token ahead => rw [fold, List.map_cons, consume, consume, spec.accepts_fold]
  | any => cases ahead <;> rfl
  | sequence items each =>
      rw [fold_sequence, consume, consume]
      exact consumeAll_map (fun _ _ => List.map_drop) each ahead
  | alternative choices each =>
      rw [fold_alternative, consume, consume]
      exact consumeFirst_map fun choice member => each choice member ahead
  | optional item inner => rw [fold, consume, consume, inner]
  | repetition item times inner =>
      rw [fold, consume, consume]
      exact greedy_map inner times 0 ahead
  | negation item inner =>
      cases ahead with
      | nil => rfl
      | cons token ahead =>
          rw [fold, List.map_cons, consume, consume, ← List.map_cons, inner]

end Tree

def Pattern.fold (pattern : Pattern) : Pattern where
  tree := pattern.tree.fold
  depth := pattern.depth
  bounds := pattern.bounds
  wellFormed := pattern.wellFormed.fold
  depth_eq := by rw [pattern.depth_eq, Tree.height_fold]
  bounds_eq := by rw [pattern.bounds_eq, Tree.bounds_fold]
  depth_le := pattern.depth_le

def Rule.fold (rule : Rule) : Rule :=
  { rule with matcher := { rule.matcher with pattern := rule.matcher.pattern.fold } }

def RuleSet.fold (set : RuleSet) : RuleSet where
  rules := set.rules.map Rule.fold
  options := set.options
  distinct := by simpa [Rule.fold, Function.comp_def] using set.distinct
  agreed := by
    intro folded member
    rcases List.mem_map.mp member with ⟨rule, inside, rfl⟩
    exact set.agreed rule inside

theorem Scan.foundAt_map {α : Type} {change : Token → Token}
    {probe folded : List Token → Option (α × Nat)}
    (agree : ∀ ahead, folded (ahead.map change) = probe ahead) (tokens : List Token)
    (offset : Nat) :
    foundAt folded (tokens.map change) offset = foundAt probe tokens offset := by
  rw [foundAt, foundAt, List.length_map, ← List.map_drop, agree]

theorem Matcher.probe_fold (pattern : Pattern) (reportEmpty : Bool) (ahead : List Token) :
    probe ⟨pattern.fold, ⟨false, reportEmpty⟩⟩ (ahead.map Token.fold) =
      probe ⟨pattern, ⟨true, reportEmpty⟩⟩ ahead := by
  have same : consume ⟨pattern.fold, ⟨false, reportEmpty⟩⟩ (ahead.map Token.fold) =
      consume ⟨pattern, ⟨true, reportEmpty⟩⟩ ahead := pattern.tree.consume_fold ahead
  rw [probe, probe, same]

theorem Matcher.matchAt_fold (pattern : Pattern) (reportEmpty : Bool) (tokens : List Token)
    (offset : Nat) :
    matchAt ⟨pattern.fold, ⟨false, reportEmpty⟩⟩ (tokens.map Token.fold) offset =
      matchAt ⟨pattern, ⟨true, reportEmpty⟩⟩ tokens offset := by
  have same : ∀ ahead, front ⟨pattern.fold, ⟨false, reportEmpty⟩⟩ (ahead.map Token.fold) =
      front ⟨pattern, ⟨true, reportEmpty⟩⟩ ahead :=
    fun ahead => congrArg (Option.map ((), ·)) (pattern.tree.consume_fold ahead)
  rw [matchAt_eq_foundAt, matchAt_eq_foundAt, Scan.foundAt_map same]

theorem RuleSet.probe_fold (set : RuleSet) (reportEmpty : Bool) (ahead : List Token) :
    (set.fold.withOptions ⟨false, reportEmpty⟩).probe (ahead.map Token.fold) =
      (set.withOptions ⟨true, reportEmpty⟩).probe ahead := by
  have same : ∀ accepted,
      (set.fold.withOptions ⟨false, reportEmpty⟩).firstRule accepted (ahead.map Token.fold) =
        (set.withOptions ⟨true, reportEmpty⟩).firstRule accepted ahead := by
    intro accepted
    rw [firstRule_withOptions, firstRule_withOptions, fold, List.findSome?_map]
    congr 1
    funext rule
    have taken := rule.pattern.tree.consume_fold ahead
    exact congrArg (fun taken => (taken.filter accepted).map (rule.name, ·)) taken
  rw [probe_eq, probe_eq, same, same]
  rfl

/-- To match without regard to case is to match the folded tokens exactly with the folded pattern,
which can be built if the pattern can. Scans find the same in both ways, scans for one pattern as
well as scans for the rules of a set. -/
theorem ignoreCase_matches_folded :
    (∀ tree pattern, Pattern.ofTree tree = .ok pattern →
      Pattern.ofTree tree.fold = .ok pattern.fold) ∧
    (∀ (pattern : Pattern) reportEmpty tokens,
      (∀ offset, Matcher.matchAt ⟨pattern, ⟨true, reportEmpty⟩⟩ tokens offset =
        Matcher.matchAt ⟨pattern.fold, ⟨false, reportEmpty⟩⟩ (tokens.map Token.fold) offset) ∧
      Matcher.findAll ⟨pattern, ⟨true, reportEmpty⟩⟩ tokens =
        Matcher.findAll ⟨pattern.fold, ⟨false, reportEmpty⟩⟩ (tokens.map Token.fold)) ∧
    ∀ (set : RuleSet) reportEmpty tokens,
      ((set.withOptions ⟨true, reportEmpty⟩).scan tokens).toList =
        ((set.fold.withOptions ⟨false, reportEmpty⟩).scan (tokens.map Token.fold)).toList := by
  refine ⟨?_, ?_, ?_⟩
  · intro tree pattern built
    have shape : pattern.tree = tree := (Pattern.ofTree_eq_ok_iff.mp built).2
    rw [← shape]
    exact pattern.fold.ofTree_tree
  · intro pattern reportEmpty tokens
    constructor
    · intro offset
      exact (Matcher.matchAt_fold pattern reportEmpty tokens offset).symm
    · have same := Scan.foundAt_map (Matcher.probe_fold pattern reportEmpty) tokens
      have alike := Scan.toList_start_eq (Matcher.probe_within _) (Matcher.probe_within _) same
      rw [Matcher.findAll, Matcher.scan, ← alike]
      rfl
  · intro set reportEmpty tokens
    have same := Scan.foundAt_map (set.probe_fold reportEmpty) tokens
    have alike := Scan.toList_start_eq (RuleSet.probe_within _) (RuleSet.probe_within _) same
    exact alike.symm

def openBlock : Tree := .sequence [
  .token ⟨Category.keyword, some "Do"⟩, .negation (.token ⟨Category.keyword, some "od"⟩)]

def opening : Pattern := .built openBlock rfl

def shouted : List Token := [.keyword "DO", .identifier "X"]

theorem opening_matches_folded :
    Pattern.ofTree opening.tree = .ok opening ∧
      Pattern.ofTree opening.tree.fold = .ok opening.fold ∧
      Matcher.matchAt ⟨opening, ⟨false, false⟩⟩ shouted 0 = none ∧
      Matcher.matchAt ⟨opening, ⟨true, false⟩⟩ shouted 0 = some ⟨0, 2⟩ ∧
      Matcher.matchAt ⟨opening.fold, ⟨false, false⟩⟩ (shouted.map Token.fold) 0 =
        some ⟨0, 2⟩ := by
  have built : Pattern.ofTree opening.tree = .ok opening := opening.ofTree_tree
  have folded := ignoreCase_matches_folded.1 opening.tree opening built
  have differs : Matcher.matchAt ⟨opening, ⟨false, false⟩⟩ shouted 0 = none := by decide +kernel
  have alike : foldCase "Do" = foldCase "DO" := by simp [foldCase, ← String.toList_inj]
  have apart : foldCase "od" ≠ foldCase "X" := by simp [foldCase, ← String.toList_inj]
  have taken : openBlock.consume true shouted = some 2 := by
    simp [openBlock, shouted, Tree.consume, Tree.consumeAll, TokenSpec.accepts, Token.keyword,
      Token.identifier, alike, apart]
  have matched : Matcher.matchAt ⟨opening, ⟨true, false⟩⟩ shouted 0 = some ⟨0, 2⟩ :=
    Matcher.matchAt_eq_some_iff.mpr ⟨rfl, Nat.zero_le _, taken⟩
  have same := (ignoreCase_matches_folded.2.1 opening false shouted).1 0
  rw [matched] at same
  exact ⟨built, folded, differs, matched, same.symm⟩

end TokenPattern
