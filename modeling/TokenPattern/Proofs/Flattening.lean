import TokenPattern.Match
import TokenPattern.Proofs.Construction
import TokenPattern.Proofs.RawCounts

/-!
A sequence in a sequence may be replaced by its items, and an alternative in an alternative by its
choices. Numbers of words are checked in other places then, but the inner list has no more words than
the whole one.
-/

namespace TokenPattern

theorem LengthBounds.Tight.unique {first second : LengthBounds} {language : Language Element}
    (one : first.Tight language) (two : second.Tight language) : first = second := by
  obtain ⟨length, least, low⟩ := one.least
  obtain ⟨other, otherLeast, otherLow⟩ := two.least
  have mins : first.min = second.min := by rw [low, otherLow, least.unique otherLeast]
  have maxs : first.max = second.max := by
    apply Option.ext
    intro length
    rw [one.greatest, two.greatest]
  cases first
  cases second
  simp_all

namespace Tree

open Expansion

variable {limit : Nat} {ignoreCase : Bool} {front words : List Word}

theorem language_flat_sequence (before inside after : List Tree) :
    (sequence (before ++ [sequence inside] ++ after)).language =
      (sequence (before ++ inside ++ after)).language := by
  simp only [language_sequence, List.map_append, List.prod_append, List.map_singleton,
    List.prod_singleton]

theorem language_flat_alternative (before inside after : List Tree) :
    (alternative (before ++ [alternative inside] ++ after)).language =
      (alternative (before ++ inside ++ after)).language := by
  simp only [language_alternative, List.map_append, List.sum_append, List.map_singleton,
    List.sum_singleton]

theorem consumeAll_append (items others : List Tree) (ahead : List Token) :
    consumeAll ignoreCase (items ++ others) ahead =
      (consumeAll ignoreCase items ahead).bind fun taken =>
        (consumeAll ignoreCase others (ahead.drop taken)).map (taken + ·) := by
  induction items generalizing ahead with
  | nil => simp [consumeAll]
  | cons item items rest =>
      simp only [List.cons_append, consumeAll, rest, Option.bind_eq_bind, Option.pure_def,
        Option.bind_assoc, Option.bind_some, Option.map_eq_bind, Function.comp_def, List.drop_drop,
        Nat.add_assoc]

theorem consume_flat_sequence (before inside after : List Tree) (ahead : List Token) :
    (sequence (before ++ [sequence inside] ++ after)).consume ignoreCase ahead =
      (sequence (before ++ inside ++ after)).consume ignoreCase ahead := by
  simp only [consume, consumeAll_append, consumeAll_singleton]

theorem consume_flat_alternative (before inside after : List Tree) (ahead : List Token) :
    (alternative (before ++ [alternative inside] ++ after)).consume ignoreCase ahead =
      (alternative (before ++ inside ++ after)).consume ignoreCase ahead := by
  simp only [consume, consumeFirst_eq, List.findSome?_append, List.findSome?_singleton]

theorem wordsOfAll_append (items others : List Tree) (front : List Word) :
    wordsOfAll limit front (items ++ others) =
      (wordsOfAll limit front items >>= fun words => wordsOfAll limit words others) := by
  induction items generalizing front with
  | nil => rfl
  | cons item items rest => simp only [List.cons_append, wordsOfAll, rest, bind_assoc]

theorem wordsOfEach_append (choices others : List Tree) (front : List Word) :
    wordsOfEach limit front (choices ++ others) =
      (wordsOfEach limit front choices >>= fun words => wordsOfEach limit words others) := by
  induction choices generalizing front with
  | nil => rfl
  | cons choice choices rest => simp only [List.cons_append, wordsOfEach, rest, bind_assoc]

theorem wordsOfAll_singleton (item : Tree) (front : List Word) :
    wordsOfAll limit front [item] = (item.words limit >>= product limit front) := by
  change (item.words limit >>= fun part => product limit front part >>= pure) = _
  simp only [bind_pure]

theorem wordsOfEach_singleton_eq_ok_iff {choice : Tree} :
    wordsOfEach limit front [choice] = .ok words ↔
      ∃ part, choice.words limit = .ok part ∧
        check limit (front.length + part.length) = .ok () ∧ front ++ part = words := by
  rw [wordsOfEach, bind_eq_ok_iff]
  simp only [check_bind_eq_ok_iff, wordsOfEach, Except.ok.injEq]

theorem listed_unique {items : List Tree} {parts others : List (List Word)}
    (one : List.Forall₂ (fun item part => item.words limit = .ok part) items parts)
    (two : List.Forall₂ (fun item part => item.words limit = .ok part) items others) :
    parts = others := by
  apply List.right_unique_forall₂' _ one two
  intro item part other first second
  rw [first] at second
  exact Except.ok.inj second

/-- The items of a sequence may as well be put together first: as there are words in front already,
they have no more words by themselves than behind the others. -/
theorem wordsOfAll_flat (small : limit < maxCount) {items : List Tree} (filled : items ≠ [])
    (wellFormed : ∀ item ∈ items, item.WellFormed) (occupied : 0 < front.length) :
    wordsOfAll limit front [sequence items] = .ok words ↔
      wordsOfAll limit front items = .ok words := by
  have one : 0 < ([[]] : List Word).length := Nat.one_pos
  have length : ∀ {inner}, wordsOfAll limit [[]] items = .ok inner →
      inner.length = (items.map rawCount).prod := by
    intro inner listed
    rw [← rawCount_sequence]
    exact length_words (sequence items) inner listed
  have joined : ∀ {inner words}, wordsOfAll limit [[]] items = .ok inner →
      wordsOfAll limit front items = .ok words → Expansion.joined front inner = words := by
    intro inner words alone behind
    obtain ⟨parts, listed, rfl⟩ := wordsOfAll_ok alone
    obtain ⟨others, again, rfl⟩ := wordsOfAll_ok behind
    rw [one_joined, listed_unique listed again]
  rw [wordsOfAll_singleton, bind_eq_ok_iff, Tree.words]
  constructor
  · intro inner
    obtain ⟨inner, alone, product⟩ := inner
    obtain ⟨checked, rfl⟩ := product_eq_ok_iff.mp product
    rw [check_eq_ok_iff_le small, length alone] at checked
    have each := ((exists_wordsOfAll_iff small wellFormed one).mp ⟨inner, alone⟩).1
    obtain ⟨words, behind⟩ :=
      (exists_wordsOfAll_iff small wellFormed occupied).mpr ⟨each, fun _ => checked⟩
    rw [joined alone behind]
    exact behind
  · intro behind
    obtain ⟨each, total⟩ := (exists_wordsOfAll_iff small wellFormed occupied).mp ⟨words, behind⟩
    have below : ([[]] : List Word).length * (items.map rawCount).prod ≤ limit := by
      calc
        ([[]] : List Word).length * (items.map rawCount).prod ≤
            front.length * (items.map rawCount).prod := Nat.mul_le_mul_right _ occupied
        _ ≤ limit := total filled
    obtain ⟨inner, alone⟩ := (exists_wordsOfAll_iff small wellFormed one).mpr ⟨each, fun _ => below⟩
    refine ⟨inner, alone, product_eq_ok_iff.mpr ⟨?_, joined alone behind⟩⟩
    rw [check_eq_ok_iff_le small, length alone]
    exact total filled

theorem wordsOfEach_flat (small : limit < maxCount) {choices : List Tree}
    (filled : choices ≠ []) :
    wordsOfEach limit front [alternative choices] = .ok words ↔
      wordsOfEach limit front choices = .ok words := by
  have length : ∀ {inner}, wordsOfEach limit [] choices = .ok inner →
      inner.length = (choices.map rawCount).sum := by
    intro inner listed
    rw [← rawCount_alternative]
    exact length_words (alternative choices) inner listed
  have joined : ∀ {inner words}, wordsOfEach limit [] choices = .ok inner →
      wordsOfEach limit front choices = .ok words → front ++ inner = words := by
    intro inner words alone behind
    obtain ⟨parts, listed, rfl⟩ := wordsOfEach_ok alone
    obtain ⟨others, again, rfl⟩ := wordsOfEach_ok behind
    rw [List.nil_append, listed_unique listed again]
  rw [wordsOfEach_singleton_eq_ok_iff, Tree.words]
  constructor
  · intro inner
    obtain ⟨inner, alone, checked, rfl⟩ := inner
    rw [check_eq_ok_iff_le small, length alone] at checked
    have each := ((exists_wordsOfEach_iff small).mp ⟨inner, alone⟩).1
    obtain ⟨words, behind⟩ := (exists_wordsOfEach_iff small).mpr ⟨each, fun _ => checked⟩
    rw [joined alone behind]
    exact behind
  · intro behind
    obtain ⟨each, total⟩ := (exists_wordsOfEach_iff small).mp ⟨words, behind⟩
    have whole := total filled
    have below : ([] : List Word).length + (choices.map rawCount).sum ≤ limit := by
      rw [List.length_nil]
      omega
    obtain ⟨inner, alone⟩ := (exists_wordsOfEach_iff small).mpr ⟨each, fun _ => below⟩
    refine ⟨inner, alone, ?_, joined alone behind⟩
    rw [check_eq_ok_iff_le small, length alone]
    exact whole

theorem wordsOfAll_pos (small : limit < maxCount) {items : List Tree}
    (wellFormed : ∀ item ∈ items, item.WellFormed)
    (listed : wordsOfAll limit [[]] items = .ok words) : 0 < words.length := by
  have one : 0 < ([[]] : List Word).length := Nat.one_pos
  have each := ((exists_wordsOfAll_iff small wellFormed one).mp ⟨words, listed⟩).1
  have length : words.length = (sequence items).rawCount := length_words (sequence items) words listed
  rw [length, rawCount_sequence]
  exact prod_rawCount_pos wellFormed each

theorem words_flat_sequence (small : limit < maxCount) {before inside : List Tree}
    (after : List Tree) (filled : inside ≠ []) (front : ∀ item ∈ before, item.WellFormed)
    (middle : ∀ item ∈ inside, item.WellFormed) :
    (sequence (before ++ [sequence inside] ++ after)).words limit = .ok words ↔
      (sequence (before ++ inside ++ after)).words limit = .ok words := by
  have same : ∀ {first next}, wordsOfAll limit [[]] before = .ok first →
      (wordsOfAll limit first [sequence inside] = .ok next ↔
        wordsOfAll limit first inside = .ok next) :=
    fun listed => wordsOfAll_flat small filled middle (wordsOfAll_pos small front listed)
  simp only [Tree.words, wordsOfAll_append, bind_eq_ok_iff]
  constructor
  · intro nested
    obtain ⟨next, ⟨first, listed, inner⟩, rest⟩ := nested
    exact ⟨next, ⟨first, listed, (same listed).mp inner⟩, rest⟩
  · intro flat
    obtain ⟨next, ⟨first, listed, inner⟩, rest⟩ := flat
    exact ⟨next, ⟨first, listed, (same listed).mpr inner⟩, rest⟩

theorem words_flat_alternative (small : limit < maxCount) (before : List Tree) {inside : List Tree}
    (after : List Tree) (filled : inside ≠ []) :
    (alternative (before ++ [alternative inside] ++ after)).words limit = .ok words ↔
      (alternative (before ++ inside ++ after)).words limit = .ok words := by
  simp only [Tree.words, wordsOfEach_append, bind_eq_ok_iff, wordsOfEach_flat small filled]

end Tree

namespace Pattern

open TokenPattern.Tree

variable {before inside after : List Pattern} {inner nested : Pattern}

/-- Either of two patterns may stand for the other: they take the same tokens, can be as long, and are
expanded to the same words in the same order, or not at all. -/
structure Interchangeable (first second : Pattern) : Prop where
  bounds_eq : first.bounds = second.bounds
  matchAt_eq : ∀ options tokens offset,
    Matcher.matchAt ⟨first, options⟩ tokens offset = Matcher.matchAt ⟨second, options⟩ tokens offset
  expansion_iff : ∀ limit < maxCount, ∀ words,
    first.expandWithin limit = .ok words ↔ second.expandWithin limit = .ok words

theorem interchangeable_of_trees {first second : Pattern}
    (languages : first.tree.language = second.tree.language)
    (taken : ∀ ignoreCase ahead,
      first.tree.consume ignoreCase ahead = second.tree.consume ignoreCase ahead)
    (listed : ∀ limit < maxCount, ∀ words,
      first.tree.words limit = .ok words ↔ second.tree.words limit = .ok words) :
    Interchangeable first second where
  bounds_eq := by
    have tight := bounds_tight first.wellFormed
    rw [languages] at tight
    rw [first.bounds_eq, second.bounds_eq]
    exact tight.unique (bounds_tight second.wellFormed)
  matchAt_eq := by
    intro options tokens offset
    simp only [Matcher.matchAt, Matcher.consume, taken]
  expansion_iff := by
    intro limit small words
    simp only [expandWithin_eq_ok_iff, listed limit small]

theorem depthAbove_le_iff {parts : List Pattern} :
    depthAbove parts ≤ maxDepth ↔ ∀ part ∈ parts, part.depth < maxDepth := by
  have greatest : (parts.map depth).foldr max 0 < maxDepth ↔
      ∀ part ∈ parts, part.depth < maxDepth := by
    induction parts with
    | nil => simp [maxDepth]
    | cons part parts rest => simp [rest]
  rw [← greatest, depthAbove]
  omega

theorem exists_above_iff {parts : List Pattern} {tree : Tree} {bounds : LengthBounds}
    {wellFormed : tree.WellFormed} {children : tree.children = parts.map Pattern.tree}
    {bounds_eq : bounds = tree.bounds} :
    (∃ whole, above parts tree bounds wellFormed children bounds_eq = .ok whole) ↔
      ∀ part ∈ parts, part.depth < maxDepth := by
  rw [← depthAbove_le_iff, above]
  by_cases shallow : depthAbove parts ≤ maxDepth <;> simp [shallow]

structure Builds (build : List Pattern → Except BuildError Pattern) (node : List Tree → Tree) :
    Prop where
  children : ∀ parts, (node parts).children = parts
  shape : ∀ items whole, build items = .ok whole → whole.tree = node (items.map tree)
  succeeds : ∀ items, (∃ whole, build items = .ok whole) ↔
    items ≠ [] ∧ ∀ item ∈ items, item.depth < maxDepth

theorem sequence_builds : Builds sequence .sequence where
  children := fun parts => rfl
  shape := fun items whole => (sequence_settled items).shape
  succeeds := by
    intro items
    rw [sequence]
    by_cases filled : items = []
    · simp [filled]
    · rw [dif_neg filled, and_iff_right filled]
      exact exists_above_iff

theorem alternative_builds : Builds alternative .alternative where
  children := fun parts => rfl
  shape := fun choices whole => (alternative_settled choices).shape
  succeeds := by
    intro choices
    rw [alternative]
    by_cases filled : choices = []
    · simp [filled]
    · rw [dif_neg filled, and_iff_right filled]
      exact exists_above_iff

/-- If a list within a list can be built, then so can the flat list: the parts of the inner list are
less deep than this list itself. -/
theorem Builds.flat {build : List Pattern → Except BuildError Pattern} {node : List Tree → Tree}
    (builds : Builds build node) (single : build inside = .ok inner)
    (built : build (before ++ [inner] ++ after) = .ok nested) :
    inside ≠ [] ∧
      nested.tree = node (before.map tree ++ [node (inside.map tree)] ++ after.map tree) ∧
      ∃ flat, build (before ++ inside ++ after) = .ok flat ∧
        flat.tree = node (before.map tree ++ inside.map tree ++ after.map tree) := by
  have filled := ((builds.succeeds inside).mp ⟨inner, single⟩).1
  have depths := ((builds.succeeds _).mp ⟨nested, built⟩).2
  have below : ∀ item ∈ inside, item.depth ≤ inner.depth := by
    intro item member
    rw [item.depth_eq, inner.depth_eq]
    apply height_le_of_mem_children
    rw [builds.shape inside inner single, builds.children]
    exact List.mem_map_of_mem member
  have shallow : ∀ item ∈ before ++ inside ++ after, item.depth < maxDepth := by
    simp only [List.forall_mem_append, List.forall_mem_singleton] at depths ⊢
    obtain ⟨⟨front, middle⟩, back⟩ := depths
    exact ⟨⟨front, fun item member => Nat.lt_of_le_of_lt (below item member) middle⟩, back⟩
  obtain ⟨flat, flattened⟩ := (builds.succeeds _).mpr ⟨by simp [filled], shallow⟩
  refine ⟨filled, ?_, flat, flattened, ?_⟩
  · rw [builds.shape _ nested built, ← builds.shape inside inner single]
    simp
  · rw [builds.shape _ flat flattened]
    simp

theorem Builds.interchangeable {build : List Pattern → Except BuildError Pattern}
    {node : List Tree → Tree} (builds : Builds build node)
    (languages : ∀ before inside after,
      (node (before ++ [node inside] ++ after)).language =
        (node (before ++ inside ++ after)).language)
    (taken : ∀ before inside after ignoreCase ahead,
      (node (before ++ [node inside] ++ after)).consume ignoreCase ahead =
        (node (before ++ inside ++ after)).consume ignoreCase ahead)
    (listed : ∀ before inside after, inside ≠ [] → (∀ item ∈ before, item.WellFormed) →
      (∀ item ∈ inside, item.WellFormed) → ∀ limit < maxCount, ∀ words,
        (node (before ++ [node inside] ++ after)).words limit = .ok words ↔
          (node (before ++ inside ++ after)).words limit = .ok words)
    (single : build inside = .ok inner)
    (built : build (before ++ [inner] ++ after) = .ok nested) :
    ∃ flat, build (before ++ inside ++ after) = .ok flat ∧ Interchangeable nested flat := by
  obtain ⟨filled, nestedTree, flat, flattened, flatTree⟩ := builds.flat single built
  refine ⟨flat, flattened, interchangeable_of_trees ?_ ?_ ?_⟩
  · rw [nestedTree, flatTree]
    exact languages _ _ _
  · intro ignoreCase ahead
    rw [nestedTree, flatTree]
    exact taken _ _ _ ignoreCase ahead
  · rw [nestedTree, flatTree]
    have parts : inside.map tree ≠ [] := by simpa using filled
    exact listed _ _ _ parts (wellFormed_each before) (wellFormed_each inside)

theorem sequence_flat (single : sequence inside = .ok inner)
    (built : sequence (before ++ [inner] ++ after) = .ok nested) :
    ∃ flat, sequence (before ++ inside ++ after) = .ok flat ∧ Interchangeable nested flat := by
  apply sequence_builds.interchangeable _ _ _ single built
  · exact language_flat_sequence
  · intro before inside after ignoreCase
    exact consume_flat_sequence before inside after
  · intro before inside after filled front middle limit small words
    exact words_flat_sequence small after filled front middle

theorem alternative_flat (single : alternative inside = .ok inner)
    (built : alternative (before ++ [inner] ++ after) = .ok nested) :
    ∃ flat, alternative (before ++ inside ++ after) = .ok flat ∧ Interchangeable nested flat := by
  apply alternative_builds.interchangeable _ _ _ single built
  · exact language_flat_alternative
  · intro before inside after ignoreCase
    exact consume_flat_alternative before inside after
  · intro before inside after filled _ _ limit small words
    exact words_flat_alternative small before after filled

theorem flattening_interchangeable (before inside after : List Pattern) (inner nested : Pattern) :
    (sequence inside = .ok inner → sequence (before ++ [inner] ++ after) = .ok nested →
      ∃ flat, sequence (before ++ inside ++ after) = .ok flat ∧ Interchangeable nested flat) ∧
    (alternative inside = .ok inner → alternative (before ++ [inner] ++ after) = .ok nested →
      ∃ flat, alternative (before ++ inside ++ after) = .ok flat ∧ Interchangeable nested flat) :=
  ⟨sequence_flat, alternative_flat⟩

theorem maybeAny_flattened :
    ∃ maybe pair long either wide,
      any.optional = .ok maybe ∧ sequence [maybe, any] = .ok pair ∧
      sequence ([any] ++ [pair] ++ [maybe]) = .ok long ∧
      (∃ flat, sequence ([any] ++ [maybe, any] ++ [maybe]) = .ok flat ∧
        Interchangeable long flat) ∧
      alternative [maybe, any] = .ok either ∧ alternative ([any] ++ [either] ++ []) = .ok wide ∧
      ∃ flat, alternative ([any] ++ [maybe, any] ++ []) = .ok flat ∧ Interchangeable wide flat := by
  refine ⟨_, _, _, _, _, rfl, rfl, rfl, ?_, rfl, rfl, ?_⟩
  · exact (flattening_interchangeable [any] _ _ _ _).1 rfl rfl
  · exact (flattening_interchangeable [any] _ [] _ _).2 rfl rfl

end Pattern

end TokenPattern
