import TokenPattern.Proofs.Collapse
import TokenPattern.Proofs.QuotedText
import TokenPattern.Tree.Display

/-!
Reading the short form back, with a stack of what is still open around the place that has been
reached. Round brackets around one item are not told apart from a list of that item, and everything
else is, so the form is read as the collapsed tree. A category must be a word, or it could not be
told where it ends.
-/

namespace TokenPattern

open Text

def isWordChar (c : Char) : Bool := c.isAlphanum || c == '_'

/-- A word that is not the sign for any token. -/
structure IsName (category : String) : Prop where
  filled : category.toList ≠ []
  word : ∀ c ∈ category.toList, isWordChar c = true
  notAny : category ≠ "_"

theorem isName_iff (category : String) :
    (category.toList ≠ [] ∧ category.toList.all isWordChar = true ∧ category ≠ "_") ↔
      IsName category := by
  rw [List.all_eq_true]
  exact ⟨fun parts => ⟨parts.1, parts.2.1, parts.2.2⟩, fun name => ⟨name.1, name.2, name.3⟩⟩

instance (category : String) : Decidable (IsName category) :=
  decidable_of_iff _ (isName_iff category)

example : ∀ category ∈ [Category.keyword, Category.identifier, Category.number, Category.string,
    Category.symbol, Category.delimiter], IsName category := by decide

namespace Tree

mutual

def categories : Tree → List String
  | .token spec => [spec.category]
  | .any => []
  | .sequence items => categoriesOfAll items
  | .alternative choices => categoriesOfAll choices
  | .optional item => item.categories
  | .repetition item _ => item.categories
  | .negation item => item.categories

def categoriesOfAll : List Tree → List String
  | [] => []
  | item :: items => item.categories ++ categoriesOfAll items

end

@[simp] theorem categoriesOfAll_eq (items : List Tree) :
    categoriesOfAll items = items.flatMap categories := by
  induction items with
  | nil => rfl
  | cons item items each => simp [categoriesOfAll, each]

def Named (tree : Tree) : Prop := ∀ category ∈ tree.categories, IsName category

instance (tree : Tree) : Decidable tree.Named :=
  inferInstanceAs (Decidable (∀ category ∈ tree.categories, IsName category))

theorem named_sequence (items : List Tree) :
    (sequence items).Named ↔ ∀ item ∈ items, item.Named := by
  simp only [Named, categories, categoriesOfAll_eq, List.mem_flatMap]
  constructor
  · intro named item member category inside
    exact named category ⟨item, member, inside⟩
  · intro each category inside
    rcases inside with ⟨item, member, inside⟩
    exact each item member category inside

theorem named_alternative (choices : List Tree) :
    (alternative choices).Named ↔ ∀ choice ∈ choices, choice.Named := by
  simpa only [Named, categories] using named_sequence choices

end Tree

inductive Lexeme where
  | word (spec : TokenSpec)
  | times (times : RepeatBounds)
  | negation
  | beginOption
  | endOption
  | beginList
  | endList
  | space
  | bar

namespace Lexeme

def ofWord (chars : List Char) : Option (Lexeme × List Char) :=
  let category := String.ofList (chars.takeWhile isWordChar)
  match chars.dropWhile isWordChar with
  | '(' :: '"' :: rest =>
      match readText rest with
      | some (value, ')' :: rest) => some (.word ⟨category, some (String.ofList value)⟩, rest)
      | _ => none
  | rest => some (.word ⟨category, none⟩, rest)

def number (chars : List Char) : Option Nat × List Char :=
  let digits := chars.takeWhile Char.isDigit
  (if digits = [] then none else some (Nat.ofDigitChars 10 digits 0), chars.dropWhile Char.isDigit)

def ofTimes (chars : List Char) : Option (Lexeme × List Char) :=
  match number chars with
  | (some min, '\x7d' :: rest) => some (.times ⟨min, some min⟩, rest)
  | (some min, ',' :: rest) =>
      match number rest with
      | (max, '\x7d' :: rest) => some (.times ⟨min, max⟩, rest)
      | _ => none
  | _ => none

def ofChar : Char → Option Lexeme
  | '!' => some .negation
  | '[' => some .beginOption
  | ']' => some .endOption
  | '(' => some .beginList
  | ')' => some .endList
  | ' ' => some .space
  | '|' => some .bar
  | _ => none

def next : List Char → Option (Lexeme × List Char)
  | [] => none
  | c :: rest =>
      if isWordChar c then ofWord (c :: rest)
      else if c = '\x7b' then ofTimes rest
      else (ofChar c).map (·, rest)

end Lexeme

inductive Frame where
  | negation
  | option
  /-- A list with the items read so far; `alternative` tells whether a bar came between them. -/
  | list (alternative : Bool) (items : List Tree)

/-- The frames around a place, the innermost first, and the tree that ends there, if one does. -/
structure Reader where
  frames : List Frame
  last : Option Tree

namespace Reader

def kind (alternative : Bool) : List Tree → Tree :=
  if alternative then .alternative else .sequence

/-- Behind a tree the negations that wait for it are complete. -/
def complete : List Frame → Tree → Reader
  | .negation :: frames, tree => complete frames (.negation tree)
  | frames, tree => ⟨frames, some tree⟩

def leaf (spec : TokenSpec) : Tree := if spec = ⟨"_", none⟩ then .any else .token spec

def step : Reader → Lexeme → Option Reader
  | ⟨frames, none⟩, .word spec => some (complete frames (leaf spec))
  | ⟨frames, none⟩, .negation => some ⟨.negation :: frames, none⟩
  | ⟨frames, none⟩, .beginOption => some ⟨.option :: frames, none⟩
  | ⟨frames, none⟩, .beginList => some ⟨.list false [] :: frames, none⟩
  | ⟨frames, some tree⟩, .times times => some ⟨frames, some (.repetition tree times)⟩
  | ⟨.option :: frames, some tree⟩, .endOption => some (complete frames (.optional tree))
  | ⟨.list alternative items :: frames, some tree⟩, .endList =>
      some (complete frames (Tree.joined (kind alternative) (items ++ [tree])))
  | ⟨.list alternative items :: frames, some tree⟩, .space =>
      some ⟨.list alternative (items ++ [tree]) :: frames, none⟩
  | ⟨.list _ items :: frames, none⟩, .bar => some ⟨.list true items :: frames, none⟩
  -- the space behind a bar
  | ⟨.list true items :: frames, none⟩, .space => some ⟨.list true items :: frames, none⟩
  | _, _ => none

def run (reader : Reader) (chars : List Char) : Option Reader :=
  match chars with
  | [] => some reader
  | c :: chars =>
      match Lexeme.next (c :: chars) with
      | none => none
      | some (lexeme, rest) =>
          if _shorter : rest.length < (c :: chars).length then
            (reader.step lexeme).bind fun moved => moved.run rest
          else
            none
termination_by chars.length
decreasing_by exact _shorter

end Reader

def Tree.read? (chars : List Char) : Option Tree :=
  match Reader.run ⟨[], none⟩ chars with
  | some ⟨[], some tree⟩ => some tree
  | _ => none

/-- The rest cannot be taken for a part of a word in front of it. -/
def Ends (rest : List Char) : Prop := ∀ c ∈ rest.head?, isWordChar c = false ∧ c ≠ '('

theorem ends_cons {c : Char} {rest : List Char} (mark : isWordChar c = false) (other : c ≠ '(') :
    Ends (c :: rest) := by
  intro head same
  rw [List.head?_cons, Option.mem_some_iff] at same
  subst same
  exact ⟨mark, other⟩

theorem RepeatBounds.display_eq_cons (times : RepeatBounds) :
    ∃ more, times.display = '\x7b' :: more := by
  rw [display]
  split
  · exact ⟨_, rfl⟩
  · split <;> exact ⟨_, rfl⟩

namespace Lexeme

theorem takeWhile_dropWhile {p : Char → Bool} {word : List Char} (all : ∀ c ∈ word, p c = true)
    (rest : List Char) (ends : ∀ c ∈ rest.head?, p c = false) :
    (word ++ rest).takeWhile p = word ∧ (word ++ rest).dropWhile p = rest := by
  rw [List.takeWhile_append_of_pos all, List.dropWhile_append_of_pos all]
  cases rest with
  | nil => simp
  | cons c rest =>
      have stop : p c = false := ends c (by simp)
      simp [stop]

theorem ofWord_kind {category : String} (word : ∀ c ∈ category.toList, isWordChar c = true)
    {rest : List Char} (ends : Ends rest) :
    ofWord (category.toList ++ rest) = some (.word ⟨category, none⟩, rest) := by
  have cut := takeWhile_dropWhile word rest fun c head => (ends c head).1
  rw [ofWord, cut.1, cut.2, String.ofList_toList]
  split
  · exact absurd rfl (ends '(' (by simp)).2
  · rfl

theorem ofWord_valued {category : String} (word : ∀ c ∈ category.toList, isWordChar c = true)
    (value : String) (rest : List Char) :
    ofWord (category.toList ++ '(' :: quoted value ++ ')' :: rest) =
      some (.word ⟨category, some value⟩, rest) := by
  have cut := takeWhile_dropWhile word ('(' :: quoted value ++ ')' :: rest)
    (by simp [isWordChar])
  rw [List.append_assoc, ofWord, cut.1, cut.2, String.ofList_toList]
  simp [quoted, readText_quoted]

theorem next_display {spec : TokenSpec} (filled : spec.category.toList ≠ [])
    (word : ∀ c ∈ spec.category.toList, isWordChar c = true) {rest : List Char} (ends : Ends rest) :
    next (spec.display ++ rest) = some (.word spec, rest) := by
  have begins : ∀ more, next (spec.category.toList ++ more) =
      ofWord (spec.category.toList ++ more) := by
    intro more
    cases letters : spec.category.toList with
    | nil => exact absurd letters filled
    | cons c letters =>
        have first : isWordChar c = true := word c (by simp [letters])
        rw [List.cons_append, next, if_pos first]
  rcases spec with ⟨category, value⟩
  cases value with
  | none => exact (begins rest).trans (ofWord_kind word ends)
  | some value =>
      have written : (TokenSpec.display ⟨category, some value⟩) ++ rest =
          category.toList ++ ('(' :: quoted value ++ ')' :: rest) := by
        simp [TokenSpec.display]
      rw [written, begins, ← List.append_assoc]
      exact ofWord_valued word value rest

theorem number_decimal (count : Nat) (c : Char) (stop : c.isDigit = false) (rest : List Char) :
    number (decimal count ++ c :: rest) = (some count, c :: rest) := by
  have digits : ∀ d ∈ decimal count, d.isDigit = true :=
    fun d member => Nat.isDigit_of_mem_toDigits (by decide) (by decide) member
  have cut := takeWhile_dropWhile digits (c :: rest) (by simpa using stop)
  have filled : decimal count ≠ [] := Nat.toDigits_ne_nil
  rw [number, cut.1, cut.2, if_neg filled, decimal, Nat.ofDigitChars_ten_toDigits]

theorem ofTimes_exact (count : Nat) (rest : List Char) :
    ofTimes (decimal count ++ '\x7d' :: rest) = some (.times ⟨count, some count⟩, rest) := by
  rw [ofTimes, number_decimal count _ rfl]
  rfl

theorem ofTimes_from (min : Nat) (rest : List Char) :
    ofTimes (decimal min ++ ',' :: '\x7d' :: rest) = some (.times ⟨min, none⟩, rest) := by
  rw [ofTimes, number_decimal min _ rfl]
  rfl

theorem ofTimes_between (min max : Nat) (rest : List Char) :
    ofTimes (decimal min ++ ',' :: (decimal max ++ '\x7d' :: rest)) =
      some (.times ⟨min, some max⟩, rest) := by
  have second := number_decimal max '\x7d' rfl rest
  rw [ofTimes, number_decimal min _ rfl]
  simp only [second]

theorem next_times (times : RepeatBounds) (rest : List Char) :
    next (times.display ++ rest) = some (.times times, rest) := by
  have begins : ∀ more, next ('\x7b' :: more) = ofTimes more := fun more => rfl
  rcases times with ⟨min, max⟩
  cases max with
  | none => simpa [RepeatBounds.display, begins] using ofTimes_from min rest
  | some max =>
      by_cases same : min = max
      · simpa [RepeatBounds.display, begins, same] using ofTimes_exact max rest
      · simpa [RepeatBounds.display, begins, same] using ofTimes_between min max rest

end Lexeme

namespace Reader

theorem run_next {chars rest : List Char} {lexeme : Lexeme}
    (found : Lexeme.next chars = some (lexeme, rest)) (shorter : rest.length < chars.length)
    (reader : Reader) :
    reader.run chars = (reader.step lexeme).bind fun moved => moved.run rest := by
  cases chars with
  | nil => simp at shorter
  | cons c chars =>
      rw [run, found]
      exact dif_pos shorter

theorem run_mark {c : Char} {rest : List Char} {lexeme : Lexeme} {reader moved : Reader}
    (found : Lexeme.next (c :: rest) = some (lexeme, rest))
    (stepped : reader.step lexeme = some moved) : reader.run (c :: rest) = moved.run rest := by
  rw [run_next found (Nat.lt_succ_self _), stepped, Option.bind_some]

theorem complete_of_ne {frames : List Frame} (settled : frames.head? ≠ some .negation)
    (tree : Tree) : complete frames tree = ⟨frames, some tree⟩ := by
  cases frames with
  | nil => rfl
  | cons frame frames => cases frame <;> simp_all [complete]

/-- Behind the form of the tree the reader is where the collapsed tree would take it. A repetition
is not read where a negation waits for its item, since there it is displayed in brackets. -/
def Readable (tree : Tree) : Prop :=
  ∀ frames rest, (tree.isRepetition = true → frames.head? ≠ some .negation) → Ends rest →
    run ⟨frames, none⟩ (tree.display ++ rest) = (complete frames tree.collapse).run rest

def separator (alternative : Bool) : List Char := if alternative then [' ', '|', ' '] else [' ']

theorem run_separator (alternative flag : Bool) (items : List Tree) (tree : Tree)
    (frames : List Frame) (rest : List Char) :
    run ⟨.list flag items :: frames, some tree⟩ (separator alternative ++ rest) =
      run ⟨.list (flag || alternative) (items ++ [tree]) :: frames, none⟩ rest := by
  have space : ∀ more, run ⟨.list flag items :: frames, some tree⟩ (' ' :: more) =
      run ⟨.list flag (items ++ [tree]) :: frames, none⟩ more := fun more => run_mark rfl rfl
  cases alternative with
  | false =>
      rw [Bool.or_false]
      exact space rest
  | true =>
      rw [Bool.or_true]
      calc
        _ = run ⟨.list flag (items ++ [tree]) :: frames, none⟩ ('|' :: ' ' :: rest) := space _
        _ = run ⟨.list true (items ++ [tree]) :: frames, none⟩ (' ' :: rest) := run_mark rfl rfl
        _ = run ⟨.list true (items ++ [tree]) :: frames, none⟩ rest := run_mark rfl rfl

/-- The items of a list are read up to its closing bracket, after those that are `done`. -/
theorem run_items (alternative : Bool) (items : List Tree) (filled : items ≠ [])
    (each : ∀ item ∈ items, Readable item) : ∀ (done : List Tree) frames rest,
      run ⟨.list (alternative && !done.isEmpty) done :: frames, none⟩
          ((separator alternative).intercalate (items.map Tree.display) ++ ')' :: rest) =
        (complete frames
          (Tree.joined (kind alternative) (done ++ items.map Tree.collapse))).run rest := by
  induction items with
  | nil => exact absurd rfl filled
  | cons item items later =>
      intro done frames rest
      have head := each item List.mem_cons_self
      cases items with
      | nil =>
          have closing : Ends (')' :: rest) := ends_cons rfl (by decide)
          have same : Tree.joined (kind (alternative && !done.isEmpty)) (done ++ [item.collapse]) =
              Tree.joined (kind alternative) (done ++ [item.collapse]) := by
            cases done with
            | nil => rfl
            | cons first done => simp
          rw [List.map_singleton, List.map_singleton, List.intercalate_singleton,
            head _ _ (by simp) closing, complete_of_ne (by simp), ← same]
          exact run_mark rfl rfl
      | cons following items =>
          have apart : Ends (separator alternative ++
              ((separator alternative).intercalate ((following :: items).map Tree.display) ++
                ')' :: rest)) := by
            cases alternative <;> exact ends_cons rfl (by decide)
          have flag : (alternative && !done.isEmpty || alternative) =
              (alternative && !(done ++ [item.collapse]).isEmpty) := by
            cases alternative <;> simp
          have tail := later (by simp) (fun item member => each item (List.mem_cons_of_mem _ member))
            (done ++ [item.collapse]) frames rest
          rw [List.map_cons, List.map_cons, List.intercalate_cons_cons, ← List.map_cons,
            List.append_assoc, List.append_assoc, head _ _ (by simp) apart,
            complete_of_ne (by simp), run_separator, flag, tail, List.append_assoc]
          rfl

theorem run_grouped {item : Tree} (readable : Readable item) (needed : Bool) (frames : List Frame)
    (alone : needed = false → item.isRepetition = true → frames.head? ≠ some .negation)
    {rest : List Char} (ends : Ends rest) :
    run ⟨frames, none⟩ (Tree.grouped needed item.display ++ rest) =
      (complete frames item.collapse).run rest := by
  cases needed with
  | false => exact readable frames rest (alone rfl) ends
  | true =>
      have items := run_items false [item] (by simp) (by simpa using readable) [] frames rest
      rw [List.map_singleton, List.map_singleton, List.intercalate_singleton] at items
      have grouped : Tree.grouped true item.display ++ rest =
          '(' :: (item.display ++ ')' :: rest) := by
        simp [Tree.grouped]
      rw [grouped]
      exact (run_mark rfl rfl).trans items

theorem run_list (alternative : Bool) {items : List Tree} (filled : items ≠ [])
    (each : ∀ item ∈ items, Readable item) (frames : List Frame) (rest : List Char) :
    run ⟨frames, none⟩
        ('(' :: (separator alternative).intercalate (items.map Tree.display) ++ [')'] ++ rest) =
      (complete frames (Tree.joined (kind alternative) (items.map Tree.collapse))).run rest := by
  have inside := run_items alternative items filled each [] frames rest
  rw [List.isEmpty_nil, Bool.not_true, Bool.and_false] at inside
  rw [List.append_assoc, List.singleton_append, List.cons_append]
  exact (run_mark rfl rfl).trans inside

theorem run_times (tree : Tree) (times : RepeatBounds) (frames : List Frame) (rest : List Char) :
    run ⟨frames, some tree⟩ (times.display ++ rest) =
      run ⟨frames, some (.repetition tree times)⟩ rest := by
  have shorter : rest.length < (times.display ++ rest).length := by
    obtain ⟨more, brace⟩ := times.display_eq_cons
    rw [brace, List.cons_append, List.length_cons, List.length_append]
    omega
  rw [run_next (Lexeme.next_times times rest) shorter, step, Option.bind_some]

theorem run_word (spec : TokenSpec) (filled : spec.category.toList ≠ [])
    (word : ∀ c ∈ spec.category.toList, isWordChar c = true) (frames : List Frame)
    {rest : List Char} (ends : Ends rest) :
    run ⟨frames, none⟩ (spec.display ++ rest) = (complete frames (leaf spec)).run rest := by
  have shorter : rest.length < (spec.display ++ rest).length := by
    rcases spec with ⟨category, value⟩
    have positive : 0 < category.toList.length := List.length_pos_of_ne_nil filled
    cases value <;> simp only [TokenSpec.display, List.length_append, List.length_cons] <;> omega
  rw [run_next (Lexeme.next_display filled word ends) shorter, step, Option.bind_some]

theorem readable {tree : Tree} (wellFormed : tree.WellFormed) (named : tree.Named) :
    Readable tree := by
  induction wellFormed with
  | token spec =>
      intro frames rest _ ends
      have name : IsName spec.category := named spec.category (by simp [Tree.categories])
      have leaf : leaf spec = .token spec := by
        apply if_neg
        intro same
        exact name.notAny (congrArg TokenSpec.category same)
      rw [Tree.display, Tree.collapse, ← leaf]
      exact run_word spec name.filled name.word frames ends
  | any =>
      intro frames rest _ ends
      exact run_word ⟨"_", none⟩ (by simp) (by simp [isWordChar]) frames ends
  | @sequence items filled wellFormed each =>
      intro frames rest _ ends
      have named := (Tree.named_sequence items).mp named
      have parts : ∀ item ∈ items, Readable item :=
        fun item member => each item member (named item member)
      rw [Tree.display, Tree.displayAll_eq, Tree.collapse_sequence]
      exact run_list false filled parts frames rest
  | @alternative choices filled wellFormed each =>
      intro frames rest _ ends
      have named := (Tree.named_alternative choices).mp named
      have parts : ∀ choice ∈ choices, Readable choice :=
        fun choice member => each choice member (named choice member)
      rw [Tree.display, Tree.displayAll_eq, Tree.collapse_alternative]
      exact run_list true filled parts frames rest
  | @optional item inner readable =>
      intro frames rest _ ends
      have closing : Ends (']' :: rest) := ends_cons rfl (by decide)
      have inside := readable named (.option :: frames) _ (by simp) closing
      rw [Tree.display, List.append_assoc, List.singleton_append, List.cons_append]
      calc
        _ = run ⟨.option :: frames, none⟩ (item.display ++ ']' :: rest) := run_mark rfl rfl
        _ = run ⟨.option :: frames, some item.collapse⟩ (']' :: rest) := inside
        _ = (complete frames (.optional item.collapse)).run rest := run_mark rfl rfl
  | @repetition item times ordered bounded inner readable =>
      intro frames rest single ends
      have settled : frames.head? ≠ some .negation := single rfl
      have brace : Ends (times.display ++ rest) := by
        obtain ⟨more, brace⟩ := times.display_eq_cons
        rw [brace]
        exact ends_cons rfl (by decide)
      have inside := run_grouped (readable named) item.isNegation frames (fun _ _ => settled) brace
      rw [Tree.display, List.append_assoc, inside, complete_of_ne settled, run_times,
        complete_of_ne settled]
      rfl
  | @negation item inner readable =>
      intro frames rest _ ends
      have inside := run_grouped (readable named) item.isRepetition (.negation :: frames)
        (fun bare repeated => absurd (bare.symm.trans repeated) Bool.false_ne_true) ends
      rw [Tree.display, List.cons_append]
      exact (run_mark rfl rfl).trans inside

end Reader

theorem Tree.read?_display {tree : Tree} (wellFormed : tree.WellFormed) (named : tree.Named) :
    read? tree.display = some tree.collapse := by
  have all := Reader.readable wellFormed named [] [] (by simp) (by simp [Ends])
  rw [List.append_nil] at all
  rw [read?, all, Reader.run]
  rfl

/-- Patterns that are displayed alike differ at most in lists of one item. They can take the same
numbers of tokens, and match the same tokens in the same way. -/
theorem Pattern.display_faithful (first second : Pattern) (firstNamed : first.tree.Named)
    (secondNamed : second.tree.Named) (alike : first.tree.display = second.tree.display) :
    first.tree.collapse = second.tree.collapse ∧ first.bounds = second.bounds ∧
      ∀ options tokens offset, Matcher.matchAt ⟨first, options⟩ tokens offset =
        Matcher.matchAt ⟨second, options⟩ tokens offset := by
  have same : first.tree.collapse = second.tree.collapse := by
    apply Option.some.inj
    rw [← Tree.read?_display first.wellFormed firstNamed, alike,
      Tree.read?_display second.wellFormed secondNamed]
  refine ⟨same, ?_, ?_⟩
  · rw [first.bounds_eq, second.bounds_eq, ← Tree.bounds_collapse first.wellFormed, same,
      Tree.bounds_collapse second.wellFormed]
  · intro options tokens offset
    have taken : ∀ ahead, Matcher.consume ⟨first, options⟩ ahead =
        Matcher.consume ⟨second, options⟩ ahead := by
      intro ahead
      rw [Matcher.consume, Matcher.consume, ← Tree.consume_collapse, same, Tree.consume_collapse]
    simp only [Matcher.matchAt, taken]

def twice : Tree := .repetition (.token ⟨Category.string, some "a\"b"⟩) ⟨2, some 2⟩

def noneTwice : Pattern := .built (.repetition (.negation twice) ⟨1, some 3⟩) rfl

/-- Lists of one item where `noneTwice` is displayed in brackets. -/
def noneTwiceListed : Pattern :=
  .built (.repetition (.sequence [.negation (.alternative [twice])]) ⟨1, some 3⟩) rfl

theorem noneTwice_display_faithful :
    noneTwiceListed.tree.Named ∧ noneTwice.tree.Named ∧
      noneTwiceListed.tree.display = noneTwice.tree.display ∧
      noneTwiceListed.tree.collapse = noneTwice.tree.collapse ∧
      noneTwiceListed.bounds = noneTwice.bounds ∧
      ∀ options tokens offset, Matcher.matchAt ⟨noneTwiceListed, options⟩ tokens offset =
        Matcher.matchAt ⟨noneTwice, options⟩ tokens offset := by
  have listedNamed : noneTwiceListed.tree.Named := by decide
  have named : noneTwice.tree.Named := by decide
  have alike : noneTwiceListed.tree.display = noneTwice.tree.display := by decide +kernel
  exact ⟨listedNamed, named, alike, Pattern.display_faithful _ _ listedNamed named alike⟩

end TokenPattern
