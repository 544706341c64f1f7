import TokenPattern.Proofs.Acceptance
import TokenPattern.Proofs.Tightness

/-!
Matching commits to choices, and so it can miss a word that the tokens ahead accept. It misses none if
all words of the language have the same length: then so have the words of every part that is matched
at all, and whatever a part takes, what follows starts at the same place.
-/

namespace TokenPattern

def OfLength (length : Nat) (language : Language Element) : Prop :=
  ∀ word ∈ language, word.length = length

variable {ignoreCase : Bool}

section Words

variable {language other : Language Element}

namespace OfLength

variable {length : Nat}

theorem of_mul_left (whole : OfLength length (language * other)) {head tail : Word}
    (headMember : head ∈ language) (tailMember : tail ∈ other) :
    OfLength head.length language := by
  intro word member
  have mine := whole _ (Language.append_mem_mul member tailMember)
  have yours := whole _ (Language.append_mem_mul headMember tailMember)
  rw [List.length_append] at mine yours
  omega

theorem of_mul_right (whole : OfLength length (language * other)) {head tail : Word}
    (headMember : head ∈ language) (tailMember : tail ∈ other) :
    OfLength tail.length other := by
  intro word member
  have mine := whole _ (Language.append_mem_mul headMember member)
  have yours := whole _ (Language.append_mem_mul headMember tailMember)
  rw [List.length_append] at mine yours
  omega

theorem of_pow {count : Nat} (whole : OfLength length (language ^ count)) (positive : count ≠ 0) :
    OfLength (length / count) language := by
  intro word member
  have power : (List.replicate count word).flatten ∈ language ^ count := by
    apply Language.mem_pow.mpr
    refine ⟨List.replicate count word, rfl, List.length_replicate, ?_⟩
    intro other inside
    rwa [List.eq_of_mem_replicate inside]
  have long : count * word.length = length := by
    rw [← whole _ power, List.length_flatten, List.map_replicate, List.sum_replicate_nat]
  rw [← long, Nat.mul_div_cancel_left _ (Nat.pos_of_ne_zero positive)]

end OfLength

theorem Word.length_le_of_accepts {word : Word} {ahead : List Token}
    (accepted : Word.accepts ignoreCase word ahead = true) : word.length ≤ ahead.length := by
  induction word generalizing ahead with
  | nil => exact Nat.zero_le _
  | cons element word rest =>
      rw [Word.accepts, Bool.and_eq_true] at accepted
      cases ahead with
      | nil => simp [Element.accepts] at accepted
      | cons token ahead => exact Nat.succ_le_succ (rest accepted.2)

namespace Reads

variable {ahead : List Token} {taken length : Nat}

theorem eq_length (fixed : OfLength length language)
    (reads : Reads ignoreCase language ahead taken) : taken = length := by
  rcases reads with ⟨word, member, rfl, -⟩
  exact fixed word member

theorem of_element (element : Element) (reads : Reads ignoreCase {[element]} ahead taken) :
    element.toTree.consume ignoreCase ahead = some taken := by
  rcases reads with ⟨word, rfl, rfl, accepted⟩
  have first : element.accepts ignoreCase ahead = true := by simpa [Word.accepts] using accepted
  rw [Element.consume_toTree, if_pos first]
  rfl

theorem of_mul (reads : Reads ignoreCase (language * other) ahead taken) :
    ∃ head ∈ language, ∃ tail ∈ other, head.length + tail.length = taken ∧
      Reads ignoreCase language ahead head.length ∧
      Reads ignoreCase other (ahead.drop head.length) tail.length := by
  rcases reads with ⟨word, member, rfl, accepted⟩
  rcases Language.mem_mul.mp member with ⟨head, headMember, tail, tailMember, rfl⟩
  rw [Word.accepts_append, Bool.and_eq_true] at accepted
  exact ⟨head, headMember, tail, tailMember, List.length_append.symm,
    ⟨head, headMember, rfl, accepted.1⟩, ⟨tail, tailMember, rfl, accepted.2⟩⟩

theorem le_length (reads : Reads ignoreCase language ahead taken) : taken ≤ ahead.length := by
  rcases reads with ⟨word, -, rfl, accepted⟩
  exact Word.length_le_of_accepts accepted

end Reads

variable {step : List Token → Option Nat} {times : RepeatBounds} {count : Nat}

theorem greedy_of_min_le (reached : times.min ≤ count) (ahead : List Token) :
    ∃ taken, greedy step times count ahead = some taken := by
  have ended : ∀ {count}, times.min ≤ count → times.enough count = some 0 := by simp
  fun_induction greedy step times count ahead with
  | case1 count ahead allowed failed => exact ⟨0, ended reached⟩
  | case2 count ahead allowed matched => exact ⟨0, rfl⟩
  | case3 count allowed more matched => exact ⟨0, ended reached⟩
  | case4 count allowed more token rest matched later =>
      rcases later (Nat.le_succ_of_le reached) with ⟨tail, found⟩
      exact ⟨more + 1 + tail, by rw [found, Option.map_some]⟩
  | case5 count ahead full => exact ⟨0, ended reached⟩

/-- A step that finds every word of its language finds as many of them in a row as are still asked
for. Here `more` is the number of those that lie ahead. -/
theorem greedy_of_reads
    (finds : ∀ ahead taken, Reads ignoreCase language ahead taken → step ahead = some taken)
    (more : Nat) : ∀ count ahead taken, times.Allows (count + more) →
      Reads ignoreCase (language ^ more) ahead taken →
        ∃ total, greedy step times count ahead = some total := by
  induction more with
  | zero => exact fun count ahead taken allowed _ => greedy_of_min_le allowed.1 ahead
  | succ more rest =>
      intro count ahead taken allowed reads
      rw [pow_succ'] at reads
      rcases reads.of_mul with ⟨head, headMember, tail, tailMember, -, front, back⟩
      have again : times.allowsMore count = true := by
        apply RepeatBounds.allowsMore_iff.mpr
        intro max bounded
        have below := allowed.2 max bounded
        omega
      rw [greedy, if_pos again, finds ahead _ front]
      cases long : head.length with
      | zero => exact ⟨0, rfl⟩
      | succ width =>
          have inside := front.le_length
          cases ahead with
          | nil => simp [long] at inside
          | cons token ahead =>
              rw [long, List.drop_succ_cons] at back
              have next : times.Allows (count + 1 + more) := by
                rw [Nat.add_assoc, Nat.add_comm 1]
                exact allowed
              rcases rest (count + 1) _ _ next back with ⟨total, found⟩
              exact ⟨width + 1 + total, by simp only [found, Option.map_some]⟩

theorem RepeatBounds.exists_allowed {times : RepeatBounds}
    (ordered : ∀ max, times.max = some max → times.min ≤ max) (some : times.max ≠ some 0) :
    ∃ count, times.Allows count ∧ count ≠ 0 := by
  cases top : times.max with
  | none => exact ⟨times.min + 1, ⟨by omega, by simp [top]⟩, by omega⟩
  | some max =>
      have positive : max ≠ 0 := fun zero => some (by rw [top, zero])
      exact ⟨max, RepeatBounds.allows_max top (ordered max top), positive⟩

end Words

namespace Tree

theorem consumeAll_of_reads {items : List Tree}
    (each : ∀ item ∈ items, ∀ length, OfLength length item.language →
      ∀ ahead taken, Reads ignoreCase item.language ahead taken →
        item.consume ignoreCase ahead = some taken)
    {length : Nat} (fixed : OfLength length (items.map language).prod) (ahead : List Token) :
    ∀ taken, Reads ignoreCase (items.map language).prod ahead taken →
      consumeAll ignoreCase items ahead = some taken := by
  induction items generalizing length ahead with
  | nil =>
      intro taken reads
      rcases reads with ⟨word, rfl, rfl, -⟩
      rfl
  | cons item items rest =>
      intro taken reads
      rw [List.map_cons, List.prod_cons] at fixed reads
      rcases reads.of_mul with ⟨head, headMember, tail, tailMember, sum, front, back⟩
      have first := each item List.mem_cons_self _ (fixed.of_mul_left headMember tailMember)
      have later := rest (fun item member => each item (List.mem_cons_of_mem _ member))
        (fixed.of_mul_right headMember tailMember)
      rw [consumeAll, first ahead _ front, Option.bind_eq_bind, Option.bind_some,
        later _ _ back, Option.bind_some, sum, Option.pure_def]

/-- If all words of its language have one length, a well-formed tree takes the tokens of any word
that they accept. -/
theorem consume_of_reads (ignoreCase : Bool) {tree : Tree} (wellFormed : tree.WellFormed) :
    ∀ length, OfLength length tree.language → ∀ ahead taken,
      Reads ignoreCase tree.language ahead taken →
        tree.consume ignoreCase ahead = some taken := by
  -- a match of any length is one of the right length
  have settled : ∀ {tree : Tree} {ahead : List Token} {length taken : Nat}, tree.WellFormed →
      OfLength length tree.language → Reads ignoreCase tree.language ahead taken →
        (∃ total, tree.consume ignoreCase ahead = some total) →
          tree.consume ignoreCase ahead = some taken := by
    intro tree ahead length taken wellFormed fixed reads succeeds
    rcases succeeds with ⟨total, matched⟩
    have mine := (consume_reads ignoreCase wellFormed ahead total matched).eq_length fixed
    have yours := reads.eq_length fixed
    rw [matched, mine, yours]
  induction wellFormed with
  | token spec => exact fun length fixed ahead taken => Reads.of_element (.token spec)
  | any => exact fun length fixed ahead taken => Reads.of_element .any
  | @sequence items filled wellFormed each =>
      intro length fixed ahead taken reads
      rw [language_sequence] at fixed reads
      rw [consume]
      exact consumeAll_of_reads each fixed ahead taken reads
  | @alternative choices filled wellFormed each =>
      intro length fixed ahead taken reads
      apply settled (.alternative filled wellFormed) fixed reads
      rcases reads with ⟨word, member, long, accepted⟩
      rcases mem_language_alternative.mp member with ⟨choice, chosen, inside⟩
      have part : OfLength length choice.language :=
        fun word inside => fixed word (mem_language_alternative.mpr ⟨choice, chosen, inside⟩)
      have matched := each choice chosen length part ahead taken ⟨word, inside, long, accepted⟩
      rw [consume, consumeFirst_eq]
      apply Option.isSome_iff_exists.mp
      rw [List.findSome?_isSome_iff]
      exact ⟨choice, chosen, by rw [matched]; rfl⟩
  | @optional item inner matched =>
      intro length fixed ahead taken reads
      apply settled (.optional inner) fixed reads
      exact ⟨_, by rw [consume]⟩
  | @repetition item times ordered ends inner matched =>
      intro length fixed ahead taken reads
      apply settled (.repetition ordered ends inner) fixed reads
      rw [consume]
      by_cases none : times.max = some 0
      · exact greedy_of_min_le (ordered 0 none) ahead
      · -- the item has a fixed length only because it can be repeated at all
        rcases RepeatBounds.exists_allowed ordered none with ⟨most, allowed, positive⟩
        have power : OfLength length (item.language ^ most) :=
          fun word member => fixed word (mem_language_repetition.mpr ⟨most, allowed, member⟩)
        have finds := matched _ (power.of_pow positive)
        rcases reads with ⟨word, member, long, accepted⟩
        rcases mem_language_repetition.mp member with ⟨count, within, inside⟩
        apply greedy_of_reads finds count 0 ahead taken
        · rwa [Nat.zero_add]
        · exact ⟨word, inside, long, accepted⟩
  | @negation item inner matched =>
      exact fun length fixed ahead taken => Reads.of_element (.negation item)

end Tree

namespace Matcher

theorem ofLength_of_bounds {pattern : Pattern}
    (fixed : pattern.bounds.max = some pattern.bounds.min) :
    OfLength pattern.bounds.min pattern.tree.language := by
  intro word member
  have bounded := Tree.bounds_cover pattern.tree word member
  rw [← pattern.bounds_eq, LengthBounds.contains_iff] at bounded
  exact Nat.le_antisymm (bounded.2 _ fixed) bounded.1

/-- A pattern of a fixed length matches exactly where the tokens accept a word of its expansion, and
takes as many of them as its length bounds say. -/
theorem matchAt_fixed_length (matcher : Matcher)
    (fixed : matcher.pattern.bounds.max = some matcher.pattern.bounds.min) (limit : Nat)
    (words : List Word) (expanded : matcher.pattern.expandWithin limit = .ok words)
    (tokens : List Token) (offset : Nat) (inside : offset ≤ tokens.length) (span : Span) :
    matcher.matchAt tokens offset = some span ↔
      span = ⟨offset, matcher.pattern.bounds.min⟩ ∧
        ∃ word ∈ words, ∀ index (below : index < word.length),
          word[index].accepts matcher.options.ignoreCase (tokens.drop (offset + index)) = true := by
  have same := ofLength_of_bounds fixed
  have accepts : ∀ word : Word,
      Word.accepts matcher.options.ignoreCase word (tokens.drop offset) = true ↔
        ∀ index (below : index < word.length),
          word[index].accepts matcher.options.ignoreCase (tokens.drop (offset + index)) = true := by
    intro word
    simp only [Word.accepts_iff, List.drop_drop]
  rw [matchAt_eq_some_iff]
  constructor
  · intro matched
    rcases matched with ⟨start, -, taken⟩
    have reads := Tree.consume_reads _ matcher.pattern.wellFormed _ _ taken
    have width := reads.eq_length same
    rcases reads with ⟨word, member, -, accepted⟩
    refine ⟨?_, word, (Pattern.mem_expandWithin expanded).mpr member, (accepts word).mp accepted⟩
    rw [← start, ← width]
  · intro found
    rcases found with ⟨rfl, word, listed, accepted⟩
    have member := (Pattern.mem_expandWithin expanded).mp listed
    refine ⟨rfl, inside, ?_⟩
    apply Tree.consume_of_reads _ matcher.pattern.wellFormed _ same
    exact ⟨word, member, same word member, (accepts word).mpr accepted⟩

def pairTwice : Tree := .repetition (.alternative [
  .sequence [.token ⟨Category.keyword, none⟩, .negation (.token ⟨Category.keyword, some "END"⟩)],
  .sequence [.any, .any]]) ⟨2, some 2⟩

def twoPairs : Pattern := .built pairTwice rfl

def pairs : List Word :=
  let guarded := [.token ⟨Category.keyword, none⟩, .negation (.token ⟨Category.keyword, some "END"⟩)]
  let free := [.any, .any]
  [guarded ++ guarded, guarded ++ free, free ++ guarded, free ++ free]

def clauses : List Token :=
  [.symbol ";", .keyword "IF", .keyword "END", .keyword "DO", .number "1"]

theorem twoPairs_fixed_length :
    twoPairs.bounds.max = some twoPairs.bounds.min ∧ twoPairs.expandWithin 4 = .ok pairs ∧
      1 ≤ clauses.length ∧ matchAt ⟨twoPairs, {}⟩ clauses 1 = some ⟨1, 4⟩ ∧
      ∃ word ∈ pairs, ∀ index (below : index < word.length),
        word[index].accepts false (clauses.drop (1 + index)) = true := by
  have expanded : twoPairs.expandWithin 4 = .ok pairs := rfl
  have inside : 1 ≤ clauses.length := by decide
  have matched : matchAt ⟨twoPairs, {}⟩ clauses 1 = some ⟨1, 4⟩ := by decide +kernel
  have found := matchAt_fixed_length ⟨twoPairs, {}⟩ rfl 4 pairs expanded clauses 1 inside ⟨1, 4⟩
  exact ⟨rfl, expanded, inside, matched, (found.mp matched).2⟩

end Matcher

end TokenPattern
