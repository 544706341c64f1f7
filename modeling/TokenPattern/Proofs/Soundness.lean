import TokenPattern.Proofs.Acceptance
import TokenPattern.Proofs.Enumeration
import TokenPattern.Proofs.Lengths

namespace TokenPattern

theorem Tree.bounds_contain {tree : Tree} (wellFormed : tree.WellFormed) {ignoreCase : Bool}
    {ahead : List Token} {taken : Nat} (matched : tree.consume ignoreCase ahead = some taken) :
    tree.bounds.contains taken = true := by
  rcases consume_reads ignoreCase wellFormed ahead taken matched with ⟨word, member, rfl, -⟩
  exact tree.bounds_cover word member

theorem Tree.consume_ne_zero {tree : Tree} (wellFormed : tree.WellFormed)
    (positive : tree.bounds.min ≠ 0) (ignoreCase : Bool) (ahead : List Token) :
    tree.consume ignoreCase ahead ≠ some 0 := by
  intro matched
  have covered := LengthBounds.contains_iff.mp (tree.bounds_contain wellFormed matched)
  exact positive (Nat.le_zero.mp covered.1)

theorem Tree.consume_le_max {tree : Tree} (wellFormed : tree.WellFormed) {max : Nat}
    (bounded : tree.bounds.max = some max) {ignoreCase : Bool} {ahead : List Token} {taken : Nat}
    (matched : tree.consume ignoreCase ahead = some taken) : taken ≤ max :=
  (LengthBounds.contains_iff.mp (tree.bounds_contain wellFormed matched)).2 max bounded

namespace Matcher

theorem matchAt_reads {matcher : Matcher} {tokens : List Token} {offset : Nat} {span : Span}
    (matched : matcher.matchAt tokens offset = some span) :
    Reads matcher.options.ignoreCase matcher.pattern.tree.language (tokens.drop offset)
      span.consumed := by
  have taken : matcher.consume (tokens.drop offset) = some span.consumed :=
    (matchAt_eq_some_iff.mp matched).2.2
  apply Tree.consume_reads _ matcher.pattern.wellFormed
  exact taken

/-- Each token of a match is accepted by the element of the same place in some word of the
pattern's language, and no expansion of the pattern leaves this word out. -/
theorem matchAt_reads_listed_word (matcher : Matcher) (tokens : List Token) (offset : Nat)
    (span : Span) (matched : matcher.matchAt tokens offset = some span) :
    ∃ word ∈ matcher.pattern.tree.language,
      word.length = span.consumed ∧
      (∀ index (inside : index < word.length),
        word[index].accepts matcher.options.ignoreCase (tokens.drop (offset + index)) = true) ∧
      ∀ limit words, matcher.pattern.expandWithin limit = .ok words → word ∈ words := by
  obtain ⟨word, member, length, accepted⟩ := matchAt_reads matched
  refine ⟨word, member, length, ?_, ?_⟩
  · intro index inside
    have element := (Word.accepts_iff word _).mp accepted index inside
    rwa [List.drop_drop] at element
  · intro limit words expanded
    apply (Pattern.mem_expandWithin expanded).mpr
    exact member

def othersUntilEnd : Tree := .sequence [
  .repetition (.optional (.negation (.token ⟨Category.keyword, some "END"⟩))) ⟨3, some 4⟩,
  .token ⟨Category.keyword, some "END"⟩]

def untilEnd : Pattern := .built othersUntilEnd rfl

def untilEndWords : List Word :=
  [4, 3, 2, 1, 0].map fun others =>
    List.replicate others (.negation (.token ⟨Category.keyword, some "END"⟩)) ++
      [.token ⟨Category.keyword, some "END"⟩]

theorem untilEnd_reads_listed_word :
    matchAt ⟨untilEnd, {}⟩ [.identifier "x", .keyword "END"] 0 = some ⟨0, 2⟩ ∧
      untilEnd.expandWithin defaultLimit = .ok untilEndWords ∧
      ∃ word ∈ untilEnd.tree.language,
        word.length = 2 ∧
        (∀ index (inside : index < word.length),
          word[index].accepts false ([.identifier "x", .keyword "END"].drop (0 + index)) = true) ∧
        (∀ limit words, untilEnd.expandWithin limit = .ok words → word ∈ words) ∧
        word ∈ untilEndWords := by
  have matched : matchAt ⟨untilEnd, {}⟩ [.identifier "x", .keyword "END"] 0 = some ⟨0, 2⟩ := by
    decide +kernel
  have expanded : untilEnd.expandWithin defaultLimit = .ok untilEndWords := rfl
  -- the repetition ends at `END` after one item of the three that it asks for
  obtain ⟨word, member, length, accepted, listed⟩ := matchAt_reads_listed_word _ _ _ _ matched
  exact ⟨matched, expanded, word, member, length, accepted, listed, listed _ _ expanded⟩

theorem matchAt_within_bounds (matcher : Matcher) (tokens : List Token) (offset : Nat)
    (span : Span) (matched : matcher.matchAt tokens offset = some span) :
    span.start = offset ∧ span.start + span.consumed ≤ tokens.length ∧
      matcher.pattern.bounds.contains span.consumed = true ∧
      (span.slice tokens).length = span.consumed := by
  rcases matchAt_eq_some_iff.mp matched with ⟨start, inside, taken⟩
  have ahead := Tree.consume_le _ _ _ _ taken
  rw [List.length_drop] at ahead
  have stop : span.stop ≤ tokens.length := by
    rw [Span.stop, start]
    omega
  obtain ⟨word, member, length, -⟩ := matchAt_reads matched
  have bounded := Tree.bounds_cover matcher.pattern.tree word member
  rw [length, ← matcher.pattern.bounds_eq] at bounded
  exact ⟨start, stop, bounded, Span.length_slice stop⟩

theorem untilEnd_within_bounds :
    matchAt ⟨untilEnd, {}⟩ [.number "1", .identifier "x", .keyword "END"] 1 = some ⟨1, 2⟩ ∧
      1 = 1 ∧ 1 + 2 ≤ 3 ∧ untilEnd.bounds.contains 2 = true ∧
      ((⟨1, 2⟩ : Span).slice [Token.number "1", .identifier "x", .keyword "END"]).length = 2 := by
  have matched :
      matchAt ⟨untilEnd, {}⟩ [.number "1", .identifier "x", .keyword "END"] 1 = some ⟨1, 2⟩ := by
    decide +kernel
  exact ⟨matched, matchAt_within_bounds _ _ _ _ matched⟩

end Matcher

end TokenPattern
