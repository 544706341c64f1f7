import TokenPattern.Match
import TokenPattern.Proofs.Language

/-!
The choices that matching commits to are choices that the language offers. Only a repetition that
ends at an empty item counts fewer items than its bounds ask for, and there the missing ones are
empty.
-/

namespace TokenPattern

def Element.accepts (ignoreCase : Bool) : Element → List Token → Bool
  | _, [] => false
  | .token spec, first :: _ => spec.accepts ignoreCase first
  | .any, _ :: _ => true
  | .negation item, first :: rest => (item.consume ignoreCase (first :: rest)).isNone

def Word.accepts (ignoreCase : Bool) : Word → List Token → Bool
  | [], _ => true
  | element :: word, ahead =>
      element.accepts ignoreCase ahead && Word.accepts ignoreCase word (ahead.drop 1)

/-- Some word of the language accepts exactly the next `taken` tokens. -/
def Reads (ignoreCase : Bool) (language : Language Element) (ahead : List Token)
    (taken : Nat) : Prop :=
  ∃ word ∈ language, word.length = taken ∧ Word.accepts ignoreCase word ahead = true

variable {ignoreCase : Bool}

theorem Element.consume_toTree (element : Element) (ahead : List Token) :
    element.toTree.consume ignoreCase ahead =
      if element.accepts ignoreCase ahead then some 1 else none := by
  cases element <;> cases ahead <;> rfl

namespace Word

theorem accepts_append (first second : Word) (ahead : List Token) :
    accepts ignoreCase (first ++ second) ahead =
      (accepts ignoreCase first ahead && accepts ignoreCase second (ahead.drop first.length)) := by
  induction first generalizing ahead with
  | nil => simp [accepts]
  | cons element first rest =>
      simp only [List.cons_append, accepts, rest, List.drop_drop, List.length_cons, Bool.and_assoc]
      rw [Nat.add_comm]

theorem accepts_iff (word : Word) (ahead : List Token) :
    accepts ignoreCase word ahead = true ↔
      ∀ index (inside : index < word.length),
        word[index].accepts ignoreCase (ahead.drop index) = true := by
  induction word generalizing ahead with
  | nil => simp [accepts]
  | cons element word rest =>
      rw [accepts, Bool.and_eq_true, rest]
      constructor
      · intro accepted index inside
        rcases accepted with ⟨head, tail⟩
        cases index with
        | zero => simpa using head
        | succ index =>
            have below : index < word.length := by simpa using inside
            simpa [List.drop_drop, Nat.add_comm] using tail index below
      · intro each
        constructor
        · exact each 0 (by simp)
        · intro index inside
          have next := each (index + 1) (by simpa using inside)
          simpa [List.drop_drop, Nat.add_comm] using next

end Word

namespace Reads

variable {language other : Language Element} {ahead : List Token} {first second taken : Nat}

theorem one (ahead : List Token) : Reads ignoreCase 1 ahead 0 :=
  ⟨[], Language.nil_mem_one, rfl, rfl⟩

theorem mul (front : Reads ignoreCase language ahead first)
    (back : Reads ignoreCase other (ahead.drop first) second) :
    Reads ignoreCase (language * other) ahead (first + second) := by
  rcases front with ⟨head, headMember, rfl, headAccepted⟩
  rcases back with ⟨tail, tailMember, rfl, tailAccepted⟩
  refine ⟨head ++ tail, Language.append_mem_mul headMember tailMember, List.length_append, ?_⟩
  rw [Word.accepts_append, headAccepted, tailAccepted, Bool.and_true]

theorem mono (reads : Reads ignoreCase language ahead taken)
    (wider : ∀ word ∈ language, word ∈ other) : Reads ignoreCase other ahead taken := by
  rcases reads with ⟨word, member, length, accepted⟩
  exact ⟨word, wider word member, length, accepted⟩

theorem nil_mem (reads : Reads ignoreCase language ahead 0) : [] ∈ language := by
  rcases reads with ⟨word, member, length, -⟩
  rwa [List.length_eq_zero_iff.mp length] at member

theorem element (element : Element) {taken : Nat}
    (matched : element.toTree.consume ignoreCase ahead = some taken) :
    Reads ignoreCase {[element]} ahead taken := by
  rw [Element.consume_toTree] at matched
  split at matched
  · rename_i accepted
    refine ⟨[element], rfl, Option.some.inj matched, ?_⟩
    simp [Word.accepts, accepted]
  · simp at matched

end Reads

theorem reads_of_enough {times : RepeatBounds} {count taken : Nat}
    (below : ∀ max, times.max = some max → count ≤ max)
    (enough : times.enough count = some taken) (language : Language Element)
    (ahead : List Token) :
    ∃ more, times.Allows (count + more) ∧ Reads ignoreCase (language ^ more) ahead taken := by
  obtain ⟨reached, rfl⟩ := RepeatBounds.enough_eq_some_iff.mp enough
  refine ⟨0, ⟨reached, below⟩, ?_⟩
  rw [pow_zero]
  exact Reads.one ahead

/-- A greedy repetition reads a power of what its step reads. The count of the power lies within
the bounds, also where the repetition stops early at an empty step. -/
theorem greedy_reads {step : List Token → Option Nat} {language : Language Element}
    (each : ∀ ahead taken, step ahead = some taken → Reads ignoreCase language ahead taken)
    {times : RepeatBounds} (ordered : ∀ max, times.max = some max → times.min ≤ max)
    (count : Nat) (ahead : List Token) (below : ∀ max, times.max = some max → count ≤ max) :
    ∀ taken, greedy step times count ahead = some taken →
      ∃ more, times.Allows (count + more) ∧ Reads ignoreCase (language ^ more) ahead taken := by
  fun_induction greedy step times count ahead with
  | case1 count ahead allowed failed =>
      exact fun taken enough => reads_of_enough below enough language ahead
  | case2 count ahead allowed matched =>
      intro taken stopped
      have nothing : 0 = taken := Option.some.inj stopped
      subst nothing
      have empty : [] ∈ language := (each ahead 0 matched).nil_mem
      -- the empty step is counted as often as the least number of repetitions still asks for
      have allowed : times.Allows (count + (times.min - count)) := by
        constructor
        · omega
        · intro max bounded
          have low := ordered max bounded
          have high := below max bounded
          omega
      exact ⟨times.min - count, allowed, [], Tree.nil_mem_pow empty _, rfl, rfl⟩
  | case3 count allowed more matched =>
      exact fun taken enough => reads_of_enough below enough language []
  | case4 count allowed more token rest matched later =>
      intro taken result
      rcases Option.map_eq_some_iff.mp result with ⟨tail, found, rfl⟩
      have next : ∀ max, times.max = some max → count + 1 ≤ max :=
        RepeatBounds.allowsMore_iff.mp allowed
      rcases later next tail found with ⟨further, within, reads⟩
      have total : count + (further + 1) = count + 1 + further := by omega
      refine ⟨further + 1, ?_, ?_⟩
      · rw [total]
        exact within
      · rw [pow_succ']
        exact (each _ _ matched).mul reads
  | case5 count ahead full =>
      exact fun taken enough => reads_of_enough below enough language ahead

namespace Tree

theorem consumeAll_reads {items : List Tree}
    (each : ∀ item ∈ items, ∀ ahead taken,
      item.consume ignoreCase ahead = some taken → Reads ignoreCase item.language ahead taken)
    (ahead : List Token) : ∀ taken, consumeAll ignoreCase items ahead = some taken →
      Reads ignoreCase (items.map language).prod ahead taken := by
  induction items generalizing ahead with
  | nil =>
      intro taken result
      have nothing : 0 = taken := Option.some.inj result
      subst nothing
      exact Reads.one ahead
  | cons item items rest =>
      intro taken result
      rcases consumeAll_cons_eq_some_iff.mp result with ⟨first, matched, more, later, rfl⟩
      have front := each item List.mem_cons_self ahead first matched
      have tail := rest fun item member => each item (List.mem_cons_of_mem _ member)
      have back := tail (ahead.drop first) more later
      exact front.mul back

theorem consume_reads (ignoreCase : Bool) {tree : Tree} (wellFormed : tree.WellFormed) :
    ∀ ahead taken, tree.consume ignoreCase ahead = some taken →
      Reads ignoreCase tree.language ahead taken := by
  induction wellFormed with
  | token spec => exact fun ahead taken => Reads.element (.token spec)
  | any => exact fun ahead taken => Reads.element .any
  | @sequence items filled wellFormed each =>
      intro ahead taken result
      rw [consume] at result
      rw [language_sequence]
      exact consumeAll_reads each ahead taken result
  | @alternative choices filled wellFormed each =>
      intro ahead taken result
      rw [consume, consumeFirst_eq] at result
      rcases List.exists_of_findSome?_eq_some result with ⟨choice, member, matched⟩
      have chosen := each choice member ahead taken matched
      apply chosen.mono
      intro word inside
      exact mem_language_alternative.mpr ⟨choice, member, inside⟩
  | @optional item inner reads =>
      intro ahead taken result
      cases matched : item.consume ignoreCase ahead with
      | none =>
          have nothing : 0 = taken := by simpa [consume, matched] using result
          subst nothing
          exact (Reads.one ahead).mono fun word empty => Or.inr empty
      | some first =>
          have same : first = taken := by simpa [consume, matched] using result
          subst same
          exact (reads ahead first matched).mono fun word present => Or.inl present
  | @repetition item times ordered ends inner reads =>
      intro ahead taken result
      rw [consume] at result
      rcases greedy_reads reads ordered 0 ahead (by simp) taken result with ⟨more, allowed, found⟩
      rw [Nat.zero_add] at allowed
      apply found.mono
      intro word member
      exact mem_language_repetition.mpr ⟨more, allowed, member⟩
  | @negation item inner reads => exact fun ahead taken => Reads.element (.negation item)

end Tree

end TokenPattern
