import TokenPattern.Scan

namespace TokenPattern

def Span.Before (earlier later : Span) : Prop :=
  earlier.start < later.start ∧ earlier.stop ≤ later.start

def Span.Inside (span : Span) (position : Nat) : Prop :=
  span.start < position ∧ position < span.stop

def Found.relabel {α β : Type} (label : α → β) (found : Found α) : Found β :=
  ⟨label found.label, found.span⟩

namespace Scan

variable {α : Type}

/-- To ask for the next find again and again, until there is none, gives these finds. -/
inductive Drains : Scan α → List (Found α) → Prop
  | ended {scan : Scan α} (nothing : scan.next.1 = none) : Drains scan []
  | more {scan : Scan α} {found : Found α} {finds : List (Found α)}
      (present : scan.next.1 = some found) (rest : Drains scan.next.2 finds) :
      Drains scan (found :: finds)

theorem toList_of_next_none {scan : Scan α} (nothing : scan.next.1 = none) :
    scan.toList = [] := by
  fun_induction next scan with
  | case1 scan ended => exact toList_of_ended ended
  | case2 scan found moved stepped => simp at nothing
  | case3 scan moved stepped rest =>
      rw [toList_of_step stepped]
      exact rest nothing

theorem next_of_toList_nil {scan : Scan α} (nothing : scan.toList = []) :
    scan.next.1 = none := by
  have parts := toList_next scan
  rw [nothing] at parts
  cases first : scan.next.1 with
  | none => rfl
  | some found => simp [first] at parts

theorem next_of_toList_cons {scan : Scan α} {found : Found α} {finds : List (Found α)}
    (all : scan.toList = found :: finds) :
    scan.next.1 = some found ∧ scan.next.2.toList = finds := by
  have parts := toList_next scan
  rw [all] at parts
  cases first : scan.next.1 with
  | none =>
      have nothing := toList_of_next_none first
      simp [nothing] at all
  | some head =>
      rw [first] at parts
      rcases List.cons.inj parts with ⟨same, rest⟩
      exact ⟨congrArg some same.symm, rest.symm⟩

theorem drains_iff {scan : Scan α} {finds : List (Found α)} :
    scan.Drains finds ↔ finds = scan.toList := by
  constructor
  · intro drained
    induction drained with
    | ended nothing => exact (toList_of_next_none nothing).symm
    | @more scan found finds present rest all =>
        rw [toList_next scan, present, all]
        rfl
  · intro all
    induction finds generalizing scan with
    | nil =>
        apply Drains.ended
        exact next_of_toList_nil all.symm
    | cons found finds rest =>
        rcases next_of_toList_cons all.symm with ⟨present, tail⟩
        apply Drains.more present
        exact rest tail.symm

def relabel {β : Type} (label : α → β) (scan : Scan α) : Scan β where
  probe := fun ahead => (scan.probe ahead).map fun find => (label find.1, find.2)
  position := scan.position
  ahead := scan.ahead

theorem step_relabel {β : Type} (label : α → β) (scan : Scan α) :
    (scan.relabel label).step =
      scan.step.map fun stepped => (stepped.1.map (Found.relabel label), stepped.2.relabel label) := by
  cases opened : scan.ahead with
  | none => simp [step, relabel, opened]
  | some ahead =>
      cases probed : scan.probe ahead with
      | none => simp [step, relabel, opened, probed, advance]
      | some find => simp [step, relabel, opened, probed, advance, Found.relabel]

theorem toList_relabel {β : Type} (label : α → β) (scan : Scan α) :
    (scan.relabel label).toList = scan.toList.map (Found.relabel label) := by
  induction room : scan.room using Nat.strongRecOn generalizing scan with
  | _ _ shorter =>
      subst room
      have relabelled := step_relabel label scan
      cases stepped : scan.step with
      | none =>
          rw [stepped] at relabelled
          rw [toList_of_ended stepped, toList_of_ended relabelled]
          rfl
      | some outcome =>
          rw [stepped] at relabelled
          have rest := shorter _ (room_step_lt stepped) outcome.2 rfl
          rw [toList_of_step stepped, toList_of_step relabelled, rest, List.map_append]
          cases outcome.1 <;> rfl

variable {probe : List Token → Option (α × Nat)} {tokens : List Token}

def foundAt (probe : List Token → Option (α × Nat)) (tokens : List Token) (offset : Nat) :
    Option (Found α) :=
  if offset ≤ tokens.length then
    (probe (tokens.drop offset)).map fun find => ⟨find.1, offset, find.2⟩
  else
    none

theorem foundAt_eq_some_iff {offset : Nat} {found : Found α} :
    foundAt probe tokens offset = some found ↔
      found.span.start = offset ∧ offset ≤ tokens.length ∧
        probe (tokens.drop offset) = some (found.label, found.span.consumed) := by
  by_cases inside : offset ≤ tokens.length
  · simp only [foundAt, inside, if_true, Option.map_eq_some_iff, true_and]
    constructor
    · intro present
      rcases present with ⟨find, probed, rfl⟩
      exact ⟨rfl, probed⟩
    · intro present
      rcases present with ⟨rfl, probed⟩
      exact ⟨_, probed, rfl⟩
  · simp [foundAt, inside]

/-- The finds from the position `first` on. -/
structure Finds (probe : List Token → Option (α × Nat)) (tokens : List Token) (first : Nat)
    (finds : List (Found α)) : Prop where
  ordered : finds.Pairwise fun earlier later => earlier.span.Before later.span
  genuine : ∀ found ∈ finds, first ≤ found.span.start ∧
    foundAt probe tokens found.span.start = some found
  complete : ∀ offset found, first ≤ offset → foundAt probe tokens offset = some found →
    found ∈ finds ∨ ∃ other ∈ finds, other.span.Inside offset

namespace Finds

variable {first : Nat} {finds others : List (Found α)}

theorem past (beyond : tokens.length < first) : Finds probe tokens first [] where
  ordered := List.Pairwise.nil
  genuine := by simp
  complete := by
    intro offset found after present
    have inside : offset ≤ tokens.length := (foundAt_eq_some_iff.mp present).2.1
    omega

theorem look_none (nothing : foundAt probe tokens first = none)
    (rest : Finds probe tokens (first + 1) finds) : Finds probe tokens first finds where
  ordered := rest.ordered
  genuine := by
    intro found member
    rcases rest.genuine found member with ⟨after, present⟩
    exact ⟨by omega, present⟩
  complete := by
    intro offset found after present
    by_cases here : offset = first
    · rw [here, nothing] at present
      simp at present
    · exact rest.complete offset found (by omega) present

theorem look_some {found : Found α} (present : foundAt probe tokens first = some found)
    (rest : Finds probe tokens (first + max found.span.consumed 1) finds) :
    Finds probe tokens first (found :: finds) := by
  have start : found.span.start = first := (foundAt_eq_some_iff.mp present).1
  have behind : ∀ later ∈ finds, first + max found.span.consumed 1 ≤ later.span.start :=
    fun later member => (rest.genuine later member).1
  refine ⟨List.pairwise_cons.mpr ⟨?_, rest.ordered⟩, ?_, ?_⟩
  · intro later member
    have after := behind later member
    simp only [Span.Before, Span.stop]
    omega
  · intro other member
    rcases List.mem_cons.mp member with rfl | member
    · rw [start]
      exact ⟨Nat.le_refl first, present⟩
    · rcases rest.genuine other member with ⟨after, genuine⟩
      exact ⟨by omega, genuine⟩
  · intro offset other after genuine
    by_cases here : offset = first
    · rw [here, present] at genuine
      rw [← Option.some.inj genuine]
      exact .inl List.mem_cons_self
    · by_cases far : first + max found.span.consumed 1 ≤ offset
      · rcases rest.complete offset other far genuine with member | ⟨cover, member, inside⟩
        · exact .inl (List.mem_cons_of_mem _ member)
        · exact .inr ⟨cover, List.mem_cons_of_mem _ member, inside⟩
      · -- the offset was jumped over, together with the tokens of the find
        have covered : found.span.Inside offset := by
          simp only [Span.Inside, Span.stop]
          omega
        exact .inr ⟨found, List.mem_cons_self, covered⟩

theorem stop_le (mine : Finds probe tokens first finds) {earlier later : Found α}
    (one : earlier ∈ finds) (two : later ∈ finds)
    (before : earlier.span.start < later.span.start) :
    earlier.span.stop ≤ later.span.start := by
  have forwards : finds.Pairwise fun one two =>
      one.span.start < two.span.start → one.span.stop ≤ two.span.start :=
    mine.ordered.imp fun ordered _ => ordered.2
  have backwards : finds.Pairwise fun one two =>
      two.span.start < one.span.start → two.span.stop ≤ one.span.start :=
    mine.ordered.imp fun ordered reversed => absurd ordered.1 (Nat.lt_asymm reversed)
  apply List.Pairwise.forall_of_forall_of_flip _ forwards backwards one two before
  intro found _ self
  exact absurd self (Nat.lt_irrefl _)

theorem mem_of_mem (start : Nat) : ∀ {finds others : List (Found α)},
    Finds probe tokens first finds → Finds probe tokens first others →
    ∀ found ∈ finds, found.span.start = start → found ∈ others := by
  induction start using Nat.strongRecOn with
  | _ start earlier =>
      intro finds others mine yours found member starts
      obtain ⟨after, present⟩ := mine.genuine found member
      rcases yours.complete _ found after present with shared | ⟨other, inOthers, inside⟩
      · exact shared
      · -- the other list has a find around this one, which starts earlier and so is shared
        rw [Span.Inside, starts] at inside
        have shared := earlier _ inside.1 yours mine other inOthers rfl
        have apart := mine.stop_le shared member (by omega)
        omega

theorem nodup (mine : Finds probe tokens first finds) : finds.Nodup := by
  apply mine.ordered.imp
  intro earlier later before same
  rw [same, Span.Before] at before
  omega

theorem unique (mine : Finds probe tokens first finds) (yours : Finds probe tokens first others) :
    finds = others := by
  have shared : ∀ found, found ∈ finds ↔ found ∈ others := by
    intro found
    constructor
    · intro member
      exact mem_of_mem _ mine yours found member rfl
    · intro member
      exact mem_of_mem _ yours mine found member rfl
  have perm := (List.perm_ext_iff_of_nodup mine.nodup yours.nodup).mpr shared
  apply perm.eq_of_pairwise _ mine.ordered yours.ordered
  intro one other _ _ before after
  simp only [Span.Before] at before after
  omega

theorem filter_start (mine : Finds probe tokens first finds) {offset : Nat}
    (after : first ≤ offset) (outside : ∀ found ∈ finds, ¬ found.span.Inside offset) :
    finds.filter (fun found => found.span.start = offset) =
      (foundAt probe tokens offset).toList := by
  have member : ∀ found, found ∈ finds.filter (fun found => found.span.start = offset) ↔
      foundAt probe tokens offset = some found := by
    intro found
    rw [List.mem_filter, decide_eq_true_iff]
    constructor
    · intro present
      rcases present with ⟨inside, rfl⟩
      exact (mine.genuine found inside).2
    · intro present
      refine ⟨?_, (foundAt_eq_some_iff.mp present).1⟩
      rcases mine.complete offset found after present with inside | ⟨cover, inside, covered⟩
      · exact inside
      · exact absurd covered (outside cover inside)
  have distinct := mine.nodup.filter fun found => found.span.start = offset
  cases present : foundAt probe tokens offset with
  | none =>
      apply List.eq_nil_iff_forall_not_mem.mpr
      intro found inside
      rw [member, present] at inside
      simp at inside
  | some found =>
      apply List.perm_singleton.mp
      rw [List.perm_ext_iff_of_nodup distinct (by simp)]
      intro other
      rw [member, present, List.mem_singleton, Option.some.injEq, eq_comm]

end Finds

/-- The scan holds the tokens from its position on, or has passed the last position. -/
def OnTrack (tokens : List Token) (scan : Scan α) : Prop :=
  scan.ahead = if scan.position ≤ tokens.length then some (tokens.drop scan.position) else none

theorem onTrack_start (probe : List Token → Option (α × Nat)) (tokens : List Token) :
    (start probe tokens).OnTrack tokens := rfl

theorem OnTrack.advance {scan : Scan α} (onTrack : scan.OnTrack tokens) {taken : Nat}
    (within : scan.position + taken ≤ tokens.length) : (scan.advance taken).OnTrack tokens := by
  have opened : scan.ahead = some (tokens.drop scan.position) := by
    rw [onTrack, if_pos (by omega)]
  simp only [OnTrack, Scan.advance, opened]
  cases rest : tokens.drop scan.position with
  | nil =>
      have ended := List.drop_eq_nil_iff.mp rest
      rw [if_neg (by omega)]
  | cons token ahead =>
      have length := congrArg List.length rest
      rw [List.length_drop, List.length_cons] at length
      have tail : tokens.drop (scan.position + 1) = ahead := by
        rw [← List.drop_drop, rest, List.drop_one, List.tail_cons]
      rw [if_pos (by omega), ← tail]
      simp only [List.drop_drop]
      congr 2
      omega

def Within (probe : List Token → Option (α × Nat)) : Prop :=
  ∀ ahead label taken, probe ahead = some (label, taken) → taken ≤ ahead.length

/-- All that a step can do: it ends behind the last position, and elsewhere it reports what is
found at its position and moves on, behind the tokens of the find or by one token. -/
theorem step_cases {scan : Scan α} (onTrack : scan.OnTrack tokens) (within : Within scan.probe) :
    (tokens.length < scan.position ∧ scan.step = none) ∨
      (foundAt scan.probe tokens scan.position = none ∧
        scan.step = some (none, scan.advance 0) ∧ (scan.advance 0).OnTrack tokens) ∨
      ∃ found, foundAt scan.probe tokens scan.position = some found ∧
        scan.step = some (some found, scan.advance found.span.consumed) ∧
        (scan.advance found.span.consumed).OnTrack tokens := by
  by_cases inside : scan.position ≤ tokens.length
  · have opened : scan.ahead = some (tokens.drop scan.position) := by
      rw [onTrack, if_pos inside]
    cases probed : scan.probe (tokens.drop scan.position) with
    | none =>
        refine .inr (.inl ⟨?_, ?_, onTrack.advance (by omega)⟩)
        · simp [foundAt, probed]
        · simp [step, opened, probed]
    | some find =>
        have bound := within _ _ _ probed
        rw [List.length_drop] at bound
        refine .inr (.inr ⟨⟨find.1, scan.position, find.2⟩, ?_, ?_, onTrack.advance ?_⟩)
        · simp [foundAt, inside, probed]
        · simp [step, opened, probed]
        · change scan.position + find.2 ≤ tokens.length
          omega
  · have ended : scan.ahead = none := by rw [onTrack, if_neg inside]
    exact .inl ⟨by omega, by simp [step, ended]⟩

theorem toList_finds {scan : Scan α} (onTrack : scan.OnTrack tokens) (within : Within scan.probe) :
    Finds scan.probe tokens scan.position scan.toList := by
  induction room : scan.room using Nat.strongRecOn generalizing scan with
  | _ _ shorter =>
      subst room
      rcases step_cases onTrack within with
        ⟨beyond, ended⟩ | ⟨nothing, stepped, moved⟩ | ⟨found, present, stepped, moved⟩
      · rw [toList_of_ended ended]
        exact Finds.past beyond
      · have rest := shorter _ (room_step_lt stepped) moved within rfl
        rw [toList_of_step stepped]
        exact Finds.look_none nothing rest
      · have rest := shorter _ (room_step_lt stepped) moved within rfl
        rw [toList_of_step stepped]
        exact Finds.look_some present rest

theorem start_finds (within : Within probe) (tokens : List Token) :
    Finds probe tokens 0 (start probe tokens).toList :=
  toList_finds (onTrack_start probe tokens) within

theorem toList_start_eq {another : List Token → Option (α × Nat)} {others : List Token}
    (within : Within probe) (alike : Within another)
    (same : ∀ offset, foundAt another others offset = foundAt probe tokens offset) :
    (start another others).toList = (start probe tokens).toList := by
  have mine := start_finds within tokens
  have yours := start_finds alike others
  have moved : Finds probe tokens 0 (start another others).toList := by
    constructor
    · exact yours.ordered
    · intro found member
      rw [← same]
      exact yours.genuine found member
    · intro offset found after present
      rw [← same] at present
      exact yours.complete offset found after present
  exact moved.unique mine

end Scan

end TokenPattern
