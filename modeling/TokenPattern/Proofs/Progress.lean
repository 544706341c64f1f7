import Mathlib.Logic.Relation
import TokenPattern.Proofs.Translation
import TokenPattern.Proofs.Visits

namespace TokenPattern

namespace Scan

variable {α : Type}

def Turn (scan moved : Scan α) : Prop := ∃ found, scan.step = some (found, moved)

def Turns (scan reached : Scan α) : Prop := Relation.ReflTransGen Turn scan reached

/-- All that is asked of a scan is done in turns. Each of them moves the position on, behind what it
has found or by one, and the sum fits into a word. No position lies beyond the one behind the end of
the tokens, and there are no more finds than positions in front of that. -/
structure Advances (tokens : List Token) (scan : Scan α) : Prop where
  asked : ∀ count, scan.Turns (scan.later count)
  inside : ∀ reached, scan.Turns reached → reached.position ≤ tokens.length + 1
  forward : ∀ reached moved, scan.Turns reached → reached.Turn moved →
    reached.position < moved.position
  fits : ∀ reached found moved, scan.Turns reached → reached.step = some (found, moved) →
    wordSum reached.position (max (found.elim 0 (·.span.consumed)) 1) = some moved.position
  ends : ∃ finds, (∀ others, scan.Drains others ↔ others = finds) ∧
    finds.length ≤ tokens.length + 1

variable {probe : List Token → Option (α × Nat)} {tokens : List Token} {scan moved : Scan α}
variable {found : Option (Found α)}

theorem step_eq_advance (stepped : scan.step = some (found, moved)) :
    moved = scan.advance (found.elim 0 (·.span.consumed)) ∧ ∃ ahead, scan.ahead = some ahead ∧
      (Within scan.probe → found.elim 0 (·.span.consumed) ≤ ahead.length) := by
  rw [step] at stepped
  split at stepped
  · cases stepped
  · rename_i ahead opened
    split at stepped
    · cases stepped
      exact ⟨rfl, ahead, opened, fun _ => Nat.zero_le _⟩
    · rename_i label taken probed
      cases stepped
      exact ⟨rfl, ahead, opened, fun within => within _ _ _ probed⟩

theorem position_of_step (stepped : scan.step = some (found, moved)) :
    moved.position = scan.position + max (found.elim 0 (·.span.consumed)) 1 :=
  congrArg position (step_eq_advance stepped).1

theorem Turn.position_lt (turn : scan.Turn moved) : scan.position < moved.position := by
  rcases turn with ⟨found, stepped⟩
  rw [position_of_step stepped]
  omega

theorem Turn.position_le (onTrack : scan.OnTrack tokens) (within : Within scan.probe)
    (turn : scan.Turn moved) : moved.position ≤ tokens.length + 1 := by
  rcases turn with ⟨found, stepped⟩
  rcases (step_eq_advance stepped).2 with ⟨ahead, opened, taken⟩
  have bound := taken within
  rw [position_of_step stepped]
  by_cases inside : scan.position ≤ tokens.length
  · rw [onTrack, if_pos inside] at opened
    rw [← Option.some.inj opened, List.length_drop] at bound
    omega
  · rw [onTrack, if_neg inside] at opened
    cases opened

theorem Turns.probe_eq {reached : Scan α} (turns : scan.Turns reached) :
    reached.probe = scan.probe := by
  induction turns with
  | refl => rfl
  | tail before turn same =>
      rcases turn with ⟨found, stepped⟩
      rw [(step_eq_advance stepped).1, ← same]
      rfl

theorem Turns.onTrack {reached : Scan α} (onTrack : scan.OnTrack tokens)
    (within : Within scan.probe) (start : scan.position ≤ tokens.length + 1)
    (turns : scan.Turns reached) :
    reached.OnTrack tokens ∧ reached.position ≤ tokens.length + 1 := by
  induction turns with
  | refl => exact ⟨onTrack, start⟩
  | tail before turn kept =>
      have fits : Within _ := Turns.probe_eq before ▸ within
      have stop := turn.position_le kept.1 fits
      rcases turn with ⟨found, stepped⟩
      exact ⟨(kept.1.step fits stepped).1, stop⟩

theorem turns_next (scan : Scan α) : scan.Turns scan.next.2 := by
  fun_induction next scan with
  | case1 scan ended => exact .refl
  | case2 scan found moved stepped => exact .single ⟨some found, stepped⟩
  | case3 scan moved stepped rest => exact .head ⟨none, stepped⟩ rest

theorem turns_later (scan : Scan α) (count : Nat) : scan.Turns (scan.later count) := by
  induction count generalizing scan with
  | zero => exact .refl
  | succ count rest => exact (turns_next scan).trans (rest scan.next.2)

theorem Turn.finish_eq (turn : scan.Turn moved) (within : Within scan.probe) :
    moved.finish = scan.finish := by
  rcases turn with ⟨found, stepped⟩
  rcases step_eq_advance stepped with ⟨rfl, ahead, opened, taken⟩
  have bound := taken within
  cases ahead with
  | nil =>
      have empty : found.elim 0 (·.span.consumed) = 0 := by simpa using bound
      simp [finish, room, advance, opened, empty]
  | cons token rest =>
      rw [List.length_cons] at bound
      simp only [finish, room, advance, opened, List.length_drop, List.length_cons, Scan.mk.injEq,
        true_and, and_true]
      omega

theorem Turns.finish_eq {reached : Scan α} (turns : scan.Turns reached)
    (within : Within scan.probe) : reached.finish = scan.finish := by
  induction turns with
  | refl => rfl
  | tail before turn same => exact (turn.finish_eq (Turns.probe_eq before ▸ within)).trans same

theorem finish_of_ended (ended : scan.step = none) : scan.finish = scan := by
  have closed := step_eq_none_iff.mp ended
  cases scan
  simp_all [finish, room]

theorem next_of_none (nothing : scan.next.1 = none) : scan.next.2.step = none := by
  fun_induction next scan with
  | case1 scan ended => exact ended
  | case2 scan found moved stepped => cases nothing
  | case3 scan moved stepped rest => exact rest nothing

/-- A scan that is asked for more finds than it has ends past its tokens, and stays there. -/
theorem later_drained (within : Within scan.probe) {count : Nat}
    (more : scan.toList.length < count) : scan.later count = scan.finish := by
  induction finds : scan.toList generalizing scan count with
  | nil =>
      cases count with
      | zero => simp at more
      | succ count =>
          have ended := next_of_none (next_of_toList_nil finds)
          have same := (turns_next scan).finish_eq within
          rw [later, later_of_ended ended, ← same, finish_of_ended ended]
  | cons found finds rest =>
      rw [finds] at more
      cases count with
      | zero => simp at more
      | succ count =>
          have tail := (next_of_toList_cons finds).2
          have turns := turns_next scan
          rw [later, ← turns.finish_eq within]
          refine rest (turns.probe_eq ▸ within) ?_ tail
          simpa [tail] using more

/-- The turns of a scan end at `finish`. They lead there from wherever they have led so far, and the
scan is over nowhere else. -/
theorem turns_end (within : Within scan.probe) {reached : Scan α} (turns : scan.Turns reached) :
    reached.Turns scan.finish ∧ (reached.step = none ↔ reached = scan.finish) ∧
      scan.finish.toList = [] := by
  have fits : Within reached.probe := turns.probe_eq ▸ within
  rw [← turns.finish_eq within]
  refine ⟨?_, ?_, toList_finish reached⟩
  · rw [← later_drained fits (Nat.lt_succ_self _)]
    exact turns_later reached _
  · constructor
    · intro ended
      exact (finish_of_ended ended).symm
    · intro there
      rw [there]
      exact step_eq_none_iff.mpr rfl

theorem finish_start (probe : List Token → Option (α × Nat)) (tokens : List Token) :
    (start probe tokens).finish = ⟨probe, tokens.length + 1, none⟩ := by
  simp [finish, room, start]

theorem length_toList_le_room (scan : Scan α) : scan.toList.length ≤ scan.room := by
  induction room : scan.room using Nat.strongRecOn generalizing scan with
  | _ _ shorter =>
      subst room
      cases stepped : scan.step with
      | none => simp [toList_of_ended stepped]
      | some outcome =>
          have less : outcome.2.room < scan.room := room_step_lt stepped
          have rest := shorter _ less outcome.2 rfl
          have once : outcome.1.toList.length ≤ 1 := by cases outcome.1 <;> simp
          rw [toList_of_step stepped, List.length_append]
          omega

theorem advances_start (within : Within probe) (short : tokens.length < maxCount) :
    (start probe tokens).Advances tokens := by
  have inside : ∀ reached, (start probe tokens).Turns reached →
      reached.position ≤ tokens.length + 1 := by
    intro reached turns
    exact (turns.onTrack (onTrack_start probe tokens) within (Nat.zero_le _)).2
  refine ⟨turns_later _, inside, ?_, ?_, ?_⟩
  · intro reached moved turns turn
    exact turn.position_lt
  · intro reached found moved turns stepped
    have bound := inside moved (turns.tail ⟨found, stepped⟩)
    rw [position_of_step stepped] at bound ⊢
    exact wordSum_eq (by omega)
  · exact ⟨_, fun others => drains_iff, length_toList_le_room (start probe tokens)⟩

end Scan

/-- Whatever it finds, a scan that is drained stands just behind the end of the tokens. -/
theorem drained_scans_finish (tokens : List Token) :
    (∀ (matcher : Matcher) count, (matcher.scan tokens).toList.length < count →
      (matcher.scan tokens).later count = ⟨matcher.probe, tokens.length + 1, none⟩) ∧
    ∀ (set : RuleSet) count, (set.scan tokens).toList.length < count →
      (set.scan tokens).later count = ⟨set.probe, tokens.length + 1, none⟩ := by
  constructor
  · intro matcher count more
    exact (Scan.later_drained matcher.probe_within more).trans (Scan.finish_start _ tokens)
  · intro set count more
    exact (Scan.later_drained set.probe_within more).trans (Scan.finish_start _ tokens)

/-- Matching and scanning never overflow and always make progress, as long as the tokens are fewer
than the greatest word. Done in words, a match is the same. The visits that are made for it keep to
the tokens from its offset on, and each visit of a repetition asks for the item at most once more
than tokens are left, whatever its bounds. The position of a scan moves on with every turn of its
loop and stays a word, so no scan has more finds than positions to look at. -/
theorem matching_never_overflows (tokens : List Token) (short : tokens.length < maxCount) :
    (∀ (matcher : Matcher) (offset : Nat), ∃ visits,
      matcher.visitAt tokens offset = some (visits, matcher.matchAt tokens offset) ∧
      ∀ visit ∈ visits, visit.Everywhere (Visit.Bounded offset tokens.length)) ∧
    (∀ matcher : Matcher, (matcher.scan tokens).Advances tokens) ∧
    ∀ set : RuleSet, (set.scan tokens).Advances tokens := by
  refine ⟨?_, ?_, ?_⟩
  · intro matcher offset
    exact matcher.visitAt_settled short offset
  · intro matcher
    exact Scan.advances_start matcher.probe_within short
  · intro set
    exact Scan.advances_start set.probe_within short

def manyNumbers : Tree :=
  .repetition (.optional (.token ⟨Category.number, none⟩)) ⟨2, some maxCount⟩

def numberRun : Pattern := .built manyNumbers rfl

def numberVisit (position : Nat) (taken : Option Nat) : Visit where
  tree := .token ⟨Category.number, none⟩
  position := position
  parts := []
  taken := taken

def maybeNumberVisit (position : Nat) (number : Visit) : Visit where
  tree := .optional (.token ⟨Category.number, none⟩)
  position := position
  parts := [number]
  taken := some (number.taken.getD 0)

def numberRunVisit : Visit where
  tree := manyNumbers
  position := 0
  parts := [maybeNumberVisit 0 (numberVisit 0 (some 1)), maybeNumberVisit 1 (numberVisit 1 none)]
  taken := some 1

/-- The item is asked for twice, once more than tokens are left, although the bounds allow it as
often as a word can count. -/
theorem numberRun_never_overflows :
    [Token.number "1"].length < maxCount ∧
      Matcher.visitAt ⟨numberRun, {}⟩ [.number "1"] 0 = some ([numberRunVisit], some ⟨0, 1⟩) ∧
      numberRunVisit.parts.length = 2 ∧ numberRunVisit.Everywhere (Visit.Bounded 0 1) ∧
      (Matcher.scan ⟨numberRun, {}⟩ [.number "1"]).Advances [.number "1"] ∧
      (RuleSet.scan { rules := [⟨"numbers", numberRun, {}⟩] } [.number "1"]).Advances
        [.number "1"] := by
  have short : [Token.number "1"].length < maxCount := by decide
  have visited : Matcher.visitAt ⟨numberRun, {}⟩ [.number "1"] 0 =
      some ([numberRunVisit], some ⟨0, 1⟩) := by cbv
  rcases matching_never_overflows [.number "1"] short with ⟨single, scans, ruleScans⟩
  rcases single ⟨numberRun, {}⟩ 0 with ⟨visits, again, bounded⟩
  rw [visited] at again
  rcases Prod.mk.inj (Option.some.inj again) with ⟨rfl, -⟩
  exact ⟨short, visited, rfl, bounded _ List.mem_cons_self, scans _, ruleScans _⟩

end TokenPattern
