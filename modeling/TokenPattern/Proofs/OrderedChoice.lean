import TokenPattern.Proofs.Construction
import TokenPattern.Proofs.Leftmost
import TokenPattern.Proofs.Precedence
import TokenPattern.Proofs.Soundness

/-!
A scan for rules prefers one that takes tokens to earlier ones that take none. Where no rule but the
last can match without taking any, there is nothing to prefer, and the scan finds what a scan for the
alternative of the patterns does.
-/

namespace TokenPattern

theorem Rule.consume_ne_zero {rule : Rule} (positive : 0 < rule.pattern.bounds.min)
    (ahead : List Token) : rule.matcher.consume ahead ≠ some 0 := by
  apply Tree.consume_ne_zero rule.pattern.wellFormed
  rw [← rule.pattern.bounds_eq]
  exact Nat.ne_of_gt positive

namespace RuleSet

variable {set : RuleSet} {choice : Pattern} {tokens ahead : List Token} {offset : Nat}

def firstMatch (set : RuleSet) (ahead : List Token) : Option (String × Nat) :=
  set.firstRule (fun _ => true) ahead

theorem filter_true (taken : Option Nat) : taken.filter (fun _ => true) = taken := by
  cases taken <;> rfl

theorem matchAt_eq_foundAt (set : RuleSet) (tokens : List Token) (offset : Nat) :
    set.matchAt tokens offset = Scan.foundAt set.firstMatch tokens offset := by
  rw [matchAt, Scan.foundAt, firstMatch, firstRule]
  by_cases inside : offset ≤ tokens.length
  · simp [Matcher.matchAt, inside, filter_true, List.map_findSome?, Function.comp_def]
  · simp [Matcher.matchAt, inside]

theorem first_of_firstMatch {found : Found String}
    (present : Scan.foundAt set.firstMatch tokens offset = some found) :
    ∃ rule, set.First tokens offset (fun _ => True) rule found.span ∧ rule.name = found.label := by
  obtain ⟨start, inside, chosen⟩ := Scan.foundAt_eq_some_iff.mp present
  have chosenFirst : ∃ rule, rule.name = found.label ∧
      set.First tokens offset (fun _ => True) rule ⟨offset, found.span.consumed⟩ :=
    first_of_firstRule inside (by simp) chosen
  obtain ⟨rule, named, first⟩ := chosenFirst
  rw [← start] at first ⊢
  exact ⟨rule, first, named⟩

theorem consume_alternative
    (built : Pattern.alternative (set.rules.map Rule.pattern) = .ok choice) (ahead : List Token) :
    Matcher.consume ⟨choice, set.options⟩ ahead = (set.firstMatch ahead).map Prod.snd := by
  have shape := (Pattern.alternative_settled (set.rules.map Rule.pattern)).shape built
  rw [Matcher.consume, shape, Tree.consume, Tree.consumeFirst_eq, firstMatch, firstRule_eq]
  simp only [filter_true, List.map_findSome?, List.findSome?_map, Function.comp_def,
    Option.map_map, Option.map_id']
  rfl

/-- Where earlier rules cannot match without taking tokens, to look for the first that takes some,
and then for the first that takes none, is to look for the first that matches. -/
theorem findSome?_taking {rules : List Rule} (reportEmpty : Bool)
    (taking : ∀ rule ∈ rules.dropLast, rule.matcher.consume ahead ≠ some 0) :
    (rules.findSome? fun rule =>
        ((rule.matcher.consume ahead).filter (· != 0)).map (rule.name, ·)).or
      (if reportEmpty then rules.findSome? fun rule =>
        ((rule.matcher.consume ahead).filter (· == 0)).map (rule.name, ·) else none) =
    (rules.findSome? fun rule => (rule.matcher.consume ahead).map (rule.name, ·)).filter
      fun find => find.2 != 0 || reportEmpty := by
  induction rules with
  | nil => cases reportEmpty <;> rfl
  | cons rule rules rest =>
      cases matched : rule.matcher.consume ahead with
      | none =>
          have further : ∀ other ∈ rules.dropLast, other.matcher.consume ahead ≠ some 0 := by
            intro other member
            apply taking
            cases rules with
            | nil => simp at member
            | cons second rules => exact List.mem_cons_of_mem _ member
          simpa [List.findSome?_cons, matched] using rest further
      | some taken =>
          cases taken with
          | succ more => simp [matched, Option.filter_some]
          | zero =>
              -- a rule that takes nothing is the last one
              have last : rules = [] := by
                cases rules with
                | nil => rfl
                | cons second rules => exact absurd matched (taking rule (by simp))
              subst last
              cases reportEmpty <;> simp [matched, Option.filter_some]

theorem probe_eq_firstMatch
    (taking : ∀ rule ∈ set.rules.dropLast, 0 < rule.pattern.bounds.min) (ahead : List Token) :
    set.probe ahead =
      (set.firstMatch ahead).filter fun find => find.2 != 0 || set.options.reportEmpty := by
  have never : ∀ rule ∈ set.rules.dropLast, rule.matcher.consume ahead ≠ some 0 :=
    fun rule member => Rule.consume_ne_zero (taking rule member) ahead
  have selected := findSome?_taking set.options.reportEmpty never
  simp only [firstMatch, firstRule, filter_true]
  rw [← selected, probe_eq, firstRule, firstRule]

theorem relabel_scan
    (built : Pattern.alternative (set.rules.map Rule.pattern) = .ok choice)
    (taking : ∀ rule ∈ set.rules.dropLast, 0 < rule.pattern.bounds.min) (tokens : List Token) :
    (set.scan tokens).relabel (fun _ => ()) = Matcher.scan ⟨choice, set.options⟩ tokens := by
  have agree : ∀ ahead, (set.probe ahead).map (fun find => ((), find.2)) =
      Matcher.probe ⟨choice, set.options⟩ ahead := by
    intro ahead
    rw [probe_eq_firstMatch taking, Matcher.probe, consume_alternative built]
    cases set.firstMatch ahead with
    | none => rfl
    | some find => by_cases wide : find.2 = 0 <;> simp [Option.filter_some, wide]
  simp only [scan, Matcher.scan, Scan.start, Scan.relabel, agree]

/-- A set of rules matches where an alternative of their patterns does, and names the first rule
that matches there. If no rule but the last can match without taking tokens, both scans find the
same spans as well. -/
theorem scan_agrees (set : RuleSet) (choice : Pattern)
    (built : Pattern.alternative (set.rules.map Rule.pattern) = .ok choice) :
    (∀ tokens offset,
      (set.matchAt tokens offset).map Found.span =
        Matcher.matchAt ⟨choice, set.options⟩ tokens offset ∧
      ∀ found, set.matchAt tokens offset = some found →
        ∃ rule, set.First tokens offset (fun _ => True) rule found.span ∧
          rule.name = found.label) ∧
    ((∀ rule ∈ set.rules.dropLast, 0 < rule.pattern.bounds.min) → ∀ tokens,
      (set.scan tokens).toList.map Found.span = Matcher.findAll ⟨choice, set.options⟩ tokens ∧
      ∀ found ∈ (set.scan tokens).toList,
        ∃ rule, set.First tokens found.span.start (fun _ => True) rule found.span ∧
          rule.name = found.label) := by
  constructor
  · intro tokens offset
    rw [matchAt_eq_foundAt]
    refine ⟨?_, fun found present => first_of_firstMatch present⟩
    rw [Scan.foundAt, Matcher.matchAt, consume_alternative built]
    split
    · simp [Function.comp_def]
    · rfl
  · intro taking tokens
    constructor
    · have same := Scan.toList_relabel (fun _ => ()) (set.scan tokens)
      rw [relabel_scan built taking] at same
      rw [Matcher.findAll, same, List.map_map]
      rfl
    · intro found member
      have all : Scan.Finds set.probe tokens 0 (set.scan tokens).toList :=
        Scan.toList_finds (Scan.onTrack_start _ _) set.probe_within
      have genuine := (all.genuine found member).2
      apply first_of_firstMatch
      rw [Scan.foundAt_eq_some_iff] at genuine ⊢
      obtain ⟨start, inside, probed⟩ := genuine
      rw [probe_eq_firstMatch taking] at probed
      exact ⟨start, inside, Option.eq_some_of_filter_eq_some probed⟩

def anyPair : Pattern := .built (.sequence [.any, .any]) rfl

def maybeAny : Pattern := .built (.optional .any) rfl

def pairOrLess : RuleSet where
  rules := [⟨"pair", anyPair, ⟨false, true⟩⟩, ⟨"less", maybeAny, ⟨false, true⟩⟩]
  options := ⟨false, true⟩

theorem pairOrLess_agrees :
    ∃ choice, Pattern.alternative [anyPair, maybeAny] = .ok choice ∧
      (pairOrLess.matchAt [.number "1", .symbol "+", .number "2"] 2).map Found.span =
        some ⟨2, 1⟩ ∧
      (pairOrLess.scan [.number "1", .symbol "+", .number "2"]).toList.map Found.span =
        Matcher.findAll ⟨choice, ⟨false, true⟩⟩ [.number "1", .symbol "+", .number "2"] ∧
      Matcher.findAll ⟨choice, ⟨false, true⟩⟩ [.number "1", .symbol "+", .number "2"] =
        [⟨0, 2⟩, ⟨2, 1⟩, ⟨3, 0⟩] := by
  have built : Pattern.alternative [anyPair, maybeAny] = .ok _ := rfl
  have agrees := scan_agrees pairOrLess _ built
  refine ⟨_, built, ?_, (agrees.2 (by decide) _).1, by decide +kernel⟩
  exact (agrees.1 _ 2).1.trans (by decide +kernel)

end RuleSet

end TokenPattern
