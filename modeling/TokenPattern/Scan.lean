import TokenPattern.Match

/-!
A scan looks at one position after another, the one behind the last token included. A find that
takes tokens moves it behind them, and anything else moves it on by one token.
-/

namespace TokenPattern

structure Found (α : Type) where
  label : α
  span : Span
  deriving DecidableEq, Repr

/-- A scan on its way looks for a label and a number of tokens at the head of those `ahead`, which
are `none` past the end. -/
structure Scan (α : Type) where
  probe : List Token → Option (α × Nat)
  position : Nat
  ahead : Option (List Token)

namespace Scan

variable {α : Type}

def start (probe : List Token → Option (α × Nat)) (tokens : List Token) : Scan α :=
  ⟨probe, 0, some tokens⟩

/-- The scan behind `taken` tokens, or behind one if that is none. -/
def advance (scan : Scan α) (taken : Nat) : Scan α where
  probe := scan.probe
  position := scan.position + max taken 1
  ahead := match scan.ahead with
    | some (_ :: rest) => some (rest.drop (taken - 1))
    | _ => none

/-- What is found at the present position, and the scan moved on, unless it is over. -/
def step (scan : Scan α) : Option (Option (Found α) × Scan α) :=
  match scan.ahead with
  | none => none
  | some ahead =>
      match scan.probe ahead with
      | none => some (none, scan.advance 0)
      | some (label, taken) =>
          some (some ⟨label, ⟨scan.position, taken⟩⟩, scan.advance taken)

theorem step_eq_none_iff {scan : Scan α} : scan.step = none ↔ scan.ahead = none := by
  rw [step]
  split
  · rename_i closed
    simp [closed]
  · rename_i ahead opened
    rw [opened]
    split <;> simp

def room (scan : Scan α) : Nat :=
  match scan.ahead with
  | none => 0
  | some ahead => ahead.length + 1

theorem room_advance_lt {scan : Scan α} {ahead : List Token} (opened : scan.ahead = some ahead)
    (taken : Nat) : (scan.advance taken).room < scan.room := by
  cases ahead with
  | nil => simp [room, advance, opened]
  | cons token rest =>
      simp only [room, advance, opened, List.length_drop, List.length_cons]
      omega

theorem room_step_lt {scan moved : Scan α} {found : Option (Found α)}
    (stepped : scan.step = some (found, moved)) : moved.room < scan.room := by
  simp only [step] at stepped
  split at stepped
  · simp at stepped
  · rename_i ahead opened
    split at stepped
    · simp only [Option.some.injEq, Prod.mk.injEq] at stepped
      rw [← stepped.2]
      exact room_advance_lt opened 0
    · simp only [Option.some.injEq, Prod.mk.injEq] at stepped
      rw [← stepped.2]
      exact room_advance_lt opened _

def next (scan : Scan α) : Option (Found α) × Scan α :=
  match _stepped : scan.step with
  | none => (none, scan)
  | some (some found, moved) => (some found, moved)
  | some (none, moved) => moved.next
termination_by scan.room
decreasing_by exact room_step_lt _stepped

def toList (scan : Scan α) : List (Found α) :=
  match _stepped : scan.step with
  | none => []
  | some (some found, moved) => found :: moved.toList
  | some (none, moved) => moved.toList
termination_by scan.room
decreasing_by all_goals exact room_step_lt _stepped

/-- The scan past the end of its tokens. -/
def finish (scan : Scan α) : Scan α where
  probe := scan.probe
  position := scan.position + scan.room
  ahead := none

theorem toList_of_ended {scan : Scan α} (ended : scan.step = none) : scan.toList = [] := by
  rw [toList]
  split <;> simp_all

theorem toList_of_step {scan moved : Scan α} {found : Option (Found α)}
    (stepped : scan.step = some (found, moved)) :
    scan.toList = found.toList ++ moved.toList := by
  rw [toList]
  cases found <;> split <;> simp_all

theorem toList_finish (scan : Scan α) : scan.finish.toList = [] :=
  toList_of_ended rfl

theorem toList_next (scan : Scan α) :
    scan.toList = scan.next.1.toList ++ scan.next.2.toList := by
  fun_induction next scan with
  | case1 scan ended => simp
  | case2 scan found moved stepped => simp [toList_of_step stepped]
  | case3 scan moved stepped rest => simpa [toList_of_step stepped] using rest

end Scan

namespace Matcher

def probe (matcher : Matcher) (ahead : List Token) : Option (Unit × Nat) :=
  match matcher.consume ahead with
  | none => none
  | some taken =>
      if taken ≠ 0 ∨ matcher.options.reportEmpty = true then some ((), taken) else none

def scan (matcher : Matcher) (tokens : List Token) : Scan Unit := .start matcher.probe tokens

def findAll (matcher : Matcher) (tokens : List Token) : List Span :=
  (matcher.scan tokens).toList.map Found.span

end Matcher

def Pattern.findAll (pattern : Pattern) (tokens : List Token) : List Span :=
  Matcher.findAll ⟨pattern, {}⟩ tokens

end TokenPattern
