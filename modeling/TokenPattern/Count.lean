/-!
Counts of tokens. A count that belongs to a length bound is kept exactly up to `maxCount`; a least
length beyond it is written as `maxCount`, and a greatest length beyond it is given up.
-/

namespace TokenPattern

def maxCount : Nat := UInt64.size - 1

def saturate (count : Nat) : Nat := min count maxCount

def checked (count : Nat) : Option Nat := if count ≤ maxCount then some count else none

theorem one_le_maxCount : 1 ≤ maxCount := by decide

theorem saturate_le (count : Nat) : saturate count ≤ count := Nat.min_le_left _ _

theorem saturate_le_maxCount (count : Nat) : saturate count ≤ maxCount := Nat.min_le_right _ _

@[simp] theorem saturate_eq_zero {count : Nat} : saturate count = 0 ↔ count = 0 := by
  have positive := one_le_maxCount
  simp only [saturate]
  omega

theorem saturate_of_le {count : Nat} (small : count ≤ maxCount) : saturate count = count :=
  Nat.min_eq_left small

theorem saturate_of_ge {count : Nat} (large : maxCount ≤ count) : saturate count = maxCount :=
  Nat.min_eq_right large

theorem saturate_add (first second : Nat) :
    saturate (saturate first + saturate second) = saturate (first + second) := by
  simp only [saturate]
  omega

theorem saturate_min (first second : Nat) :
    Nat.min (saturate first) (saturate second) = saturate (Nat.min first second) := by
  change min (min first maxCount) (min second maxCount) = min (min first second) maxCount
  omega

theorem saturate_mul (count times : Nat) :
    saturate (saturate count * times) = saturate (count * times) := by
  cases times with
  | zero => rfl
  | succ times =>
      by_cases small : count ≤ maxCount
      · rw [saturate_of_le small]
      · have wide : maxCount ≤ saturate count * (times + 1) := by
          simp only [saturate, Nat.mul_succ]
          omega
        have wider : maxCount ≤ count * (times + 1) := by
          rw [Nat.mul_succ]
          omega
        rw [saturate_of_ge wide, saturate_of_ge wider]

@[simp] theorem checked_eq_some {count bound : Nat} :
    checked count = some bound ↔ count = bound ∧ count ≤ maxCount := by
  by_cases small : count ≤ maxCount <;> simp [checked, small]

@[simp] theorem checked_eq_none {count : Nat} : checked count = none ↔ maxCount < count := by
  simp [checked]

end TokenPattern
