namespace TokenPattern.Text

abbrev CodeRange := Nat × Nat

/-- The ranges ascend, do not meet, and none is empty. -/
def isAscending : List CodeRange → Bool
  | [] => true
  | [(low, high)] => low ≤ high
  | (low, high) :: (next, last) :: ranges =>
      low ≤ high && high + 1 < next && isAscending ((next, last) :: ranges)

def size (ranges : List CodeRange) : Nat :=
  ranges.foldl (fun total (low, high) => total + (high + 1 - low)) 0

def covers (ranges : List CodeRange) (c : Char) : Bool :=
  ranges.any fun (low, high) => low ≤ c.toNat && c.toNat ≤ high

@[simp] theorem covers_iff {ranges : List CodeRange} {c : Char} :
    covers ranges c = true ↔ ∃ range ∈ ranges, range.1 ≤ c.toNat ∧ c.toNat ≤ range.2 := by
  simp [covers]

end TokenPattern.Text
