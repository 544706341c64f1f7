import TokenPattern.Count

namespace TokenPattern

/-- A number of repetitions from `min` to `max`, without an upper limit if `max` is `none`. -/
structure RepeatBounds where
  min : Nat
  max : Option Nat
  deriving DecidableEq, Repr

namespace RepeatBounds

def allowsMore (bounds : RepeatBounds) (count : Nat) : Bool :=
  match bounds.max with
  | none => true
  | some max => count < max

@[simp] theorem allowsMore_iff {bounds : RepeatBounds} {count : Nat} :
    bounds.allowsMore count = true ↔ ∀ max, bounds.max = some max → count < max := by
  cases bounded : bounds.max <;> simp [allowsMore, bounded]

theorem max_eq_of_not_allowsMore {bounds : RepeatBounds} {count : Nat}
    (below : ∀ max, bounds.max = some max → count ≤ max)
    (full : ¬ bounds.allowsMore count = true) : bounds.max = some count := by
  cases bounded : bounds.max with
  | none => simp [bounded] at full
  | some max =>
      have most : max ≤ count := by simpa [bounded] using full
      rw [Nat.le_antisymm most (below max bounded)]

end RepeatBounds

/-- Numbers of tokens, in the same way. -/
structure LengthBounds where
  min : Nat
  max : Option Nat
  deriving DecidableEq, Repr

namespace LengthBounds

def exact (length : Nat) : LengthBounds := ⟨length, some length⟩

def one : LengthBounds := exact 1

def nullable (bounds : LengthBounds) : Bool := bounds.min == 0

def contains (bounds : LengthBounds) (length : Nat) : Bool :=
  bounds.min ≤ length && match bounds.max with
    | none => true
    | some max => length ≤ max

def append (first second : LengthBounds) : LengthBounds where
  min := saturate (first.min + second.min)
  max := match first.max, second.max with
    | some a, some b => checked (a + b)
    | _, _ => none

def union (first second : LengthBounds) : LengthBounds where
  min := Nat.min first.min second.min
  max := match first.max, second.max with
    | some a, some b => some (Nat.max a b)
    | _, _ => none

def concat (parts : List LengthBounds) : LengthBounds := parts.foldl append (exact 0)

def choice : List LengthBounds → LengthBounds
  | [] => exact 0
  | first :: rest => rest.foldl union first

def orNothing (bounds : LengthBounds) : LengthBounds := ⟨0, bounds.max⟩

/-- As many matches as `times` allows. A greatest length of zero stays zero however often the item
is repeated, and so does anything that is repeated zero times. -/
def repeated (bounds : LengthBounds) (times : RepeatBounds) : LengthBounds where
  min := saturate (bounds.min * times.min)
  max := match bounds.max, times.max with
    | some 0, _ => some 0
    | _, some 0 => some 0
    | some a, some b => checked (a * b)
    | _, _ => none

@[simp] theorem contains_iff {bounds : LengthBounds} {length : Nat} :
    bounds.contains length = true ↔
      bounds.min ≤ length ∧ ∀ max, bounds.max = some max → length ≤ max := by
  cases top : bounds.max <;> simp [contains, top]

@[simp] theorem nullable_iff {bounds : LengthBounds} : bounds.nullable = true ↔ bounds.min = 0 := by
  simp [nullable]

end LengthBounds

end TokenPattern
