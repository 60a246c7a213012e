namespace Eligibility

/-- The rank of infinity: the finite magnitudes of a double are ranked from zero upwards. -/
def infinityRank : Nat := 0x7ff0000000000000

/-- The size of a double without its sign, as its place among all sizes: the lower 63 bits. -/
structure Magnitude where
  rank : Nat
  rank_le : rank ≤ infinityRank
deriving DecidableEq

def Magnitude.zero : Magnitude := ⟨0, Nat.zero_le _⟩

def Magnitude.infinity : Magnitude := ⟨infinityRank, Nat.le_refl _⟩

/-- An IEEE 754 double, all NaNs taken as one. -/
inductive Binary64 where
  | nan
  | signed (negative : Bool) (magnitude : Magnitude)
deriving DecidableEq

def Binary64.zero : Binary64 := .signed false .zero

def Binary64.isFinite : Binary64 → Bool
  | .nan => false
  | .signed _ magnitude => magnitude.rank < infinityRank

/-- The place on the number line; the two zeros share one and a NaN has none. -/
def Binary64.place? : Binary64 → Option Int
  | .nan => none
  | .signed false magnitude => some magnitude.rank
  | .signed true magnitude => some (-magnitude.rank)

/-- The order of two doubles, undefined as soon as one is a NaN. -/
def Binary64.compare? (x y : Binary64) : Option Ordering :=
  match x.place?, y.place? with
  | some a, some b => some (compare a b)
  | _, _ => none

theorem Binary64.compare?_nan_left (y : Binary64) : nan.compare? y = none := rfl

theorem Binary64.compare?_nan_right (x : Binary64) : x.compare? nan = none := by
  unfold compare?
  cases x.place? <;> rfl

end Eligibility
