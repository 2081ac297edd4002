/-!
# Finite binary64 numbers, exactly

Every finite binary64 number is a whole number of *units* of 2^-1074, and the finite magnitudes,
listed in increasing order, are numbered 0, 1, 2, ….  A number is stored as its sign and the
*rank* of its magnitude in that list, so two stored numbers are the same double iff they are equal,
and the rank is what the IEEE encoding keeps below the sign bit.

`nearestRank num den` is the rank of the magnitude nearest to `num / den` units, the even rank on a
tie.  Arithmetic is exact on units and rounds once; a result too large to be finite is `none`.
-/

namespace TypedJson

/-- How many magnitudes lie between one power of two and the next, 2^52. -/
def Binary64.perBinade : Nat := 0x10000000000000

/-- How many finite magnitudes there are. -/
def Binary64.rankBound : Nat := 2047 * Binary64.perBinade

/-- A finite binary64 number: a sign and the rank of a magnitude. -/
structure Binary64 where
  negative : Bool
  rank : Nat
  rank_lt : rank < Binary64.rankBound
  deriving DecidableEq, Repr

namespace Binary64

/-! ## Rounding -/

/-- `num / den` rounded to the nearest whole number, a half to the even neighbour. -/
def roundHalfEven (num den : Nat) : Nat :=
  let quotient := num / den
  let twice := 2 * (num % den)
  if twice < den then quotient
  else if den < twice then quotient + 1
  else quotient + quotient % 2

/-- How many times the spacing of magnitudes has doubled at `num / den` units. -/
def spacing (num den : Nat) : Nat := (num / den).log2 - 52

/-- The rank nearest to `num / den` units, the even one on a tie. -/
def nearestRank (num den : Nat) : Nat :=
  let k := spacing num den
  perBinade * k + roundHalfEven num (den <<< k)

/-- The number nearest to `± num / den` units, if that is finite. -/
def ofUnits? (negative : Bool) (num den : Nat) : Option Binary64 :=
  if h : nearestRank num den < rankBound then some ⟨negative, nearestRank num den, h⟩ else none

/-- How many units the magnitude of this rank has. -/
def unitsOfRank (rank : Nat) : Nat :=
  if rank < perBinade then rank
  else (perBinade + rank % perBinade) <<< (rank / perBinade - 1)

/-! ## Values -/

/-- The magnitude, in units. -/
def units (x : Binary64) : Nat := unitsOfRank x.rank

/-- The value, in units; both zeros have the value 0. -/
def signedUnits (x : Binary64) : Int := if x.negative then -(x.units : Int) else x.units

/-- How many binary places the unit is below one. -/
def unitPlaces : Nat := 1074

/-- One, in units. -/
def unitsPerOne : Nat := 1 <<< unitPlaces

def zero : Binary64 := ⟨false, 0, by decide⟩

def isZero (x : Binary64) : Bool := x.rank == 0

/-- The same magnitude with the other sign. -/
def neg (x : Binary64) : Binary64 := { x with negative := !x.negative }

/-- Numeric equality: that of the values, so the two zeros are equal. -/
def sameValue (x y : Binary64) : Bool := x.signedUnits == y.signedUnits

/-- The number with 0.0 in the place of -0.0. -/
def unsignZero (x : Binary64) : Binary64 := if x.isZero then zero else x

/-- The IEEE encoding, as a number below 2^64. -/
def bits (x : Binary64) : Nat := (if x.negative then 0x8000000000000000 else 0) + x.rank

/-! ## Whole numbers -/

theorem roundHalfEven_le (num den : Nat) : roundHalfEven num den ≤ num / den + 1 := by
  simp only [roundHalfEven]
  split
  · omega
  · split <;> omega

/-- A magnitude below 2^1138 units, that is below 2^64, has a finite neighbour. -/
theorem nearestRank_lt_rankBound {num e : Nat} (h : num < 1 <<< e) (he : e ≤ 1138) :
    nearestRank num 1 < rankBound := by
  rw [Nat.one_shiftLeft] at h
  have hk : spacing num 1 ≤ 1085 := by
    rcases Nat.eq_zero_or_pos num with h0 | h0
    · subst h0; decide
    · have := (Nat.log2_lt (by omega)).2 h
      simp only [spacing, Nat.div_one]
      omega
  have hq : num / 2 ^ spacing num 1 < 2 ^ 53 := by
    rw [Nat.div_lt_iff_lt_mul (Nat.two_pow_pos _), ← Nat.pow_add]
    refine Nat.lt_of_lt_of_le (Nat.lt_log2_self (n := num)) (Nat.pow_le_pow_right (by omega) ?_)
    simp only [spacing, Nat.div_one]
    omega
  have hr := roundHalfEven_le num (1 <<< spacing num 1)
  rw [Nat.one_shiftLeft] at hr
  have hk' : perBinade * spacing num 1 ≤ perBinade * 1085 := Nat.mul_le_mul_left _ hk
  simp only [nearestRank, Nat.one_shiftLeft, rankBound, perBinade] at *
  omega

theorem mul_unitsPerOne_lt {n e : Nat} (h : n < 1 <<< e) :
    n * unitsPerOne < 1 <<< (e + unitPlaces) := by
  simp only [unitsPerOne, Nat.one_shiftLeft, Nat.pow_add] at *
  exact Nat.mul_lt_mul_of_pos_right h (Nat.two_pow_pos _)

/-- The number nearest to a whole number of magnitude below 2^64. -/
def ofWhole (value : Int) (h : value.natAbs < 0x10000000000000000) : Binary64 :=
  ⟨decide (value < 0), nearestRank (value.natAbs * unitsPerOne) 1,
    nearestRank_lt_rankBound (mul_unitsPerOne_lt (e := 64) h) (by decide)⟩

/-! ## Products and quotients -/

/-- The product, rounded. -/
def mul? (x y : Binary64) : Option Binary64 :=
  ofUnits? (x.negative != y.negative) (x.units * y.units) unitsPerOne

/-- The quotient by a number other than zero, rounded. -/
def div? (x y : Binary64) : Option Binary64 :=
  if y.isZero then none
  else ofUnits? (x.negative != y.negative) (x.units * unitsPerOne) y.units

/-- The power of ten, exactly. -/
def tenPow (k : Nat) : Nat := Nat.pow 10 k

/-- The power of ten, rounded. -/
def powerOfTen? (k : Nat) : Option Binary64 := ofUnits? false (tenPow k * unitsPerOne) 1

end Binary64

end TypedJson
