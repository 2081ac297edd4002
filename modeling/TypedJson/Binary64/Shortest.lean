import TypedJson.Binary64.Basic

/-!
# The shortest decimal that reads back

A decimal `digits * 10 ^ exponent` *reads back* as a number if it is nearest to it.  The coarsest
decimal grid that has a point reading back gives the fewest digits, and a grid with such a point
has one next to the number itself, so only the two neighbours on each grid are tried.  Of two that
read back the nearer is taken, on a tie the even one.
-/

namespace TypedJson

/-- The decimal `digits * 10 ^ exponent`. -/
structure Decimal where
  digits : Nat
  exponent : Int
  deriving DecidableEq, Repr

/-- The decimal as a fraction of units. -/
def Decimal.inUnits (d : Decimal) : Nat × Nat :=
  (d.digits * Binary64.tenPow d.exponent.toNat * Binary64.unitsPerOne,
    Binary64.tenPow (-d.exponent).toNat)

namespace Binary64

/-- Does the decimal, read as the nearest magnitude, give this rank? -/
def readsBack (rank : Nat) (d : Decimal) : Bool :=
  nearestRank d.inUnits.1 d.inUnits.2 == rank

/-- The point of the grid `10 ^ exponent` that reads back as this rank, the nearest if both
neighbours do. -/
def onGrid? (rank : Nat) (exponent : Int) : Option Decimal :=
  let num := unitsOfRank rank * tenPow (-exponent).toNat
  let den := tenPow exponent.toNat * unitsPerOne
  let below : Decimal := ⟨num / den, exponent⟩
  let above : Decimal := ⟨num / den + 1, exponent⟩
  match readsBack rank below, readsBack rank above with
  | true, true => some ⟨roundHalfEven num den, exponent⟩
  | true, false => some below
  | false, true => some above
  | false, false => none

/-- Grids are tried from 10^308, the coarsest with a finite point, to 10^-324, on which every
number has a neighbour that reads back. -/
def gridExponents : List Int := (List.range 633).map fun (i : Nat) => 308 - (i : Int)

/-- The shortest decimal that reads back as this rank, nearest to it among those. -/
def shortestOfRank (rank : Nat) : Decimal :=
  if rank = 0 then ⟨0, 0⟩ else (gridExponents.findSome? (onGrid? rank)).getD ⟨0, 0⟩

end Binary64

end TypedJson
