import TypedJson.Binary64.Shortest

/-!
# How a binary64 number is written

The shortest digits are laid out as `d.ddd` times a power of ten.  From 10^-5 to 10^15 the text is
positional, with at least one digit on either side of the point; beyond, the exponent is written
with its sign, and the point only if a digit follows it.
-/

namespace TypedJson

namespace Binary64

/-- The least and the greatest power of ten written positionally. -/
def positionalPowers : Int × Int := (-5, 15)

/-- The digits, of which the first counts `power` powers of ten, in positional form. -/
def positional (digits : List Char) (power : Int) : List Char :=
  if power < 0 then
    '0' :: '.' :: (List.replicate (-power - 1).toNat '0' ++ digits)
  else
    let whole := digits.take (power.toNat + 1)
    let fraction := digits.drop (power.toNat + 1)
    whole ++ List.replicate (power.toNat + 1 - digits.length) '0' ++
      '.' :: (if fraction.isEmpty then ['0'] else fraction)

/-- The digits, of which the first counts `power` powers of ten, with the power written out. -/
def scientific (digits : List Char) (power : Int) : List Char :=
  digits.take 1 ++ (if digits.length ≤ 1 then [] else '.' :: digits.drop 1) ++
    'e' :: (if power < 0 then '-' else '+') :: Nat.toDigits 10 power.natAbs

/-- The text of a magnitude. -/
def magnitudeChars (rank : Nat) : List Char :=
  let shortest := shortestOfRank rank
  let digits := Nat.toDigits 10 shortest.digits
  let power := shortest.exponent + digits.length - 1
  if positionalPowers.1 ≤ power ∧ power ≤ positionalPowers.2 then positional digits power
  else scientific digits power

/-- The text of a number; both zeros show their sign. -/
def chars (x : Binary64) : List Char :=
  if x.negative then '-' :: magnitudeChars x.rank else magnitudeChars x.rank

end Binary64

end TypedJson
