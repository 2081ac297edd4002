import TypedJson.Binary64.Layout

/-!
# JSON numbers

A number is a whole number of 64 bits, signed or unsigned, or a finite double.  Every number has a
nearest double, and two numbers are *numerically equal* iff those doubles have one value; above
2^53 that identifies neighbouring whole numbers.
-/

namespace TypedJson

/-- A JSON number: a whole number from -2^63 to 2^64 - 1, or a double. -/
inductive Number where
  | whole (value : Int)
      (inRange : -9223372036854775808 ≤ value ∧ value ≤ 18446744073709551615)
  | double (value : Binary64)
  deriving DecidableEq, Repr

namespace Number

/-- The double nearest to the number. -/
def toBinary64 : Number → Binary64
  | .whole value inRange => Binary64.ofWhole value (by omega)
  | .double value => value

/-- Are both whole numbers or both doubles, and of the same value? -/
def identical : Number → Number → Bool
  | .whole m _, .whole n _ => m == n
  | .double x, .double y => x.sameValue y
  | _, _ => false

/-- Do the nearest doubles have the same value? -/
def sameValue (a b : Number) : Bool := a.toBinary64.sameValue b.toBinary64

/-- The text of the number: a whole number has neither point nor exponent, a double has one. -/
def chars : Number → List Char
  | .whole value _ =>
    if value < 0 then '-' :: Nat.toDigits 10 value.natAbs else Nat.toDigits 10 value.natAbs
  | .double value => value.chars

end Number

end TypedJson
