import TypedJson.Json.Failure
import TypedJson.Json.Number

/-!
# Reading numbers

A numeral is an optional minus, digits without a leading zero, an optional fraction and an optional
exponent.  Its digits are taken up while the number they spell fits 64 bits: further digits before
the point only raise the power of ten, further digits after it are dropped.

Without fraction, exponent or digits in excess the result is a whole number, unless it is a negative
zero or below -2^63.  Otherwise it is a double: the nearest to the digits taken up, multiplied or
divided by the double nearest to the power of ten, each step rounded.
-/

namespace TypedJson

namespace Numeral

/-- The value of an ASCII digit. -/
def digitValue (c : Char) : Nat := c.toNat - '0'.toNat

/-- Takes up digits while the number spelled stays below the limit; the others are left. -/
def takeUp {limit : Nat} : Fin limit → List Char → Fin limit × List Char
  | n, [] => (n, [])
  | n, c :: rest =>
    if h : n.val * 10 + digitValue c < limit then takeUp ⟨n.val * 10 + digitValue c, h⟩ rest
    else (n, c :: rest)

/-- The digits of a numeral, as far as 64 bits hold them. -/
abbrev Significand := Fin 0x10000000000000000

/-- The double nearest to the digits. -/
def Significand.toBinary64 (n : Significand) : Binary64 :=
  Binary64.ofWhole (n.val : Int) (by omega)

/-- The greatest power of ten that is multiplied or divided by at once. -/
def greatestPower : Nat := 308

/-- The double divided by a power of ten, in steps of at most `greatestPower`. -/
def lower (x : Binary64) (power : Nat) : Option Binary64 :=
  if power ≤ greatestPower then (Binary64.powerOfTen? power).bind x.div?
  else if x.isZero then some x
  else (Binary64.powerOfTen? greatestPower).bind x.div? |>.bind (lower · (power - greatestPower))
termination_by power
decreasing_by simp [greatestPower] at *; omega

/-- The double multiplied by a power of ten; zero stays zero. -/
def raise (x : Binary64) (power : Nat) : Option Binary64 :=
  if power ≤ greatestPower then (Binary64.powerOfTen? power).bind x.mul?
  else if x.isZero then some x
  else none

/-- The double of these digits times a power of ten, if it is finite. -/
def scaled (n : Significand) (power : Int) : Option Binary64 :=
  if power < 0 then lower n.toBinary64 power.natAbs else raise n.toBinary64 power.natAbs

/-- The double with its sign. -/
def signed (negative : Bool) (x : Binary64) : Number := .double (if negative then x.neg else x)

/-- The number of a numeral that has neither fraction nor exponent. -/
def whole (negative : Bool) (n : Significand) : Number :=
  if h : negative = true then
    if h : 0 < n.val ∧ n.val ≤ 9223372036854775808 then .whole (-(n.val : Int)) (by omega)
    else signed true n.toBinary64
  else .whole (n.val : Int) (by omega)

/-- The double of a numeral that has been read up to the text left. -/
def double (negative : Bool) (n : Significand) (power : Int) (rest : List Char) : Reading Number :=
  match scaled n power with
  | some x => .ok (signed negative x, rest)
  | none => Failure.here .numberOutOfRange rest

/-- Reads on after the mark of the exponent. -/
def exponent (negative : Bool) (n : Significand) (power : Int) (s : List Char) : Reading Number :=
  let (lowers, s) : Bool × List Char :=
    match s with
    | '+' :: rest => (false, rest)
    | '-' :: rest => (true, rest)
    | _ => (false, s)
  match s with
  | [] => Failure.here .endInValue []
  | c :: _ =>
    if c.isDigit then
      let rest := s.dropWhile Char.isDigit
      match takeUp (⟨0, by decide⟩ : Fin 0x80000000) (s.takeWhile Char.isDigit) with
      | (e, []) => double negative n (if lowers then power - e.val else power + e.val) rest
      | (_, _ :: more) =>
        if n.val ≠ 0 ∧ lowers = false then Failure.here .numberOutOfRange (more ++ rest)
        else .ok (signed negative Binary64.zero, rest)
    else Failure.peeking .invalidNumber s

/-- Reads on after the point. -/
def fraction (negative : Bool) (n : Significand) (power : Int) (s : List Char) : Reading Number :=
  let digits := s.takeWhile Char.isDigit
  let rest := s.dropWhile Char.isDigit
  if digits.isEmpty then Failure.peeking (if rest.isEmpty then .endInValue else .invalidNumber) rest
  else
    let (n, dropped) := takeUp n digits
    let power := power - (digits.length - dropped.length : Nat)
    match rest with
    | 'e' :: rest | 'E' :: rest => exponent negative n power rest
    | _ => double negative n power rest

/-- Reads on after the sign. -/
def unsigned (negative : Bool) (s : List Char) : Reading Number :=
  match s with
  | [] => Failure.here .endInValue []
  | c :: s' =>
    if ¬ c.isDigit then Failure.peeking .invalidNumber s
    else if c = '0' ∧ (s'.head?.any Char.isDigit) then Failure.peeking .invalidNumber s'
    else
      let (n, excess) := takeUp (⟨0, by decide⟩ : Significand) (s.takeWhile Char.isDigit)
      match s.dropWhile Char.isDigit with
      | '.' :: rest => fraction negative n excess.length rest
      | 'e' :: rest | 'E' :: rest => exponent negative n excess.length rest
      | rest =>
        if excess.isEmpty then .ok (whole negative n, rest)
        else double negative n excess.length rest

/-- Reads a number from a text that starts with a minus or a digit. -/
def read : List Char → Reading Number
  | '-' :: rest => unsigned true rest
  | s => unsigned false s

end Numeral

end TypedJson
