import TypedJson.Json.Printer
import TypedJson.Text.Unprintable

/-!
# Conversions of single values

A conversion makes a value of one Lean type of a JSON value, or says why it cannot.  Conversions
know nothing of places: who applies one says where.  Whole numbers are converted only from whole
numbers, in the range of the format; doubles from any number.
-/

namespace TypedJson

/-! ## Errors -/

/-- What was found instead of what a conversion expects. -/
inductive Found where
  | null
  | boolean (value : Bool)
  | whole (value : Int)
  | double (value : Binary64)
  | string (value : String)
  | sequence
  | map
  deriving DecidableEq, Repr

/-- Why a conversion fails. -/
inductive ConversionError where
  | invalidType (found : Found) (expected : String)
  | invalidValue (found : Found) (expected : String)
  | invalidLength (length : Nat) (expected : String)
  | missingField (name : String)
  /-- A message of the conversion's own. -/
  | custom (message : String)
  deriving DecidableEq, Repr

/-- What a JSON value is to a conversion that does not accept it. -/
def Found.ofJson : Json → Found
  | .null => null
  | .boolean b => boolean b
  | .number (.whole n _) => whole n
  | .number (.double x) => double x
  | .string s => string s
  | .array _ => sequence
  | .object _ => map

/-- A character as an error text shows it: some by a letter, unprintable ones by their code. -/
def shownChar (c : Char) : List Char :=
  if c = '"' then ['\\', '"']
  else if c = '\\' then ['\\', '\\']
  else if c = '\n' then ['\\', 'n']
  else if c = '\r' then ['\\', 'r']
  else if c = '\t' then ['\\', 't']
  else if c = '\x00' then ['\\', '0']
  else if isUnprintable c then '\\' :: 'u' :: '\x7b' :: (Nat.toDigits 16 c.toNat ++ ['\x7d'])
  else [c]

/-- What was found, in words. -/
def Found.text : Found → String
  | null => "null"
  | boolean b => "boolean `" ++ (if b then "true" else "false") ++ "`"
  | whole n => "integer `" ++ toString n ++ "`"
  | double x => "floating point `" ++ String.ofList x.chars ++ "`"
  | string s => "string \"" ++ String.ofList (s.toList.flatMap shownChar) ++ "\""
  | sequence => "sequence"
  | map => "map"

/-- The error in words. -/
def ConversionError.text : ConversionError → String
  | invalidType found expected => "invalid type: " ++ found.text ++ ", expected " ++ expected
  | invalidValue found expected => "invalid value: " ++ found.text ++ ", expected " ++ expected
  | invalidLength length expected =>
    "invalid length " ++ Nat.repr length ++ ", expected " ++ expected
  | missingField name => "missing field `" ++ name ++ "`"
  | custom message => message

/-! ## Conversions -/

/-- Makes an `α` of a JSON value, or says why not. -/
abbrev Conversion (α : Type) := Json → Except ConversionError α

namespace Conversion

/-- The value is of another type. -/
def mismatch {α : Type} (v : Json) (expected : String) : Except ConversionError α :=
  .error (.invalidType (Found.ofJson v) expected)

/-- A format of whole numbers: its name and its range. -/
structure WholeFormat where
  name : String
  least : Int
  greatest : Int

/-- The unsigned format of this many bits. -/
def WholeFormat.unsigned (bits : Nat) : WholeFormat :=
  ⟨"u" ++ Nat.repr bits, 0, ((1 <<< bits : Nat) : Int) - 1⟩

/-- The signed format of this many bits, in two's complement. -/
def WholeFormat.signed (bits : Nat) : WholeFormat :=
  ⟨"i" ++ Nat.repr bits, -((1 <<< (bits - 1) : Nat) : Int), ((1 <<< (bits - 1) : Nat) : Int) - 1⟩

def boolean : Conversion Bool
  | .boolean b => .ok b
  | v => mismatch v "a boolean"

/-- A whole number in the range of the format. -/
def whole (format : WholeFormat) : Conversion Int
  | .number (.whole n _) =>
    if format.least ≤ n ∧ n ≤ format.greatest then .ok n
    else .error (.invalidValue (.whole n) format.name)
  | v => mismatch v format.name

/-- The double nearest to any number. -/
def double : Conversion Binary64
  | .number n => .ok n.toBinary64
  | v => mismatch v "f64"

def string : Conversion String
  | .string s => .ok s
  | v => mismatch v "a string"

/-- Nothing for null, else a value. -/
def optional {α : Type} (value : Conversion α) : Conversion (Option α)
  | .null => .ok none
  | v => (value v).map some

/-- All elements of an array, in order. -/
def sequence {α : Type} (element : Conversion α) : Conversion (List α)
  | .array vs => vs.mapM element
  | v => mismatch v "a sequence"

/-- Exactly two elements, in order; `what` says what they would make. -/
def twoElements {α β : Type} (what : String) (first : Conversion α) (second : Conversion β) :
    List Json → Except ConversionError (α × β)
  | [] => .error (.invalidLength 0 what)
  | [v] => do
    let _ ← first v
    .error (.invalidLength 1 what)
  | v :: w :: rest => do
    let a ← first v
    let b ← second w
    if rest.isEmpty then pure (a, b)
    else .error (.invalidLength (rest.length + 2) "fewer elements in array")

/-- A pair, from an array. -/
def pair {α β : Type} (first : Conversion α) (second : Conversion β) : Conversion (α × β)
  | .array vs => twoElements "a tuple of size 2" first second vs
  | v => mismatch v "a tuple of size 2"

/-- A record type of two fields. -/
structure RecordOfTwo (α β : Type) where
  name : String
  firstField : String
  first : Conversion α
  secondField : String
  second : Conversion β

namespace RecordOfTwo

variable {α β : Type}

/-- Takes the fields from the members, in the order of the members; members of other keys do not
count. -/
def takeFields (r : RecordOfTwo α β) (a : Option α) (b : Option β) :
    Members → Except ConversionError (Option α × Option β)
  | [] => pure (a, b)
  | (key, v) :: rest => do
    if key = r.firstField then r.takeFields (some (← r.first v)) b rest
    else if key = r.secondField then r.takeFields a (some (← r.second v)) rest
    else r.takeFields a b rest

/-- A record from the fields in order or by name.  A bad value is reported before a missing field,
and the fields missing in the order of their declaration. -/
def conversion (r : RecordOfTwo α β) : Conversion (α × β)
  | .array vs =>
    twoElements ("struct " ++ r.name ++ " with 2 elements") r.first r.second vs
  | .object members => do
    match ← r.takeFields none none members with
    | (some a, some b) => pure (a, b)
    | (none, _) => .error (.missingField r.firstField)
    | (_, none) => .error (.missingField r.secondField)
  | v => mismatch v ("struct " ++ r.name)

end RecordOfTwo

end Conversion

end TypedJson
