/-!
# Why a text is not JSON

Reading stops at the first fault.  A `Failure` keeps the text that was still unread and how many
bytes of it had been looked at; `SyntaxError` places the fault by line and column.  Lines count
from one, a column is the number of bytes since the last line break, and bytes are those of the
UTF-8 encoding.
-/

namespace TypedJson

/-- What is wrong with a text. -/
inductive Fault where
  | endInValue | endInList | endInObject | endInString
  | expectedValue | expectedIdent | expectedColon | expectedCommaOrBracket | expectedCommaOrBrace
  | keyNotString | trailingComma | trailingCharacters
  | controlCharacter | invalidEscape | loneSurrogate | unpairedEscape
  | invalidNumber | numberOutOfRange | nestedTooDeep
  deriving DecidableEq, Repr

/-- The words for a fault. -/
def Fault.text : Fault → String
  | .endInValue => "EOF while parsing a value"
  | .endInList => "EOF while parsing a list"
  | .endInObject => "EOF while parsing an object"
  | .endInString => "EOF while parsing a string"
  | .expectedValue => "expected value"
  | .expectedIdent => "expected ident"
  | .expectedColon => "expected `:`"
  | .expectedCommaOrBracket => "expected `,` or `]`"
  | .expectedCommaOrBrace => "expected `,` or `\x7d`"
  | .keyNotString => "key must be a string"
  | .trailingComma => "trailing comma"
  | .trailingCharacters => "trailing characters"
  | .controlCharacter => "control character (\\u0000-\\u001F) found while parsing a string"
  | .invalidEscape => "invalid escape"
  | .loneSurrogate => "lone leading surrogate in hex escape"
  | .unpairedEscape => "unexpected end of hex escape"
  | .invalidNumber => "invalid number"
  | .numberOutOfRange => "number out of range"
  | .nestedTooDeep => "recursion limit exceeded"

/-- A fault, the text unread when it was found, and how many of its bytes had been looked at. -/
structure Failure where
  fault : Fault
  unread : List Char
  seen : Nat
  deriving DecidableEq, Repr

/-- What a reader makes of the front of a text, and the text it leaves. -/
abbrev Reading (α : Type) := Except Failure (α × List Char)

/-- The fault was found before looking at what is left. -/
def Failure.here {α : Type} (fault : Fault) (unread : List Char) : Except Failure α :=
  .error ⟨fault, unread, 0⟩

/-- The fault was found by looking at the next byte, or at the end of the text. -/
def Failure.peeking {α : Type} (fault : Fault) (unread : List Char) : Except Failure α :=
  .error ⟨fault, unread, 1⟩

/-- A fault and its place. -/
structure SyntaxError where
  fault : Fault
  line : Nat
  column : Nat
  deriving DecidableEq, Repr

/-- The fault and its place in words. -/
def SyntaxError.text (e : SyntaxError) : String :=
  e.fault.text ++ " at line " ++ Nat.repr e.line ++ " column " ++ Nat.repr e.column

/-- The number of bytes of a text. -/
def byteLength : List Char → Nat
  | [] => 0
  | c :: rest => c.utf8Size + byteLength rest

/-- Line and column some bytes further on. -/
def advance (line column : Nat) : Nat → List Char → Nat × Nat
  | _, [] => (line, column)
  | bytes, c :: rest =>
    if bytes = 0 then (line, column)
    else if c = '\n' then advance (line + 1) 0 (bytes - 1) rest
    else advance line (column + min bytes c.utf8Size) (bytes - c.utf8Size) rest

/-- The failure placed in the text that was being read. -/
def Failure.inText (f : Failure) (text : List Char) : SyntaxError :=
  let place := advance 1 0 (byteLength text - byteLength f.unread + f.seen) text
  ⟨f.fault, place.1, place.2⟩

end TypedJson
