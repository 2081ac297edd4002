import TypedJson.Json.Failure

/-!
# Quoted strings

A string is written between double quotes.  A quote, a backslash and the characters below U+0020
are escaped, by a letter where there is one and by four hexadecimal digits otherwise; every other
character stands for itself.

Reading takes any of the escapes, a solidus escaped as well, and two escaped surrogates as one
character beyond U+FFFF.
-/

namespace TypedJson

namespace Quoted

/-! ## Writing -/

/-- The character escaped, if it has to be: by a letter or, below U+0020, by its code. -/
def escapeChar (c : Char) : List Char :=
  if c = '"' then ['\\', '"']
  else if c = '\\' then ['\\', '\\']
  else if c = '\n' then ['\\', 'n']
  else if c = '\r' then ['\\', 'r']
  else if c = '\t' then ['\\', 't']
  else if c = '\x08' then ['\\', 'b']
  else if c = '\x0c' then ['\\', 'f']
  else if c.toNat < 0x20 then
    ['\\', 'u', '0', '0', Nat.digitChar (c.toNat / 16), Nat.digitChar (c.toNat % 16)]
  else [c]

/-- The characters between the quotes. -/
def escape : List Char → List Char
  | [] => []
  | c :: rest => escapeChar c ++ escape rest

/-- The string between its quotes, as characters. -/
def chars (s : String) : List Char := '"' :: (escape s.toList ++ ['"'])

/-- The string between its quotes. -/
def quote (s : String) : String := String.ofList (chars s)

/-! ## Reading -/

/-- The character that a letter stands for after a backslash. -/
def unescapeLetter? : Char → Option Char
  | '"' => some '"'
  | '\\' => some '\\'
  | '/' => some '/'
  | 'b' => some '\x08'
  | 'f' => some '\x0c'
  | 'n' => some '\n'
  | 'r' => some '\r'
  | 't' => some '\t'
  | _ => none

/-- The value of a hexadecimal digit, in either case. -/
def hexValue? (c : Char) : Option Nat :=
  if c.isDigit then some (c.toNat - '0'.toNat)
  else if 'a' ≤ c ∧ c ≤ 'f' then some (c.toNat - 'a'.toNat + 10)
  else if 'A' ≤ c ∧ c ≤ 'F' then some (c.toNat - 'A'.toNat + 10)
  else none

/-- The value of four hexadecimal digits. -/
def hexCode? (a b c d : Char) : Option Nat :=
  match hexValue? a, hexValue? b, hexValue? c, hexValue? d with
  | some a, some b, some c, some d => some (((a * 16 + b) * 16 + c) * 16 + d)
  | _, _, _, _ => none

def isHighSurrogate (code : Nat) : Bool := 0xD800 ≤ code && code < 0xDC00

def isLowSurrogate (code : Nat) : Bool := 0xDC00 ≤ code && code < 0xE000

/-- The character beyond U+FFFF that two surrogates stand for. -/
def joinSurrogates (high low : Nat) : Char :=
  Char.ofNat (0x10000 + (high - 0xD800) * 0x400 + (low - 0xDC00))

/-- Four bytes are taken for a code: there are fewer, or they are not hexadecimal digits. -/
def codeFailure {α : Type} (s : List Char) : Except Failure α :=
  if byteLength s < 4 then Failure.here .endInString [] else .error ⟨.invalidEscape, s, 4⟩

/-- After a high surrogate no code follows that could be the low one. -/
def pairFailure {α : Type} : List Char → Except Failure α
  | [] => Failure.here .endInString []
  | ['\\'] => Failure.here .endInString []
  | '\\' :: 'u' :: rest => codeFailure rest
  | '\\' :: rest => Failure.peeking .unpairedEscape rest
  | rest => Failure.peeking .unpairedEscape rest

/-- Puts a character in front of what has been read. -/
def push (c : Char) : Reading (List Char) → Reading (List Char)
  | .ok (cs, rest) => .ok (c :: cs, rest)
  | .error f => .error f

/-- Reads on after the opening quote, past the closing one. -/
def body : List Char → Reading (List Char)
  | [] => Failure.here .endInString []
  | '"' :: rest => .ok ([], rest)
  | ['\\'] => Failure.here .endInString []
  | '\\' :: 'u' :: a :: b :: c :: d :: rest =>
    match hexCode? a b c d with
    | none => codeFailure (a :: b :: c :: d :: rest)
    | some code =>
      if isLowSurrogate code then Failure.here .loneSurrogate rest
      else if isHighSurrogate code then
        match rest with
        | '\\' :: 'u' :: e :: f :: g :: h :: rest =>
          match hexCode? e f g h with
          | none => codeFailure (e :: f :: g :: h :: rest)
          | some low =>
            if isLowSurrogate low then push (joinSurrogates code low) (body rest)
            else Failure.here .loneSurrogate rest
        | _ => pairFailure rest
      else push (Char.ofNat code) (body rest)
  | '\\' :: 'u' :: rest => codeFailure rest
  | '\\' :: c :: rest =>
    match unescapeLetter? c with
    | some x => push x (body rest)
    | none => Failure.peeking .invalidEscape (c :: rest)
  | c :: rest =>
    if c.toNat < 0x20 then Failure.peeking .controlCharacter (c :: rest) else push c (body rest)

/-- Reads on after the opening quote: the string, and the text after the closing one. -/
def read (s : List Char) : Reading String :=
  match body s with
  | .ok (cs, rest) => .ok (String.ofList cs, rest)
  | .error f => .error f

end Quoted

end TypedJson
