import TypedJson.Json.Basic
import TypedJson.Json.Numeral
import TypedJson.Json.Quoted

/-!
# Reading JSON text

`Json.read` makes a value of a text, or says where the text stops being JSON.  At most 127 arrays
and objects may be nested.  The members of an object are put in the order of their keys, and of
several members with one key the last stays.
-/

namespace TypedJson

namespace Json

/-- How many arrays and objects may be nested. -/
def nestingLimit : Nat := 127

/-- A character between tokens that means nothing. -/
def isBlank (c : Char) : Bool := c == ' ' || c == '\n' || c == '\t' || c == '\r'

def skipBlanks (s : List Char) : List Char := s.dropWhile isBlank

/-- Reads the rest of a keyword. -/
def readKeyword : List Char → List Char → Except Failure (List Char)
  | [], s => .ok s
  | _ :: _, [] => Failure.here .endInValue []
  | k :: ks, c :: s => if c = k then readKeyword ks s else Failure.peeking .expectedIdent (c :: s)

/-- What follows in an array or an object: its end, or an entry. -/
inductive Next where
  | finished (rest : List Char)
  | entry (rest : List Char)

/-- What follows in an array, at its start (`first`) or after an element. -/
def nextElement (first : Bool) (s : List Char) : Except Failure Next :=
  match skipBlanks s with
  | [] => Failure.peeking .endInList []
  | ']' :: rest => .ok (.finished rest)
  | c :: rest =>
    if first then .ok (.entry (c :: rest))
    else if c = ',' then
      match skipBlanks rest with
      | [] => Failure.peeking .endInValue []
      | ']' :: rest => Failure.peeking .trailingComma (']' :: rest)
      | rest => .ok (.entry rest)
    else Failure.peeking .expectedCommaOrBracket (c :: rest)

/-- What follows in an object, at its start (`first`) or after a member; an entry is a text just
after the quote that opens a key. -/
def nextMember (first : Bool) (s : List Char) : Except Failure Next :=
  match skipBlanks s with
  | [] => Failure.peeking .endInObject []
  | '\x7d' :: rest => .ok (.finished rest)
  | c :: rest =>
    if first then
      if c = '"' then .ok (.entry rest) else Failure.peeking .keyNotString (c :: rest)
    else if c = ',' then
      match skipBlanks rest with
      | [] => Failure.peeking .endInValue []
      | '"' :: rest => .ok (.entry rest)
      | '\x7d' :: rest => Failure.peeking .trailingComma ('\x7d' :: rest)
      | rest => Failure.peeking .keyNotString rest
    else Failure.peeking .expectedCommaOrBrace (c :: rest)

/-- Reads the colon between a key and its value. -/
def readColon (s : List Char) : Except Failure (List Char) :=
  match skipBlanks s with
  | [] => Failure.peeking .endInObject []
  | ':' :: rest => .ok rest
  | rest => Failure.peeking .expectedColon rest

/-- Reads the elements of an array up to its end.  Each turn reads one element, so the length of the
text bounds the turns. -/
def readElements (readValue : List Char → Reading Json) :
    Nat → Bool → List Char → Except Failure (List Json × List Char)
  | 0, _, s => Failure.peeking .endInList s
  | turns + 1, first, s => do
    match ← nextElement first s with
    | .finished rest => pure ([], rest)
    | .entry rest =>
      let (v, rest) ← readValue rest
      let (vs, rest) ← readElements readValue turns false rest
      pure (v :: vs, rest)

/-- Reads the members of an object up to its end, adding them to those already read.  Each turn
reads one member, so the length of the text bounds the turns. -/
def readMembers (readValue : List Char → Reading Json) :
    Nat → Bool → Members → List Char → Except Failure (Members × List Char)
  | 0, _, _, s => Failure.peeking .endInObject s
  | turns + 1, first, members, s => do
    match ← nextMember first s with
    | .finished rest => pure (members, rest)
    | .entry rest =>
      let (key, rest) ← Quoted.read rest
      let rest ← readColon rest
      let (v, rest) ← readValue rest
      readMembers readValue turns false (Members.insert key v members) rest

/-- Reads a value that nests at most `levels` arrays and objects. -/
def readValue (levels : Nat) (s : List Char) : Except Failure (Json × List Char) :=
  match skipBlanks s with
  | [] => Failure.peeking .endInValue []
  | 'n' :: rest => do return (null, ← readKeyword "ull".toList rest)
  | 't' :: rest => do return (boolean true, ← readKeyword "rue".toList rest)
  | 'f' :: rest => do return (boolean false, ← readKeyword "alse".toList rest)
  | '"' :: rest => do
    let (s, rest) ← Quoted.read rest
    pure (string s, rest)
  | '[' :: rest =>
    match levels with
    | 0 => Failure.peeking .nestedTooDeep ('[' :: rest)
    | levels + 1 => do
      let (vs, rest) ← readElements (readValue levels) (rest.length + 1) true rest
      pure (array vs, rest)
  | '\x7b' :: rest =>
    match levels with
    | 0 => Failure.peeking .nestedTooDeep ('\x7b' :: rest)
    | levels + 1 => do
      let (ms, rest) ← readMembers (readValue levels) (rest.length + 1) true [] rest
      pure (object ms, rest)
  | c :: rest =>
    if c = '-' ∨ c.isDigit then do
      let (n, rest) ← Numeral.read (c :: rest)
      pure (number n, rest)
    else Failure.peeking .expectedValue (c :: rest)

/-- Reads a text that is one value, with blanks before and after it. -/
def readChars (s : List Char) : Except Failure Json := do
  let (v, rest) ← readValue nestingLimit s
  match skipBlanks rest with
  | [] => pure v
  | rest => Failure.peeking .trailingCharacters rest

/-- The value of a text, or the first fault in it. -/
def read (text : String) : Except SyntaxError Json :=
  match readChars text.toList with
  | .ok v => .ok v
  | .error f => .error (f.inText text.toList)

end Json

end TypedJson
