import TypedJson.Path

/-!
# Decode errors

A decode error is a path, the place in the input that did not have the expected shape, and a reason.
`DecodeError.text` is its full text, `at input`, the path and the reason.
-/

namespace TypedJson

/-- Why a value was not accepted. -/
inductive Reason where
  /-- Another shape was expected than that of the value found. -/
  | mismatch (expected : String) (got : Kind)
  /-- An object lacks these keys. -/
  | missingKeys (keys : List String)
  /-- A message of a decoder's own. -/
  | message (text : String)
  deriving DecidableEq, Repr

/-- The shape of an object with these keys. -/
def missingKeysText (keys : List String) : String :=
  "object with keys: " ++ ", ".intercalate (keys.map keyText)

namespace Reason

/-- The shape that was expected, if the failure is about shape. -/
def expected? : Reason → Option String
  | mismatch expected _ => some expected
  | missingKeys keys => some (missingKeysText keys)
  | message _ => none

/-- The kind of the value found, if one is to blame. -/
def got? : Reason → Option String
  | mismatch _ got => some got.name
  | _ => none

/-- The message, if the failure is not about shape. -/
def message? : Reason → Option String
  | message text => some text
  | _ => none

/-- The reason in words. -/
def text : Reason → String
  | mismatch expected got => "expected " ++ expected ++ ", got " ++ got.name
  | missingKeys keys => "expected " ++ missingKeysText keys
  | message text => text

end Reason

/-- A failure at a place in the input. -/
structure DecodeError where
  path : Path
  reason : Reason
  deriving DecidableEq, Repr

/-- The place in words; the root is the empty text. -/
def DecodeError.location (e : DecodeError) : String := e.path.text

/-- The place and the reason in words. -/
def DecodeError.text (e : DecodeError) : String :=
  "at input" ++ e.location ++ ": " ++ e.reason.text

end TypedJson
