import TypedJson.Json.Basic
import TypedJson.Json.Quoted

/-!
# The canonical text of a value

A value is written without blanks, its members in ascending order of their keys, as they are
listed.
-/

namespace TypedJson

namespace Json

mutual
/-- The text of a value, as characters. -/
def chars : Json → List Char
  | null => "null".toList
  | boolean true => "true".toList
  | boolean false => "false".toList
  | number n => n.chars
  | string s => Quoted.chars s
  | array elements => '[' :: elementsChars true elements
  | object members => '\x7b' :: membersChars true members

/-- The rest of an array, from its first element or from a later one, with the closing bracket. -/
def elementsChars (first : Bool) : List Json → List Char
  | [] => [']']
  | v :: rest => (if first then [] else [',']) ++ v.chars ++ elementsChars false rest

/-- The rest of an object, from its first member or from a later one, with the closing brace. -/
def membersChars (first : Bool) : List (String × Json) → List Char
  | [] => ['\x7d']
  | (key, v) :: rest =>
    (if first then [] else [',']) ++ Quoted.chars key ++ ':' :: v.chars ++ membersChars false rest
end

/-- The canonical text of a value. -/
def render (v : Json) : String := String.ofList v.chars

end Json

end TypedJson
