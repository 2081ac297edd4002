import TypedJson.Json.Basic
import TypedJson.Json.Quoted

/-!
# Paths into a value

A path is a list of accessors, keys and indices, from the root down.  `Json.get?` follows one
accessor and `Json.resolve?` a path.  In the text of a path a key that is a bare identifier follows
a dot, any other key stands quoted in brackets, and an index stands in brackets.
-/

namespace TypedJson

/-- One step into a value: to the member of a key or to the element of an index. -/
inductive Accessor where
  | key (key : String)
  | index (index : Nat)
  deriving DecidableEq, Repr

/-- The accessors from the root of a value to a place inside it. -/
abbrev Path := List Accessor

/-! ## Following a path -/

namespace Json

/-- The value one accessor away: keys lead into objects, indices into arrays. -/
def get? : Json → Accessor → Option Json
  | object members, .key k => Members.find? k members
  | array elements, .index i => elements[i]?
  | _, _ => none

/-- The value at the end of a path. -/
def resolve? (v : Json) : Path → Option Json
  | [] => some v
  | a :: rest => (v.get? a).bind fun w => w.resolve? rest

theorem resolve?_append (v : Json) (p q : Path) :
    v.resolve? (p ++ q) = (v.resolve? p).bind fun w => w.resolve? q := by
  induction p generalizing v with
  | nil => rfl
  | cons a p ih =>
    simp only [List.cons_append, resolve?]
    cases v.get? a with
    | none => rfl
    | some w => exact ih w

end Json

/-! ## Text -/

/-- A letter of the ASCII alphabet, an underscore or a dollar sign. -/
def isIdentifierStart (c : Char) : Bool := c.isAlpha || c == '_' || c == '$'

/-- A character that may follow in an identifier: a start character or an ASCII digit. -/
def isIdentifierRest (c : Char) : Bool := isIdentifierStart c || c.isDigit

/-- Can the key be written without quotes? -/
def isBareKey (key : String) : Bool :=
  match key.toList with
  | [] => false
  | c :: rest => isIdentifierStart c && rest.all isIdentifierRest

/-- A key as error texts name it: bare if it is an identifier, quoted otherwise. -/
def keyText (key : String) : String := if isBareKey key then key else Quoted.quote key

/-- The text of an accessor. -/
def Accessor.text : Accessor → String
  | .key k => if isBareKey k then "." ++ k else "[" ++ Quoted.quote k ++ "]"
  | .index i => "[" ++ Nat.repr i ++ "]"

/-- The text of a path; that of the root is empty. -/
def Path.text : Path → String
  | [] => ""
  | a :: rest => a.text ++ Path.text rest

theorem Path.text_append (p q : Path) : Path.text (p ++ q) = p.text ++ q.text := by
  induction p with
  | nil => simp [Path.text]
  | cons a p ih => simp [Path.text, ih, String.append_assoc]

end TypedJson
