import TypedJson.Conversion
import TypedJson.Path
import TypedJson.Timestamp

/-!
# Decoders

A decoder describes how a value of one type is made of a JSON value.  Decoders are data: they are
built from the combinators below and from nothing else, so that what they have in common can be
proved by induction.

A decoder may refer to definitions by their indices, also to the one it belongs to.  The family `τ`
gives the type that the definition of each index decodes; `Definitions τ` is a table of them.  There
may be infinitely many, such as one for every number that a continuation can come upon; a table over
`Fin n` is a finite one.  Tuples and objects take a family of decoders over the positions `Fin k`,
and yield the family of their values.
-/

namespace TypedJson

/-- Indices of definitions; in events a definition goes by the number of its index. -/
class Numbered (ι : Type) where
  number : ι → Nat

instance {n : Nat} : Numbered (Fin n) := ⟨Fin.val⟩

instance : Numbered Nat := ⟨id⟩

/-- How an `α` is made of a JSON value, with references to definitions of the types `τ`. -/
inductive Decoder {ι : Type} (τ : ι → Type) : Type → Type 1 where
  /-- A string. -/
  | string : Decoder τ String
  /-- A number, as the double nearest to it. -/
  | number : Decoder τ Binary64
  /-- A boolean. -/
  | boolean : Decoder τ Bool
  /-- Null. -/
  | null : Decoder τ Unit
  /-- Any value, as it is. -/
  | any : Decoder τ Json
  /-- Any object, as it is. -/
  | anyObject : Decoder τ Members
  /-- A value equivalent to the literal; the literal is what it yields. -/
  | equal (literal : Json) : Decoder τ Json
  /-- A string that spells a timestamp. -/
  | timestamp : Decoder τ Timestamp
  /-- What a conversion makes of the value. -/
  | convert {α : Type} (conversion : Conversion α) : Decoder τ α
  /-- All elements of an array, in order. -/
  | array {α : Type} (element : Decoder τ α) : Decoder τ (List α)
  /-- The first elements of an array, each by its own decoder. -/
  | tuple {k : Nat} {σ : Fin k → Type} (positions : (i : Fin k) → Decoder τ (σ i)) :
      Decoder τ ((i : Fin k) → σ i)
  /-- The members of an object that have these keys, each by its own decoder. -/
  | object {k : Nat} {σ : Fin k → Type} {α : Type} (keys : Fin k → String)
      (fields : (i : Fin k) → Decoder τ (σ i)) (construct : ((i : Fin k) → σ i) → α) : Decoder τ α
  /-- All members of an object, in the order of their keys. -/
  | dict {α : Type} (value : Decoder τ α) : Decoder τ (List (String × α))
  /-- What the decoder makes of the value at the end of a path. -/
  | atPath {α : Type} (path : Path) (inner : Decoder τ α) : Decoder τ α
  /-- What the first branch makes of the value that accepts it. -/
  | alternatives {α : Type} {k : Nat} (branches : Fin k → Decoder τ α) : Decoder τ α
  /-- What a second decoder, chosen by the value of the first, makes of the same value. -/
  | andThen {α β : Type} (first : Decoder τ α) (next : α → Decoder τ β) : Decoder τ β
  /-- The function of what the decoder yields. -/
  | transform {α β : Type} (label : Option String) (f : α → β) (inner : Decoder τ α) : Decoder τ β
  /-- What a definition makes of the value. -/
  | ref (definition : ι) : Decoder τ (τ definition)
  /-- Nothing: every value is rejected with the message. -/
  | fail {α : Type} (message : String) : Decoder τ α
  /-- The given result, whatever the value. -/
  | succeed {α : Type} (result : α) : Decoder τ α

/-- A table of decoders that may refer to each other. -/
abbrev Definitions {ι : Type} (τ : ι → Type) := (i : ι) → Decoder τ (τ i)

namespace Decoder

variable {ι : Type} {τ : ι → Type} {α β : Type}

/-- The function of what the decoder yields, without a label. -/
def map (f : α → β) (d : Decoder τ α) : Decoder τ β := transform none f d

/-- Tries the decoders in order, for the first that accepts the value. -/
def union (branches : List (Decoder τ α)) : Decoder τ α := alternatives branches.get

/-- Tries one decoder, then the others in order. -/
def oneOf (first : Decoder τ α) (others : List (Decoder τ α)) : Decoder τ α :=
  union (first :: others)

/-- Accepts also null, as nothing. -/
def nullable (d : Decoder τ α) : Decoder τ (Option α) :=
  oneOf (d.map some) [null.map fun _ => none]

instance : Inhabited (Decoder τ α) := ⟨fail "no decoder"⟩

end Decoder

end TypedJson
