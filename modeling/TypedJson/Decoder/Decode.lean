import TypedJson.Decoder.Basic
import TypedJson.Decoder.Runner
import TypedJson.Json.Reader

/-!
# Decoding

`Decoder.runner` gives a decoder its meaning, from the runners of the definitions.  A definition is
run with a budget of calls that may still be nested in it, and a run that ends within one budget is
the same within every greater one.

A nested call of the same definition at the same place would run for ever, since it is a function
of both, and the places of nested calls lie on one path down the input.  So with a finite table a
run that ends never nests more calls than there are definitions, times the places on a longest path:
that is the budget `Definitions.budget`, and a run that exhausts it does not end.
-/

namespace TypedJson

section

variable {ι : Type} [Numbered ι] {τ : ι → Type}

/-- What a decoder does, given what the definitions do. -/
def Decoder.runner (call : (i : ι) → Runner (τ i)) : {α : Type} → Decoder τ α → Runner α
  | _, .string => Runner.string
  | _, .number => Runner.number
  | _, .boolean => Runner.boolean
  | _, .null => Runner.null
  | _, .any => Runner.any
  | _, .anyObject => Runner.anyObject
  | _, .equal literal => Runner.equal literal
  | _, .timestamp => Runner.timestamp
  | _, .convert conversion => Runner.convert conversion
  | _, .array element => Runner.array (element.runner call)
  | _, .tuple positions => Runner.tuple fun i => (positions i).runner call
  | _, .object keys fields construct =>
    Runner.object keys (fun i => (fields i).runner call) construct
  | _, .dict value => Runner.dict (value.runner call)
  | _, .atPath path inner => Runner.atPath (inner.runner call) path
  | _, .alternatives branches =>
    Runner.alternatives (List.ofFn fun i => (branches i).runner call)
  | _, .andThen first next => Runner.andThen (first.runner call) fun a => (next a).runner call
  | _, .transform label f inner => Runner.transform label f (inner.runner call)
  | _, .ref i => Runner.enter (Numbered.number i) (call i)
  | _, .fail message => Runner.fail message
  | _, .succeed result => Runner.succeed result

/-- A union tries the runners of its branches. -/
theorem Decoder.runner_union {α : Type} (call : (i : ι) → Runner (τ i))
    (branches : List (Decoder τ α)) :
    (Decoder.union branches).runner call =
      Runner.alternatives (branches.map fun d => d.runner call) := by
  simp only [Decoder.union, Decoder.runner]
  congr 1
  exact List.ext_getElem (by simp) fun i _ _ => by simp

/-- What a definition does if so many calls may still be nested, itself included. -/
def Definitions.call (defs : Definitions τ) : Nat → (i : ι) → Runner (τ i)
  | 0, _ => fun _ _ => Run.endless
  | budget + 1, i => (defs i).runner (Definitions.call defs budget)

/-- What a decoder makes of a value at a place if so many calls may be nested. -/
def Decoder.runWithin {α : Type} (defs : Definitions τ) (budget : Nat) (d : Decoder τ α) :
    Runner α :=
  d.runner (defs.call budget)

end

/-! ## Whole inputs -/

/-- Options of a decode. -/
structure Options where
  /-- How many accessors below the root definitions may still be entered. -/
  maxDepth : Option Nat

namespace Options

/-- No limit on the depth. -/
def unlimited : Options := ⟨none⟩

/-- The options with this limit on the depth. -/
def withMaxDepth (_ : Options) (depth : Nat) : Options := ⟨some depth⟩

end Options

/-- Tells of the error, if the run ends with one. -/
def Run.reportFailure {α : Type} (r : Run α) : Run α :=
  match r.outcome with
  | .error e => ⟨.error e, r.events ++ [.failed e]⟩
  | _ => r

/-- Decodes a value from its root if so many calls may be nested. -/
def Decoder.decodeWithin {ι : Type} [Numbered ι] {τ : ι → Type} {α : Type} (defs : Definitions τ)
    (budget : Nat) (d : Decoder τ α) (options : Options) (input : Json) : Run α :=
  (d.runWithin defs budget input (Place.root options.maxDepth)).reportFailure

section

variable {n : Nat} {τ : Fin n → Type} {α : Type}

/-- The most calls that a run ending on this input can nest. -/
def Definitions.budget (_ : Definitions τ) (input : Json) : Nat := n * (input.height + 1)

/-- Decodes a value from its root. -/
def Decoder.decode (defs : Definitions τ) (d : Decoder τ α) (options : Options) (input : Json) :
    Run α :=
  d.decodeWithin defs (defs.budget input) options input

/-- Reads a text as JSON and decodes its value; a text that is not JSON has no run. -/
def Decoder.decodeText (defs : Definitions τ) (d : Decoder τ α) (options : Options)
    (text : String) : Except SyntaxError (Run α) :=
  match Json.read text with
  | .ok input => .ok (d.decode defs options input)
  | .error e => .error e

end

end TypedJson
