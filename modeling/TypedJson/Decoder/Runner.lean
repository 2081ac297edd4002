import TypedJson.Json.Equality
import TypedJson.Conversion
import TypedJson.Run
import TypedJson.Timestamp

/-!
# What the combinators do

A *runner* makes a run of a value and the place where it stands.  Each combinator of decoders has
its meaning here, as a function of the runners of its parts.  A place is the path from the root of
the input, with the number of its accessors and the limit that definitions set to it.
-/

namespace TypedJson

/-- The path from the root of the input to the value at hand, how many accessors it has, and the
greatest number of them at which a definition may still be entered. -/
structure Place where
  path : Path
  depth : Nat
  limit : Option Nat
  depth_eq : depth = path.length

namespace Place

/-- The root of an input. -/
def root (limit : Option Nat) : Place := ⟨[], 0, limit, rfl⟩

/-- The place one accessor further down. -/
def child (p : Place) (a : Accessor) : Place :=
  ⟨p.path ++ [a], p.depth + 1, p.limit, by simp [p.depth_eq]⟩

/-- Is the place deeper than the limit allows? -/
def isTooDeep (p : Place) : Bool := p.limit.any (· < p.depth)

end Place

/-- What to make of a value at a place. -/
abbrev Runner (α : Type) := Json → Place → Run α

namespace Runner

variable {α β : Type}

/-- Fails because another shape was expected. -/
def mismatch (expected : String) : Runner α :=
  fun v p => Run.fail p.path (.mismatch expected v.kind)

/-! ## Single values -/

def string : Runner String
  | .string s, _ => pure s
  | v, p => mismatch "string" v p

def number : Runner Binary64
  | .number n, _ => pure n.toBinary64
  | v, p => mismatch "number" v p

def boolean : Runner Bool
  | .boolean b, _ => pure b
  | v, p => mismatch "boolean" v p

def null : Runner Unit
  | .null, _ => pure ()
  | v, p => mismatch "null" v p

def any : Runner Json := fun v _ => pure v

def anyObject : Runner Members
  | .object members, _ => pure members
  | v, p => mismatch "object" v p

/-- The text of the literal is what a value that differs is told. -/
def equal (literal : Json) : Runner Json := fun v p =>
  if literal.equivalent v then pure literal else mismatch literal.render v p

def timestamp : Runner Timestamp
  | .string s, p =>
    match Timestamp.read? s with
    | some t => pure t
    | none => mismatch "timestamp" (.string s) p
  | v, p => mismatch "timestamp" v p

def convert (conversion : Conversion α) : Runner α := fun v p =>
  match conversion v with
  | .ok a => pure a
  | .error e => Run.fail p.path (.message e.text)

/-! ## Arrays and objects -/

/-- The elements from an index on, in order; the first that fails ends the run. -/
def elements (element : Runner α) (p : Place) : Nat → List Json → Run (List α)
  | _, [] => pure []
  | i, v :: rest => do
    let a ← element v (p.child (.index i))
    (elements element p (i + 1) rest).map fun others => a :: others

def array (element : Runner α) : Runner (List α)
  | .array vs, p => elements element p 0 vs
  | v, p => mismatch "array" v p

/-- The element at a position; a position past the end fails where the element would be. -/
def position (decoder : Runner α) (vs : List Json) (p : Place) (i : Nat) : Run α :=
  match vs[i]? with
  | some v => decoder v (p.child (.index i))
  | none =>
    Run.fail (p.child (.index i)).path (.mismatch ("array with index " ++ Nat.repr i) .array)

def tuple {k : Nat} {σ : Fin k → Type} (positions : (i : Fin k) → Runner (σ i)) :
    Runner ((i : Fin k) → σ i)
  | .array vs, p => Run.collect fun i => position (positions i) vs p i
  | v, p => mismatch "array" v p

/-- The member of a key, or nothing if there is none. -/
def field (decoder : Runner α) (key : String) (members : Members) (p : Place) : Run (Option α) :=
  match Members.find? key members with
  | some v => (decoder v (p.child (.key key))).map some
  | none => pure none

/-- All values of a family, if none is lacking. -/
def allPresent? : {k : Nat} → {σ : Fin k → Type} → ((i : Fin k) → Option (σ i)) →
    Option ((i : Fin k) → σ i)
  | 0, _, _ => some fun i => i.elim0
  | _ + 1, _, values => do
    let first ← values 0
    let others ← allPresent? fun i => values i.succ
    return Fin.cases first others

/-- The keys that no member has, in ascending order. -/
def missingKeys (keys : List String) (members : Members) : List String :=
  (keys.filter fun key => (Members.find? key members).isNone).mergeSort fun a b => decide (a ≤ b)

/-- All fields that are there, in the order of their declaration, and only then the keys that are
missing. -/
def object {k : Nat} {σ : Fin k → Type} (keys : Fin k → String)
    (fields : (i : Fin k) → Runner (σ i)) (construct : ((i : Fin k) → σ i) → α) : Runner α
  | .object members, p => do
    let values ← Run.collect fun i => field (fields i) (keys i) members p
    match allPresent? values with
    | some values => do
      Run.emit (.constructed k)
      pure (construct values)
    | none => Run.fail p.path (.missingKeys (missingKeys (List.ofFn keys) members))
  | v, p => mismatch "object" v p

/-- The members in order; the first that fails ends the run. -/
def members (value : Runner α) (p : Place) : Members → Run (List (String × α))
  | [] => pure []
  | (key, v) :: rest => do
    let a ← value v (p.child (.key key))
    (members value p rest).map fun others => (key, a) :: others

def dict (value : Runner α) : Runner (List (String × α))
  | .object ms, p => members value p ms
  | v, p => mismatch "object" v p

/-- What a value should have been for an accessor to lead on. -/
def expectedBy : Accessor → Kind → String
  | .index _, .array => "array: index out of range"
  | .index i, _ => "array with index " ++ Nat.repr i
  | .key key, _ => "object with key " ++ keyText key

/-- Follows a path; where it ends early, the value reached is to blame. -/
def atPath (inner : Runner α) : Path → Runner α
  | [], v, p => inner v p
  | a :: rest, v, p =>
    match v.get? a with
    | some w => atPath inner rest w (p.child a)
    | none => mismatch (expectedBy a v.kind) v p

/-! ## Choice -/

/-- Tries the branches in order, numbering them; the errors of those that fail are only told of. -/
def firstSuccess (v : Json) (p : Place) : Nat → List (Runner α) → Run α
  | _, [] => Run.fail p.path (.message ("unexpected " ++ v.kind.name))
  | i, branch :: rest => (branch v p).orElse i fun _ => firstSuccess v p (i + 1) rest

def alternatives (branches : List (Runner α)) : Runner α := fun v p => firstSuccess v p 0 branches

def andThen (first : Runner α) (next : α → Runner β) : Runner β := fun v p => do
  let a ← first v p
  Run.emit .continued
  next a v p

def transform (label : Option String) (f : α → β) (inner : Runner α) : Runner β := fun v p => do
  let a ← inner v p
  Run.emit (.transformed label)
  pure (f a)

/-- Enters a definition, unless the place is too deep for that. -/
def enter (definition : Nat) (body : Runner α) : Runner α := fun v p =>
  if p.isTooDeep then do
    Run.emit (.refused definition)
    Run.fail p.path (.message "max depth exceeded")
  else do
    Run.emit (.entered definition)
    body v p

def fail (message : String) : Runner α := fun _ p => Run.fail p.path (.message message)

def succeed (a : α) : Runner α := fun _ _ => pure a

end Runner

end TypedJson
