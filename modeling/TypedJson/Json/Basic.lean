import TypedJson.Json.Number

/-!
# JSON values

A value is null, a boolean, a number, a string, an array or an object.  An object lists its members
in ascending order of their keys, by code points, which is the order of their UTF-8 bytes; no key
comes twice.  `Json.WellFormed` says so for a whole value, and `Members.insert` keeps it.
-/

namespace TypedJson

/-- A JSON value. -/
inductive Json where
  | null
  | boolean (value : Bool)
  | number (value : Number)
  | string (value : String)
  | array (elements : List Json)
  | object (members : List (String × Json))

/-- The members of an object. -/
abbrev Members := List (String × Json)

/-- The six kinds of value. -/
inductive Kind where
  | null | boolean | number | string | array | object
  deriving DecidableEq, Repr

/-- The name of a kind. -/
def Kind.name : Kind → String
  | .null => "null"
  | .boolean => "boolean"
  | .number => "number"
  | .string => "string"
  | .array => "array"
  | .object => "object"

namespace Members

/-- The member of this key. -/
def find? (key : String) : Members → Option Json
  | [] => none
  | (k, v) :: rest => if k = key then some v else find? key rest

def keys (members : Members) : List String := members.map Prod.fst

/-- Puts a member at the place of its key, instead of one that has the same key. -/
def insert (key : String) (value : Json) : Members → Members
  | [] => [(key, value)]
  | (k, v) :: rest =>
    if key < k then (key, value) :: (k, v) :: rest
    else if k = key then (key, value) :: rest
    else (k, v) :: insert key value rest

theorem find?_eq_none_iff {key : String} {members : Members} :
    find? key members = none ↔ key ∉ keys members := by
  induction members with
  | nil => simp [find?, keys]
  | cons m rest ih =>
    obtain ⟨k, v⟩ := m
    have hk : keys ((k, v) :: rest) = k :: keys rest := rfl
    rw [find?, hk, List.mem_cons]
    split
    · simp_all
    · rename_i h
      rw [ih]
      simp [Ne.symm h]

theorem find?_insert_self (key : String) (value : Json) (members : Members) :
    find? key (insert key value members) = some value := by
  fun_induction insert key value members with
  | case1 => simp [find?]
  | case2 => simp [find?]
  | case3 => simp [find?]
  | case4 k v rest _ h ih => simp [find?, h, ih]

theorem find?_insert_of_ne {key key' : String} (h : key' ≠ key) (value : Json)
    (members : Members) : find? key' (insert key value members) = find? key' members := by
  fun_induction insert key value members with
  | case1 => simp [find?, Ne.symm h]
  | case2 => simp [find?, Ne.symm h]
  | case3 => simp [find?, Ne.symm h]
  | case4 k v rest _ _ ih => simp [find?, ih]

theorem mem_keys_insert {key key' : String} {value : Json} {members : Members} :
    key' ∈ keys (insert key value members) ↔ key' = key ∨ key' ∈ keys members := by
  fun_induction insert key value members with
  | case1 => simp [keys]
  | case2 => simp [keys]
  | case3 => simp [keys]
  | case4 k v rest _ _ ih =>
    simp only [keys, List.map_cons, List.mem_cons] at *
    rw [ih]
    grind

/-- Inserting a member keeps the keys in strictly ascending order. -/
theorem pairwise_keys_insert {key : String} {value : Json} {members : Members}
    (h : (keys members).Pairwise (· < ·)) :
    (keys (insert key value members)).Pairwise (· < ·) := by
  fun_induction insert key value members with
  | case1 => simp [keys]
  | case2 k v rest hlt =>
    simp only [keys, List.map_cons, List.pairwise_cons] at *
    refine ⟨fun k' hk' => ?_, h⟩
    rcases List.mem_cons.1 hk' with rfl | hk'
    · exact hlt
    · exact String.lt_trans hlt (h.1 k' hk')
  | case3 => simpa [keys] using h
  | case4 k v rest hlt hne ih =>
    simp only [keys, List.map_cons, List.pairwise_cons] at *
    refine ⟨fun k' hk' => ?_, ih h.2⟩
    rcases mem_keys_insert.1 hk' with rfl | hk'
    · exact Std.lt_of_le_of_ne (String.not_lt.1 hlt) hne
    · exact h.1 k' hk'

end Members

namespace Json

/-- The kind of a value. -/
def kind : Json → Kind
  | null => .null
  | boolean _ => .boolean
  | number _ => .number
  | string _ => .string
  | array _ => .array
  | object _ => .object

/-- Induction over values: the cases of arrays and objects have the statement for what is in them. -/
@[elab_as_elim]
theorem induction {P : Json → Prop} (null : P .null) (boolean : ∀ b, P (.boolean b))
    (number : ∀ n, P (.number n)) (string : ∀ s, P (.string s))
    (array : ∀ vs, (∀ v ∈ vs, P v) → P (.array vs))
    (object : ∀ ms, (∀ k v, (k, v) ∈ ms → P v) → P (.object ms)) : ∀ v, P v
  | .null => null
  | .boolean b => boolean b
  | .number n => number n
  | .string s => string s
  | .array vs => array vs fun v _ => induction null boolean number string array object v
  | .object ms => object ms fun _ v _ => induction null boolean number string array object v
termination_by v => sizeOf v
decreasing_by
  · have hlt := List.sizeOf_lt_of_mem ‹v ∈ vs›
    simp_wf
    omega
  · rename_i hmem
    have hlt := List.sizeOf_lt_of_mem hmem
    simp_wf
    rw [Prod.mk.sizeOf_spec] at hlt
    omega

mutual
/-- How many steps lead from the root to the deepest value inside. -/
def height : Json → Nat
  | array elements => heightOfElements elements
  | object members => heightOfMembers members
  | _ => 0

/-- The height of an array with these elements. -/
def heightOfElements : List Json → Nat
  | [] => 0
  | v :: rest => max (v.height + 1) (heightOfElements rest)

/-- The height of an object with these members. -/
def heightOfMembers : List (String × Json) → Nat
  | [] => 0
  | (_, v) :: rest => max (v.height + 1) (heightOfMembers rest)
end

mutual
/-- Every object inside lists its members by strictly ascending keys. -/
def WellFormed : Json → Prop
  | array elements => ElementsWellFormed elements
  | object members => (Members.keys members).Pairwise (· < ·) ∧ MembersWellFormed members
  | _ => True

/-- Every element is well formed. -/
def ElementsWellFormed : List Json → Prop
  | [] => True
  | v :: rest => v.WellFormed ∧ ElementsWellFormed rest

/-- The value of every member is well formed. -/
def MembersWellFormed : List (String × Json) → Prop
  | [] => True
  | (_, v) :: rest => v.WellFormed ∧ MembersWellFormed rest
end

end Json

end TypedJson
