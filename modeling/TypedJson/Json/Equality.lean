import TypedJson.Json.Basic

/-!
# Equality of JSON values

Two values are *identical* if they have the same structure and the same leaves, where whole numbers
and doubles are kept apart.  They are *equivalent* if they have the same kind and the same content,
where numbers are also compared by the doubles nearest to them: 1 and 1.0 are equivalent, 1 and "1"
are not.  The order of elements counts; members are looked up by their keys.

`Json.normal` puts in the place of every number its nearest double, 0.0 for -0.0.  Equivalence is
equality of normal forms.
-/

namespace TypedJson

namespace Json

mutual
/-- Are the two values the same, numbers in the same format? -/
def identical : Json → Json → Bool
  | number a, number b => a.identical b
  | array as, array bs => elementsIdentical as bs
  | object as, object bs => membersIdentical as bs
  | null, null => true
  | boolean a, boolean b => a == b
  | string a, string b => a == b
  | _, _ => false

/-- Are the elements identical, position by position? -/
def elementsIdentical : List Json → List Json → Bool
  | [], [] => true
  | a :: as, b :: bs => a.identical b && elementsIdentical as bs
  | _, _ => false

/-- Are the members identical in key and value, position by position? -/
def membersIdentical : List (String × Json) → List (String × Json) → Bool
  | [], [] => true
  | (k, a) :: as, (l, b) :: bs => k == l && a.identical b && membersIdentical as bs
  | _, _ => false
end

mutual
/-- Are the two values of the same kind, and equal but for the spelling of numbers? -/
def equivalent : Json → Json → Bool
  | number a, number b => a.identical b || a.sameValue b
  | array as, array bs => as.length == bs.length && elementsEquivalent as bs
  | object as, object bs => as.length == bs.length && membersEquivalent as bs
  | a, b => a.identical b

/-- Are the elements equivalent, position by position, as far as both lists go? -/
def elementsEquivalent : List Json → List Json → Bool
  | [], _ => true
  | _ :: _, [] => true
  | a :: as, b :: bs => a.equivalent b && elementsEquivalent as bs

/-- Is each member equivalent to the one of the same key on the other side? -/
def membersEquivalent : List (String × Json) → Members → Bool
  | [], _ => true
  | (key, a) :: as, bs =>
    (match Members.find? key bs with
      | some b => a.equivalent b
      | none => false) && membersEquivalent as bs
end

mutual
/-- The value with each number replaced by its nearest double, and -0.0 by 0.0. -/
def normal : Json → Json
  | number n => number (.double n.toBinary64.unsignZero)
  | array elements => array (normalElements elements)
  | object members => object (normalMembers members)
  | v => v

/-- The elements in normal form. -/
def normalElements : List Json → List Json
  | [] => []
  | v :: rest => v.normal :: normalElements rest

/-- The members in normal form. -/
def normalMembers : List (String × Json) → List (String × Json)
  | [] => []
  | (key, v) :: rest => (key, v.normal) :: normalMembers rest
end

theorem normalMembers_eq_map (ms : Members) :
    normalMembers ms = ms.map fun m => (m.1, m.2.normal) := by
  induction ms with
  | nil => rfl
  | cons m ms ih => rw [normalMembers, ih, List.map_cons]

end Json

end TypedJson
