import TypedJson.Proofs.KeyOrder

/-!
# Syntax trees and their values

A `Json` need not be well formed: its objects may list their members in any order, and several of
them under one key.  So it is a syntax tree, of which `Json.settled` is the value: there the last
member of each key stays, in the order of the keys (`find?_settledMembers`).  A well-formed tree is
its own value (`settled_of_wellFormed`).

The value does not depend on the order of members that have different keys
(`Reordered.settled_eq`): members in order are determined by what is found under each key, and
under a key the last member is found.
-/

namespace TypedJson

namespace Members

theorem find?_append (key : String) (ms ms' : Members) :
    find? key (ms ++ ms') = (find? key ms).or (find? key ms') := by
  induction ms with
  | nil => rfl
  | cons m ms ih =>
    rw [List.cons_append, find?, find?, ih]
    split
    · rfl
    · rfl

/-- What is found under a key depends on the members of that key only. -/
theorem find?_filter (key : String) (ms : Members) :
    find? key (ms.filter fun m => m.1 = key) = find? key ms := by
  induction ms with
  | nil => rfl
  | cons m ms ih =>
    by_cases h : m.1 = key
    · rw [List.filter_cons_of_pos (by simpa using h), find?, find?, if_pos h, if_pos h]
    · rw [List.filter_cons_of_neg (by simpa using h), find?, if_neg h, ih]

theorem eq_or_mem_of_mem_insert {key : String} {value : Json} {m : String × Json} {ms : Members}
    (h : m ∈ insert key value ms) : m = (key, value) ∨ m ∈ ms := by
  fun_induction insert key value ms with
  | case1 => exact .inl (List.mem_singleton.1 h)
  | case2 => exact List.mem_cons.1 h
  | case3 =>
    rcases List.mem_cons.1 h with h | h
    · exact .inl h
    · exact .inr (List.mem_cons_of_mem _ h)
  | case4 k v rest _ _ ih =>
    rcases List.mem_cons.1 h with rfl | h
    · exact .inr List.mem_cons_self
    · exact (ih h).imp_right (List.mem_cons_of_mem _)

/-- A member above all others goes to the end. -/
theorem insert_of_lt {key : String} (value : Json) {ms : Members}
    (h : ∀ k ∈ keys ms, k < key) : insert key value ms = ms ++ [(key, value)] := by
  induction ms with
  | nil => rfl
  | cons m ms ih =>
    have hlt : m.1 < key := h m.1 List.mem_cons_self
    rw [insert, if_neg (String.lt_asymm hlt), if_neg (String.ne_of_lt hlt),
      ih fun k hk => h k (List.mem_cons_of_mem _ hk)]
    rfl

end Members

namespace Json

/-! ## Values of trees -/

mutual
/-- The value of a syntax tree: every object has the last member of each key, in the order of the
keys. -/
def settled : Json → Json
  | array vs => array (settledElements vs)
  | object ms => object (settledMembers [] ms)
  | v => v

/-- The values of the elements. -/
def settledElements : List Json → List Json
  | [] => []
  | v :: vs => v.settled :: settledElements vs

/-- The members with the values of more of them put in, one after the other. -/
def settledMembers (members : Members) : List (String × Json) → Members
  | [] => members
  | (key, v) :: ms => settledMembers (Members.insert key v.settled members) ms
end

theorem settledElements_eq_map (vs : List Json) : settledElements vs = vs.map settled := by
  induction vs with
  | nil => rfl
  | cons v vs ih => rw [settledElements, ih, List.map_cons]

theorem pairwise_settledMembers {members : Members}
    (h : (Members.keys members).Pairwise (· < ·)) (ms : List (String × Json)) :
    (Members.keys (settledMembers members ms)).Pairwise (· < ·) := by
  induction ms generalizing members with
  | nil => exact h
  | cons m ms ih => exact ih (Members.pairwise_keys_insert h)

/-- Under a key stands the value of the last member put in, or else what was there before. -/
theorem find?_settledMembers (key : String) (members : Members) (ms : List (String × Json)) :
    Members.find? key (settledMembers members ms) =
      ((Members.find? key ms.reverse).map settled).or (Members.find? key members) := by
  induction ms generalizing members with
  | nil => rfl
  | cons m ms ih =>
    obtain ⟨k, v⟩ := m
    rw [settledMembers, ih, List.reverse_cons, Members.find?_append, Option.map_or, Option.or_assoc]
    congr 1
    by_cases h : k = key
    · rw [h, Members.find?_insert_self, Members.find?, if_pos rfl]
      rfl
    · rw [Members.find?_insert_of_ne (Ne.symm h), Members.find?, if_neg h]
      rfl

theorem mem_settledMembers {m : String × Json} {members : Members} {ms : List (String × Json)}
    (h : m ∈ settledMembers members ms) : m ∈ members ∨ ∃ m' ∈ ms, m.2 = m'.2.settled := by
  induction ms generalizing members with
  | nil => exact .inl h
  | cons m' ms ih =>
    rcases ih h with h | ⟨m'', hmem, hm⟩
    · rcases Members.eq_or_mem_of_mem_insert h with rfl | h
      · exact .inr ⟨m', List.mem_cons_self, rfl⟩
      · exact .inl h
    · exact .inr ⟨m'', List.mem_cons_of_mem _ hmem, hm⟩

theorem elementsWellFormed_of_forall {vs : List Json} (h : ∀ v ∈ vs, v.WellFormed) :
    ElementsWellFormed vs := by
  induction vs with
  | nil => trivial
  | cons v vs ih => exact ⟨h v List.mem_cons_self, ih fun w hw => h w (List.mem_cons_of_mem _ hw)⟩

theorem membersWellFormed_of_forall {ms : Members} (h : ∀ m ∈ ms, m.2.WellFormed) :
    MembersWellFormed ms := by
  induction ms with
  | nil => trivial
  | cons m ms ih =>
    exact ⟨h m List.mem_cons_self, ih fun m' hm' => h m' (List.mem_cons_of_mem _ hm')⟩

theorem settled_wellFormed (v : Json) : v.settled.WellFormed := by
  induction v using Json.induction with
  | array vs ih =>
    refine elementsWellFormed_of_forall fun w hw => ?_
    rw [settledElements_eq_map] at hw
    obtain ⟨v, hv, rfl⟩ := List.mem_map.1 hw
    exact ih v hv
  | object ms ih =>
    refine ⟨pairwise_settledMembers .nil ms, membersWellFormed_of_forall fun m hm => ?_⟩
    rcases mem_settledMembers hm with hm | ⟨m', hm', hvalue⟩
    · cases hm
    · rw [hvalue]
      exact ih m'.1 m'.2 hm'
  | _ => trivial

/-- Members in ascending order stay as they are, after those already there. -/
theorem settledMembers_of_pairwise {members : Members} {ms : List (String × Json)}
    (h : (Members.keys (members ++ ms)).Pairwise (· < ·))
    (hvalues : ∀ m ∈ ms, m.2.settled = m.2) : settledMembers members ms = members ++ ms := by
  induction ms generalizing members with
  | nil => exact (List.append_nil members).symm
  | cons m ms ih =>
    have hlt : ∀ k ∈ Members.keys members, k < m.1 := by
      intro k hk
      rw [Members.keys, List.map_append, List.pairwise_append] at h
      exact h.2.2 k hk m.1 List.mem_cons_self
    rw [settledMembers, hvalues m List.mem_cons_self, Members.insert_of_lt m.2 hlt,
      ih (by simpa using h) fun m' hm' => hvalues m' (List.mem_cons_of_mem _ hm'),
      List.append_assoc]
    rfl

theorem settled_of_wellFormed {v : Json} (h : v.WellFormed) : v.settled = v := by
  induction v using Json.induction with
  | array vs ih =>
    rw [settled, settledElements_eq_map, List.map_congr_left fun v hv =>
      ih v hv (ElementsWellFormed.of_mem h hv), List.map_id']
  | object ms ih =>
    exact congrArg Json.object (@settledMembers_of_pairwise [] ms h.1 fun m hm =>
      ih m.1 m.2 hm (MembersWellFormed.of_mem h.2 hm))
  | _ => rfl

/-! ## Trees that differ by the order of members -/

/-- Members of different keys change places, in objects at any depth; those of one key stay in
order. -/
inductive Reordered : Json → Json → Prop where
  | refl (v : Json) : Reordered v v
  | trans {u v w : Json} (huv : Reordered u v) (hvw : Reordered v w) : Reordered u w
  | object {ms ms' : Members}
      (h : ∀ key, (ms.filter fun m => m.1 = key) = ms'.filter fun m => m.1 = key) :
      Reordered (.object ms) (.object ms')
  | element {before after : List Json} {v w : Json} (h : Reordered v w) :
      Reordered (.array (before ++ v :: after)) (.array (before ++ w :: after))
  | member {before after : Members} {key : String} {v w : Json} (h : Reordered v w) :
      Reordered (.object (before ++ (key, v) :: after)) (.object (before ++ (key, w) :: after))

theorem settledMembers_append (members ms ms' : Members) :
    settledMembers members (ms ++ ms') = settledMembers (settledMembers members ms) ms' := by
  induction ms generalizing members with
  | nil => rfl
  | cons m ms ih => exact ih _

theorem Reordered.settled_eq {v w : Json} (h : v.Reordered w) : v.settled = w.settled := by
  induction h with
  | refl => rfl
  | trans _ _ huv hvw => exact huv.trans hvw
  | @object ms ms' h =>
    refine congrArg Json.object (Members.ext_find? (pairwise_settledMembers .nil ms)
      (pairwise_settledMembers .nil ms') fun key => ?_)
    rw [find?_settledMembers, find?_settledMembers, ← Members.find?_filter key ms.reverse,
      ← Members.find?_filter key ms'.reverse, List.filter_reverse, List.filter_reverse, h]
  | element _ ih =>
    rw [settled, settled, settledElements_eq_map, settledElements_eq_map, List.map_append,
      List.map_append, List.map_cons, List.map_cons, ih]
  | member _ ih =>
    rw [settled, settled, settledMembers_append, settledMembers_append, settledMembers,
      settledMembers, ih]

/-! ## Trees of whole numbers -/

/-- At most so many arrays and objects are nested in each other, and all numbers are whole. -/
inductive Plain : Nat → Json → Prop where
  | null (levels : Nat) : Plain levels .null
  | boolean (levels : Nat) (b : Bool) : Plain levels (.boolean b)
  | whole (levels : Nat) (value : Int)
      (inRange : -9223372036854775808 ≤ value ∧ value ≤ 18446744073709551615) :
      Plain levels (.number (.whole value inRange))
  | string (levels : Nat) (s : String) : Plain levels (.string s)
  | array {levels : Nat} {vs : List Json} (h : ∀ v ∈ vs, Plain levels v) :
      Plain (levels + 1) (.array vs)
  | object {levels : Nat} {ms : Members} (h : ∀ m ∈ ms, Plain levels m.2) :
      Plain (levels + 1) (.object ms)

theorem Reordered.plain {levels : Nat} {v w : Json} (h : v.Reordered w) (hv : v.Plain levels) :
    w.Plain levels := by
  induction h generalizing levels with
  | refl => exact hv
  | trans _ _ huv hvw => exact hvw (huv hv)
  | @object ms ms' h =>
    cases hv with
    | object hv =>
      refine .object fun m hm => hv m ?_
      have hkey : m ∈ ms'.filter fun m' => m'.1 = m.1 :=
        List.mem_filter.2 ⟨hm, decide_eq_true rfl⟩
      rw [← h] at hkey
      exact (List.mem_filter.1 hkey).1
  | element _ ih =>
    cases hv with
    | array hv =>
      refine .array fun u hu => ?_
      rcases List.mem_append.1 hu with hu | hu
      · exact hv u (List.mem_append_left _ hu)
      rcases List.mem_cons.1 hu with rfl | hu
      · exact ih (hv _ (List.mem_append_right _ List.mem_cons_self))
      · exact hv u (List.mem_append_right _ (List.mem_cons_of_mem _ hu))
  | member _ ih =>
    cases hv with
    | object hv =>
      refine .object fun m hm => ?_
      rcases List.mem_append.1 hm with hm | hm
      · exact hv m (List.mem_append_left _ hm)
      rcases List.mem_cons.1 hm with rfl | hm
      · exact ih (hv _ (List.mem_append_right _ List.mem_cons_self))
      · exact hv m (List.mem_append_right _ (List.mem_cons_of_mem _ hm))

end Json

end TypedJson
