import TypedJson.Decoder.Decode

/-!
# Calls of definitions

`Decoder.Calls d v i t w` says that a run of `d` on `v` may enter the definition `i` on `w`, which
stands at the path `t` below `v`.  It looks at the decoder and the value only, not at what the parts
of the decoder yield: every call that a run makes is one of these, and so are calls that are not
made because an earlier part fails.

A call goes down as many steps as its path has, so it loses at least as much height.  A call that
goes nowhere is made through an *unguarded* reference, which is not inside an element, a position, a
field, a member or the end of a path that has a step.  References in a continuation count for every
value it may be given.
-/

namespace TypedJson

/-! ## Children -/

/-- The accessor leads from `v` to `w`: to the element of an index, or to a member of a key. -/
inductive Json.Child : Json → Accessor → Json → Prop where
  | element {vs : List Json} {i : Nat} {w : Json} (h : vs[i]? = some w) :
      Child (.array vs) (.index i) w
  | member {ms : Members} {key : String} {w : Json} (h : (key, w) ∈ ms) :
      Child (.object ms) (.key key) w

theorem Members.mem_of_find? {key : String} {w : Json} {ms : Members}
    (h : Members.find? key ms = some w) : (key, w) ∈ ms := by
  induction ms with
  | nil => simp [Members.find?] at h
  | cons m rest ih =>
    obtain ⟨k, v⟩ := m
    rw [Members.find?] at h
    split at h
    · next hk => subst hk; cases h; exact List.mem_cons_self
    · exact List.mem_cons_of_mem _ (ih h)

theorem Json.child_of_get? {v w : Json} {a : Accessor} (h : v.get? a = some w) :
    v.Child a w := by
  unfold Json.get? at h
  split at h
  · exact .member (Members.mem_of_find? h)
  · exact .element h
  · cases h

theorem Json.height_lt_of_mem_elements {vs : List Json} {w : Json} (h : w ∈ vs) :
    w.height < Json.heightOfElements vs := by
  induction vs with
  | nil => cases h
  | cons v rest ih =>
    rw [Json.heightOfElements]
    rcases List.mem_cons.1 h with rfl | h
    · omega
    · have := ih h
      omega

theorem Json.height_lt_of_mem_members {ms : Members} {key : String} {w : Json}
    (h : (key, w) ∈ ms) : w.height < Json.heightOfMembers ms := by
  induction ms with
  | nil => cases h
  | cons m rest ih =>
    obtain ⟨k, v⟩ := m
    rw [Json.heightOfMembers]
    rcases List.mem_cons.1 h with h | h
    · cases h
      omega
    · have := ih h
      omega

theorem Json.Child.height_lt {v w : Json} {a : Accessor} (h : v.Child a w) :
    w.height < v.height := by
  cases h with
  | element h => exact Json.height_lt_of_mem_elements (List.mem_of_getElem? h)
  | member h => exact Json.height_lt_of_mem_members h

theorem Json.height_add_length_le {v w : Json} {t : Path} (h : v.resolve? t = some w) :
    w.height + t.length ≤ v.height := by
  induction t generalizing v with
  | nil => cases h; simp
  | cons a t ih =>
    obtain ⟨u, hu, hw⟩ := Option.bind_eq_some_iff.1 h
    have hstep := (Json.child_of_get? hu).height_lt
    have hrest := ih hw
    rw [List.length_cons]
    omega

/-- Of a path into `v` whose first step is `a`: `part` holds of the child there and the other
steps. -/
def Json.Below (v : Json) (a : Accessor) (t : Path) (part : Json → Path → Prop) : Prop :=
  ∃ u s, v.Child a u ∧ t = a :: s ∧ part u s

theorem Json.Below.height_add_length_le {v : Json} {a : Accessor} {t : Path}
    {part : Json → Path → Prop} {h : Nat} (hb : v.Below a t part)
    (hpart : ∀ u s, part u s → h + s.length ≤ u.height) : h + t.length ≤ v.height := by
  obtain ⟨u, s, hu, rfl, hs⟩ := hb
  have hstep := hu.height_lt
  have hrest := hpart u s hs
  rw [List.length_cons]
  omega

theorem Json.Below.ne_nil {v : Json} {a : Accessor} {t : Path} {part : Json → Path → Prop}
    (hb : v.Below a t part) : t ≠ [] := by
  obtain ⟨u, s, _, rfl, _⟩ := hb
  exact List.cons_ne_nil a s

/-! ## Places below a place -/

/-- The place at the end of a path that starts here. -/
def Place.descend (p : Place) : Path → Place
  | [] => p
  | a :: t => (p.child a).descend t

theorem Place.descend_append (p : Place) (s t : Path) :
    p.descend (s ++ t) = (p.descend s).descend t := by
  induction s generalizing p with
  | nil => rfl
  | cons a s ih => exact ih (p.child a)

/-! ## Calls -/

section

variable {ι : Type} {τ : ι → Type}

/-- A run of the decoder on `v` may enter the definition `i` on `w`, at the path `t` below `v`. -/
def Decoder.Calls : {α : Type} → Decoder τ α → Json → ι → Path → Json → Prop
  | _, .array element, v, i, t, w => ∃ j, v.Below (.index j) t fun u s => element.Calls u i s w
  | _, .tuple positions, v, i, t, w =>
    ∃ j, v.Below (.index j.val) t fun u s => (positions j).Calls u i s w
  | _, .object keys fields _, v, i, t, w =>
    ∃ j, v.Below (.key (keys j)) t fun u s => (fields j).Calls u i s w
  | _, .dict value, v, i, t, w => ∃ key, v.Below (.key key) t fun u s => value.Calls u i s w
  | _, .atPath path inner, v, i, t, w =>
    ∃ u s, v.resolve? path = some u ∧ t = path ++ s ∧ inner.Calls u i s w
  | _, .alternatives branches, v, i, t, w => ∃ j, (branches j).Calls v i t w
  | _, .andThen first next, v, i, t, w => first.Calls v i t w ∨ ∃ a, (next a).Calls v i t w
  | _, .transform _ _ inner, v, i, t, w => inner.Calls v i t w
  | _, .ref j, v, i, t, w => i = j ∧ t = [] ∧ w = v
  | _, _, _, _, _, _ => False

/-- A call goes down a path, so the value it is made on is lower by its length. -/
theorem Decoder.Calls.height_add_length_le {α : Type} {d : Decoder τ α} {v w : Json} {i : ι}
    {t : Path} (h : d.Calls v i t w) : w.height + t.length ≤ v.height := by
  induction d generalizing v t with
  | array element ih =>
    obtain ⟨j, hj⟩ := h
    exact hj.height_add_length_le fun u s hs => ih hs
  | tuple positions ih =>
    obtain ⟨j, hj⟩ := h
    exact hj.height_add_length_le fun u s hs => ih j hs
  | object keys fields construct ih =>
    obtain ⟨j, hj⟩ := h
    exact hj.height_add_length_le fun u s hs => ih j hs
  | dict value ih =>
    obtain ⟨key, hkey⟩ := h
    exact hkey.height_add_length_le fun u s hs => ih hs
  | atPath path inner ih =>
    obtain ⟨u, s, hu, rfl, hs⟩ := h
    have hpath := Json.height_add_length_le hu
    have hrest := ih hs
    rw [List.length_append]
    omega
  | alternatives branches ih =>
    obtain ⟨j, hj⟩ := h
    exact ih j hj
  | andThen first next ihFirst ihNext =>
    rcases h with h | ⟨a, h⟩
    · exact ihFirst h
    · exact ihNext a h
  | transform label f inner ih => exact ih h
  | ref j =>
    obtain ⟨-, rfl, rfl⟩ := h
    simp
  | _ => exact h.elim

/-- The definition may be entered on the very value that the decoder is run on. -/
def Decoder.Unguarded : {α : Type} → Decoder τ α → ι → Prop
  | _, .atPath path inner, i => path = [] ∧ inner.Unguarded i
  | _, .alternatives branches, i => ∃ j, (branches j).Unguarded i
  | _, .andThen first next, i => first.Unguarded i ∨ ∃ a, (next a).Unguarded i
  | _, .transform _ _ inner, i => inner.Unguarded i
  | _, .ref j, i => i = j
  | _, _, _ => False

/-- A call that goes nowhere is an unguarded one, on the value itself. -/
theorem Decoder.Calls.unguarded_of_nil {α : Type} {d : Decoder τ α} {v w : Json} {i : ι}
    (h : d.Calls v i [] w) : d.Unguarded i ∧ w = v := by
  induction d with
  | array element ih =>
    obtain ⟨j, hj⟩ := h
    exact absurd rfl hj.ne_nil
  | tuple positions ih =>
    obtain ⟨j, hj⟩ := h
    exact absurd rfl hj.ne_nil
  | object keys fields construct ih =>
    obtain ⟨j, hj⟩ := h
    exact absurd rfl hj.ne_nil
  | dict value ih =>
    obtain ⟨key, hkey⟩ := h
    exact absurd rfl hkey.ne_nil
  | atPath path inner ih =>
    obtain ⟨u, s, hu, ht, hs⟩ := h
    obtain ⟨rfl, rfl⟩ := List.append_eq_nil_iff.1 ht.symm
    cases hu
    obtain ⟨hi, hw⟩ := ih hs
    exact ⟨⟨rfl, hi⟩, hw⟩
  | alternatives branches ih =>
    obtain ⟨j, hj⟩ := h
    obtain ⟨hi, hw⟩ := ih j hj
    exact ⟨⟨j, hi⟩, hw⟩
  | andThen first next ihFirst ihNext =>
    rcases h with h | ⟨a, h⟩
    · obtain ⟨hi, hw⟩ := ihFirst h
      exact ⟨.inl hi, hw⟩
    · obtain ⟨hi, hw⟩ := ihNext a h
      exact ⟨.inr ⟨a, hi⟩, hw⟩
  | transform label f inner ih => exact ih h
  | ref j => exact ⟨h.1, h.2.2⟩
  | _ => exact h.elim

/-- A call is an unguarded one on the same value, or it is made on a lower one. -/
theorem Decoder.Calls.unguarded_or_lower {α : Type} {d : Decoder τ α} {v w : Json} {i : ι}
    {t : Path} (h : d.Calls v i t w) : d.Unguarded i ∧ w = v ∨ w.height < v.height := by
  cases t with
  | nil => exact .inl h.unguarded_of_nil
  | cons a t =>
    right
    have hheight := h.height_add_length_le
    rw [List.length_cons] at hheight
    omega

end

/-! ## A table of one definition -/

/-- How deep arrays nest, by a definition that refers to itself for the elements. -/
def nestedArrays : Definitions fun _ : Fin 1 => Nat :=
  fun _ => (Decoder.array (.ref 0)).map fun depths => depths.foldl max 0 + 1

end TypedJson
