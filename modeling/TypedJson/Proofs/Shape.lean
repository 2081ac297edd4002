import TypedJson.Proofs.BlindSimulation
import TypedJson.Proofs.KeyOrder

/-!
# Errors do not depend on the contents of leaves

Two values have the same shape if at every path both have a value of the same kind or neither has
one; so arrays have the same lengths, objects the same keys, and only the booleans, numbers and
strings inside may differ.  A decoder that does not look at those does to both the same but for the
values that it yields: it accepts both or neither, and it tells of the same events and errors
(`BlindSimulation.sameShape`).

What looks at the contents is comparing, reading a timestamp or converting, and a continuation,
which is given a value.
-/

namespace TypedJson

/-! ## Values of the same shape -/

/-- At every path both have a value of the same kind, or neither has one. -/
def Json.SameShape (v v' : Json) : Prop :=
  ∀ p : Path, (v.resolve? p).map Json.kind = (v'.resolve? p).map Json.kind

/-- A value is at most one step higher than its children. -/
theorem Json.height_le_of_child {v : Json} {n : Nat}
    (h : ∀ a w, v.Child a w → w.height < n) : v.height ≤ n := by
  cases v with
  | array vs =>
    have hmem : ∀ w ∈ vs, w.height < n := by
      intro w hw
      obtain ⟨i, hi⟩ := List.mem_iff_getElem?.1 hw
      exact h (.index i) w (.element hi)
    show Json.heightOfElements vs ≤ n
    clear h
    induction vs with
    | nil => exact Nat.zero_le n
    | cons w ws ih =>
      have hw := hmem w List.mem_cons_self
      have hws := ih fun u hu => hmem u (List.mem_cons_of_mem _ hu)
      rw [Json.heightOfElements]
      omega
  | object ms =>
    have hmem : ∀ key w, (key, w) ∈ ms → w.height < n := fun key w hw => h (.key key) w (.member hw)
    show Json.heightOfMembers ms ≤ n
    clear h
    induction ms with
    | nil => exact Nat.zero_le n
    | cons m ms ih =>
      obtain ⟨key, w⟩ := m
      have hw := hmem key w List.mem_cons_self
      have hws := ih fun k u hu => hmem k u (List.mem_cons_of_mem _ hu)
      rw [Json.heightOfMembers]
      omega
  | _ => exact Nat.zero_le n

namespace Json.SameShape

variable {v v' : Json}

theorem symm (h : v.SameShape v') : v'.SameShape v := fun p => (h p).symm

theorem kind_eq (h : v.SameShape v') : v.kind = v'.kind := Option.some.inj (h [])

/-- Where one accessor leads in a value, it leads to the same shape in the other. -/
theorem child (h : v.SameShape v') {a : Accessor} {w : Json} (hw : v.get? a = some w) :
    ∃ w', v'.get? a = some w' ∧ w.SameShape w' := by
  have hpath : ∀ p, (w.resolve? p).map Json.kind =
      ((v'.get? a).bind fun w' => w'.resolve? p).map Json.kind := by
    intro p
    have hp := h (a :: p)
    rwa [Json.resolve?, Json.resolve?, hw] at hp
  cases hw' : v'.get? a with
  | none =>
    have hroot := hpath []
    rw [hw'] at hroot
    cases hroot
  | some w' =>
    refine ⟨w', rfl, fun p => ?_⟩
    have hp := hpath p
    rwa [hw'] at hp

theorem get?_eq_none (h : v.SameShape v') {a : Accessor} (hnone : v.get? a = none) :
    v'.get? a = none := by
  cases hw' : v'.get? a with
  | none => rfl
  | some w' =>
    obtain ⟨w, hw, -⟩ := h.symm.child hw'
    rw [hnone] at hw
    cases hw

theorem get?_eq_none_iff (h : v.SameShape v') (a : Accessor) :
    v.get? a = none ↔ v'.get? a = none :=
  ⟨h.get?_eq_none, h.symm.get?_eq_none⟩

/-- Arrays of the same shape have the same length. -/
theorem length_eq {vs vs' : List Json} (h : (Json.array vs).SameShape (.array vs')) :
    vs.length = vs'.length := by
  have hiff : ∀ i, vs.length ≤ i ↔ vs'.length ≤ i := by
    intro i
    rw [← List.getElem?_eq_none_iff, ← List.getElem?_eq_none_iff]
    exact h.get?_eq_none_iff (.index i)
  exact Nat.le_antisymm ((hiff _).2 (Nat.le_refl _)) ((hiff _).1 (Nat.le_refl _))

/-- Objects of the same shape have the same keys. -/
theorem keys_eq {ms ms' : Members} (h : (Json.object ms).SameShape (.object ms'))
    (hms : (Json.object ms).WellFormed) (hms' : (Json.object ms').WellFormed) :
    Members.keys ms = Members.keys ms' := by
  exact Members.keys_eq_of_find?_eq_none_iff hms.1 hms'.1 fun key => h.get?_eq_none_iff (.key key)

/-- Elements in one position and members of one key have the same shape again. -/
theorem matches_of_wellFormed (h : v.SameShape v') (hv : v.WellFormed) (hv' : v'.WellFormed) :
    Json.Matches (fun w w' => w.SameShape w' ∧ w.WellFormed ∧ w'.WellFormed) v v' := by
  have hkind := h.kind_eq
  have hchild : ∀ {a w w'}, v.get? a = some w → v'.get? a = some w' →
      w.SameShape w' ∧ w.WellFormed ∧ w'.WellFormed := by
    intro a w w' hw hw'
    obtain ⟨u, hu, hshape⟩ := h.child hw
    rw [hw'] at hu
    cases hu
    exact ⟨hshape, ((Json.child_of_get? hw).get?_eq_some hv).2,
      ((Json.child_of_get? hw').get?_eq_some hv').2⟩
  cases v with
  | null =>
    cases v' with
    | null => exact .null
    | _ => cases hkind
  | boolean b =>
    cases v' with
    | boolean b' => exact .boolean b b'
    | _ => cases hkind
  | number n =>
    cases v' with
    | number n' => exact .number n n'
    | _ => cases hkind
  | string s =>
    cases v' with
    | string s' => exact .string s s'
    | _ => cases hkind
  | array vs =>
    cases v' with
    | array vs' =>
      refine .array (List.forall₂_iff_get.2 ⟨h.length_eq, fun i hi hi' => ?_⟩)
      exact @hchild (.index i) _ _ (List.getElem?_eq_getElem hi) (List.getElem?_eq_getElem hi')
    | _ => cases hkind
  | object ms =>
    cases v' with
    | object ms' =>
      refine .object ((Members.forall₂_of_keys_eq hv.1 hv'.1 (h.keys_eq hv hv')).imp ?_)
      rintro m m' ⟨hkey, hfind, hfind'⟩
      exact ⟨hkey, @hchild (.key m.1) _ _ hfind hfind'⟩
    | _ => cases hkind

theorem of_matches (h : Json.Matches Json.SameShape v v') : v.SameShape v' := by
  intro p
  cases p with
  | nil => exact congrArg some h.kind_eq
  | cons a p =>
    have hget := h.get? a
    rw [Json.resolve?, Json.resolve?]
    generalize v.get? a = w, v'.get? a = w' at hget ⊢
    cases hget with
    | none => rfl
    | some hw => exact hw p

theorem height_le (h : v.SameShape v') (hv' : v'.WellFormed) : v'.height ≤ v.height := by
  induction hn : v.height using Nat.strongRecOn generalizing v v' with
  | ind n ih =>
    subst hn
    refine Json.height_le_of_child fun a w' hw' => ?_
    obtain ⟨hget', hwf⟩ := hw'.get?_eq_some hv'
    obtain ⟨w, hget, hshape⟩ := h.symm.child hget'
    have hlower := (Json.child_of_get? hget).height_lt
    have hle := ih w.height hlower hshape.symm hwf rfl
    omega

/-- Values of the same shape have the same height. -/
theorem height_eq (h : v.SameShape v') (hv : v.WellFormed) (hv' : v'.WellFormed) :
    v.height = v'.height :=
  Nat.le_antisymm (h.symm.height_le hv) (h.height_le hv')

end Json.SameShape

/-! ## Runs that differ in their values only -/

/-- The same events and the same error, or values that may be different. -/
inductive Run.SameButValue {α : Type} : Run α → Run α → Prop where
  | value (a a' : α) (events : List Event) : SameButValue ⟨.value a, events⟩ ⟨.value a', events⟩
  | error (e : DecodeError) (events : List Event) :
      SameButValue ⟨.error e, events⟩ ⟨.error e, events⟩
  | endless (events : List Event) : SameButValue ⟨.endless, events⟩ ⟨.endless, events⟩

namespace Run.SameButValue

variable {α β : Type} {r r' : Run α}

theorem bind {next next' : α → Run β} (h : SameButValue r r')
    (hnext : ∀ a a', r.outcome = .value a → r'.outcome = .value a' →
      SameButValue (next a) (next' a')) : SameButValue (r >>= next) (r' >>= next') := by
  cases h with
  | value a a' events =>
    have hsecond := hnext a a' rfl rfl
    rw [Run.value_bind, Run.value_bind]
    generalize next a = second, next' a' = second' at hsecond ⊢
    cases hsecond with
    | value b b' after => exact .value b b' _
    | error e after => exact .error e _
    | endless after => exact .endless _
  | error e events => exact .error e events
  | endless events => exact .endless events

theorem orElse {others others' : Unit → Run α} (branch : Nat) (h : SameButValue r r')
    (hothers : SameButValue (others ()) (others' ())) :
    SameButValue (r.orElse branch others) (r'.orElse branch others') := by
  cases h with
  | value a a' events => exact .value a a' events
  | error e events =>
    rw [Run.error_orElse, Run.error_orElse]
    generalize others () = second, others' () = second' at hothers ⊢
    cases hothers with
    | value b b' after => exact .value b b' _
    | error e' after => exact .error e' _
    | endless after => exact .endless _
  | endless events => exact .endless events

theorem reportFailure (h : SameButValue r r') :
    SameButValue r.reportFailure r'.reportFailure := by
  cases h with
  | value a a' events => exact .value a a' events
  | error e events => exact .error e _
  | endless events => exact .endless events

end Run.SameButValue

/-! ## Decoders that do not look at contents -/

/-- Is it decided by the contents of a leaf, or by a value, how a run goes on? -/
def Combinator.looksAtContents : Combinator → Bool
  | .equal | .timestamp | .convert | .andThen => true
  | _ => false

/-- Values of the same shape at one place, and runs that are the same but for their values. -/
def BlindSimulation.sameShape : BlindSimulation where
  allowed c := ¬ c.looksAtContents
  values v v' := v.SameShape v' ∧ v.WellFormed ∧ v'.WellFormed
  places p p' := p = p'
  runs := Run.SameButValue
  not_andThen h := h rfl
  eq_of_contents := by
    rintro (h | h | h)
    · exact absurd rfl h
    · exact absurd rfl h
    · exact absurd rfl h
  matches_of_values h := h.1.matches_of_wellFormed h.2.1 h.2.2
  child a h := congrArg (Place.child · a) h
  pure a a' := .value a a' []
  bind := Run.SameButValue.bind
  callback _ := .value () () _
  fail := by
    rintro α p _ t reason rfl
    exact .error _ []
  orElse := Run.SameButValue.orElse
  enter := by
    rintro α v v' p _ body body' definition rfl hbody
    unfold Runner.enter
    split
    · exact .error _ _
    · exact .bind (.value () () _) fun _ _ _ _ => hbody

section

variable {ι : Type} [Numbered ι] {τ : ι → Type} {α : Type}

theorem Definitions.call_sameButValue {defs : Definitions τ}
    (hdefs : ∀ i, (defs i).BuiltFrom fun c => ¬ c.looksAtContents) (budget : Nat) (i : ι) :
    BlindSimulation.sameShape.runners (defs.call budget i) (defs.call budget i) := by
  induction budget generalizing i with
  | zero => exact fun _ _ _ _ _ _ => .endless []
  | succ budget ih => exact BlindSimulation.sameShape.runner ih (defs i) (hdefs i)

theorem Decoder.runWithin_sameButValue {defs : Definitions τ}
    (hdefs : ∀ i, (defs i).BuiltFrom fun c => ¬ c.looksAtContents) (budget : Nat)
    {d : Decoder τ α} (hd : d.BuiltFrom fun c => ¬ c.looksAtContents) {v v' : Json}
    (hv : v.WellFormed) (hv' : v'.WellFormed) (h : v.SameShape v') (p : Place) :
    (d.runWithin defs budget v p).SameButValue (d.runWithin defs budget v' p) :=
  BlindSimulation.sameShape.runner (Definitions.call_sameButValue hdefs budget) d hd ⟨h, hv, hv'⟩
    rfl

/-- **Errors do not depend on the contents of leaves.**  A decoder that does not look at contents
does the same to two values of the same shape: both decodes end with a value, or both with the same
error, and all events on the way are the same, those of rejected branches too. -/
theorem Decoder.decodeWithin_sameButValue (defs : Definitions τ)
    (hdefs : ∀ i, (defs i).BuiltFrom fun c => ¬ c.looksAtContents) (budget : Nat)
    (d : Decoder τ α) (hd : d.BuiltFrom fun c => ¬ c.looksAtContents) (options : Options)
    (v v' : Json) (hv : v.WellFormed) (hv' : v'.WellFormed) (h : v.SameShape v') :
    (d.decodeWithin defs budget options v).SameButValue
      (d.decodeWithin defs budget options v') :=
  (Decoder.runWithin_sameButValue hdefs budget hd hv hv' h
    (Place.root options.maxDepth)).reportFailure

end

/-- With finitely many definitions the budgets of the two decodes are the same as well. -/
theorem Decoder.decode_sameButValue {n : Nat} {τ : Fin n → Type} {α : Type} {defs : Definitions τ}
    (hdefs : ∀ i, (defs i).BuiltFrom fun c => ¬ c.looksAtContents) {d : Decoder τ α}
    (hd : d.BuiltFrom fun c => ¬ c.looksAtContents) (options : Options) {v v' : Json}
    (hv : v.WellFormed) (hv' : v'.WellFormed) (h : v.SameShape v') :
    (d.decode defs options v).SameButValue (d.decode defs options v') := by
  unfold Decoder.decode Definitions.budget
  rw [h.height_eq hv hv']
  exact (Decoder.runWithin_sameButValue hdefs _ hd hv hv' h
    (Place.root options.maxDepth)).reportFailure

/-- Two flags, the second of which is a string, and others: the same branch is rejected with the
same error. -/
theorem twoFlags_decodes_sameButValue :
    let v : Json := .object [("a", .array [.boolean true, .string "yes"])]
    let v' : Json := .object [("a", .array [.boolean false, .string "é"])]
    let decode := twoFlags.decodeWithin (fun i => i.elim0) 0 .unlimited
    (v.WellFormed ∧ v'.WellFormed ∧ v.SameShape v' ∧
      twoFlags.BuiltFrom fun c => ¬ c.looksAtContents) ∧
    (decode v).SameButValue (decode v') ∧
      .rejected 0 ⟨[.key "a", .index 1], .mismatch "boolean" .string⟩ ∈ (decode v).events := by
  intro v v' decode
  have hv : v.WellFormed := by
    simp [v, Json.WellFormed, Json.MembersWellFormed, Json.ElementsWellFormed, Members.keys]
  have hv' : v'.WellFormed := by
    simp [v', Json.WellFormed, Json.MembersWellFormed, Json.ElementsWellFormed, Members.keys]
  have hflags : (Json.array [.boolean true, .string "yes"]).SameShape
      (.array [.boolean false, .string "é"]) :=
    .of_matches (.array (.cons (.of_matches (.boolean true false))
      (.cons (.of_matches (.string "yes" "é")) .nil)))
  have h : v.SameShape v' := .of_matches (.object (.cons ⟨rfl, hflags⟩ .nil))
  have hd : twoFlags.BuiltFrom fun c => ¬ c.looksAtContents := by
    refine Decoder.builtFrom_union.2 ⟨Bool.false_ne_true, fun d hd => ?_⟩
    simp only [List.mem_cons, List.not_mem_nil, or_false] at hd
    rcases hd with rfl | rfl
    · exact ⟨Bool.false_ne_true, Bool.false_ne_true, Bool.false_ne_true,
        fun _ => Bool.false_ne_true⟩
    · exact ⟨Bool.false_ne_true, Bool.false_ne_true⟩
  have hdecode := Decoder.decodeWithin_sameButValue (fun i => i.elim0) (fun i => i.elim0) 0 twoFlags
    hd .unlimited v v' hv hv' h
  exact ⟨⟨hv, hv', h, hd⟩, hdecode, List.mem_cons_self⟩

end TypedJson
