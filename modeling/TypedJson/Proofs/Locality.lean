import TypedJson.Proofs.Fields

/-!
# Decoders read only what they name

A path, an object with its keys and a tuple with its positions name what they read of a value.  The
rest may be anything: replaced at a path that neither leads to the one that is read nor on from it,
added or removed under other keys, or put after the last position.  Values, errors and events stay
the same, also where the path stops or something named is missing.
-/

namespace TypedJson

/-! ## Replacing a value at a path -/

namespace Json

/-- The value with another child at the accessor, if it can have one there. -/
def setChild : Json → Accessor → Json → Json
  | object members, .key key, w => object (Members.insert key w members)
  | array elements, .index i, w => array (elements.set i w)
  | v, _, _ => v

/-- The value with another one instead of what stands at the end of the path, if that leads
anywhere. -/
def replaceAt : Json → Path → Json → Json
  | _, [], new => new
  | v, a :: rest, new =>
    match v.get? a with
    | some w => v.setChild a (w.replaceAt rest new)
    | none => v

variable {v w new : Json} {a b : Accessor} {q : Path}

@[simp] theorem kind_setChild (v : Json) (a : Accessor) (u : Json) :
    (v.setChild a u).kind = v.kind := by
  cases v <;> cases a <;> rfl

theorem get?_setChild_self (h : v.get? a = some w) (u : Json) :
    (v.setChild a u).get? a = some u := by
  cases v with
  | object ms =>
    cases a with
    | key key => exact Members.find?_insert_self key u ms
    | index i => cases h
  | array vs =>
    cases a with
    | key key => cases h
    | index i => exact List.getElem?_set_self (List.getElem?_eq_some_iff.1 h).1
  | _ => cases h

theorem get?_setChild_of_ne (h : b ≠ a) (v u : Json) : (v.setChild a u).get? b = v.get? b := by
  cases v with
  | object ms =>
    cases a with
    | key key =>
      cases b with
      | key key' => exact Members.find?_insert_of_ne (fun hkey => h (congrArg _ hkey)) u ms
      | index j => rfl
    | index i => rfl
  | array vs =>
    cases a with
    | key key => rfl
    | index i =>
      cases b with
      | key key => rfl
      | index j => exact List.getElem?_set_ne fun hi => h (congrArg _ hi.symm)
  | _ => rfl

theorem replaceAt_cons (h : v.get? a = some w) (rest : Path) (new : Json) :
    v.replaceAt (a :: rest) new = v.setChild a (w.replaceAt rest new) := by
  rw [replaceAt, h]

/-- What was put in the place of another value is found there. -/
theorem resolve?_replaceAt_self (h : (v.resolve? q).isSome) :
    (v.replaceAt q new).resolve? q = some new := by
  induction q generalizing v with
  | nil => rfl
  | cons a q ih =>
    cases hw : v.get? a with
    | none =>
      rw [resolve?, hw] at h
      cases h
    | some w =>
      rw [resolve?, hw] at h
      rw [replaceAt_cons hw, resolve?, get?_setChild_self hw]
      exact ih h

end Json

namespace Runner

variable {α : Type}

/-- A path does not see what stands at the end of another that parts from it. -/
theorem atPath_replaceAt (inner : Runner α) {v new : Json} {p q : Path}
    (hq : (v.resolve? q).isSome) (hqp : ¬ q <+: p) (hpq : ¬ p <+: q) (l : Place) :
    atPath inner p (v.replaceAt q new) l = atPath inner p v l := by
  induction p generalizing v q l with
  | nil => exact absurd List.nil_prefix hpq
  | cons a p ih =>
    cases q with
    | nil => exact absurd List.nil_prefix hqp
    | cons b q =>
      rw [List.cons_prefix_cons] at hqp hpq
      rw [Json.resolve?] at hq
      cases hw : v.get? b with
      | none =>
        rw [hw] at hq
        cases hq
      | some w =>
        rw [hw] at hq
        rw [Json.replaceAt_cons hw, atPath, atPath]
        by_cases hab : a = b
        · -- the paths go on together, so they part further down
          subst hab
          rw [Json.get?_setChild_self hw, hw]
          exact ih hq (fun h => hqp ⟨rfl, h⟩) (fun h => hpq ⟨rfl, h⟩) (l.child a)
        · -- they part here: the same child, or the same kind of value to blame
          unfold mismatch
          rw [Json.get?_setChild_of_ne hab, Json.kind_setChild]

variable {k : Nat} {σ : Fin k → Type}

/-- An object does not see the members of keys that it does not declare. -/
theorem object_eq_of_find?_eq {keys : Fin k → String} (fields : (i : Fin k) → Runner (σ i))
    (construct : ((i : Fin k) → σ i) → α) {ms ms' : Members}
    (h : ∀ i, Members.find? (keys i) ms = Members.find? (keys i) ms') (p : Place) :
    object keys fields construct (.object ms) p = object keys fields construct (.object ms') p := by
  have hfield : ∀ i, field (fields i) (keys i) ms p = field (fields i) (keys i) ms' p := by
    intro i
    unfold field
    rw [h i]
  have hmissing : missingKeys (List.ofFn keys) ms = missingKeys (List.ofFn keys) ms' := by
    refine missingKeys_congr fun key hkey => ?_
    obtain ⟨i, rfl⟩ := List.mem_ofFn.1 hkey
    rw [h i]
  rw [object, object, funext hfield, hmissing]

/-- A tuple does not see the elements after its last position. -/
theorem tuple_eq_of_getElem?_eq (positions : (i : Fin k) → Runner (σ i)) {vs vs' : List Json}
    (h : ∀ i : Fin k, vs[i.val]? = vs'[i.val]?) (p : Place) :
    tuple positions (.array vs) p = tuple positions (.array vs') p := by
  refine congrArg Run.collect (funext fun i => ?_)
  unfold position
  rw [h i]

end Runner

section

variable {ι : Type} [Numbered ι] {τ : ι → Type}

/-- **Decoders read only what they name.**  At every place, under every limit: a decoder at the end
of a path does the same after any replacement at another path that parts from it, an object does the
same to objects that agree on its keys, and a tuple to arrays that agree on its positions. -/
theorem Decoder.run_eq_of_agree (defs : Definitions τ) (budget : Nat) (l : Place) :
    (∀ {α : Type} (d : Decoder τ α) (p q : Path) (v new : Json), (v.resolve? q).isSome →
      ¬ q <+: p → ¬ p <+: q →
      (v.replaceAt q new).resolve? q = some new ∧
        (Decoder.atPath p d).runWithin defs budget (v.replaceAt q new) l =
          (Decoder.atPath p d).runWithin defs budget v l) ∧
    (∀ {k : Nat} {σ : Fin k → Type} {α : Type} (keys : Fin k → String)
      (fields : (i : Fin k) → Decoder τ (σ i)) (construct : ((i : Fin k) → σ i) → α)
      (ms ms' : Members), (∀ i, Members.find? (keys i) ms = Members.find? (keys i) ms') →
      (Decoder.object keys fields construct).runWithin defs budget (.object ms) l =
        (Decoder.object keys fields construct).runWithin defs budget (.object ms') l) ∧
    ∀ {k : Nat} {σ : Fin k → Type} (positions : (i : Fin k) → Decoder τ (σ i))
      (vs vs' : List Json), (∀ i : Fin k, vs[i.val]? = vs'[i.val]?) →
      (Decoder.tuple positions).runWithin defs budget (.array vs) l =
        (Decoder.tuple positions).runWithin defs budget (.array vs') l := by
  refine ⟨?_, ?_, ?_⟩
  · intro α d p q v new hq hqp hpq
    exact ⟨Json.resolve?_replaceAt_self hq, Runner.atPath_replaceAt _ hq hqp hpq l⟩
  · intro k σ α keys fields construct ms ms' h
    exact Runner.object_eq_of_find?_eq _ construct h l
  · intro k σ positions vs vs' h
    exact Runner.tuple_eq_of_getElem?_eq _ h l

end

/-- An array where there was a null, beside a path that stops; a key that is not declared, beside one
that is missing; and elements after the last position. -/
theorem threeFlags_run_eq_of_agree :
    let run {α : Type} (d : Decoder (fun i : Fin 0 => i.elim0) α) (v : Json) :=
      d.runWithin (fun i => i.elim0) 0 v (Place.root none)
    let v : Json := .object [("a", .array [.boolean true]), ("b", .null)]
    let p : Path := [.key "a", .index 3]
    let q : Path := [.key "b"]
    let ms : Members := [("a", .boolean true), ("zeta", .boolean false)]
    let more : Members := [("a", .boolean true), ("b", .null), ("zeta", .boolean false)]
    ((v.resolve? q).isSome ∧ ¬ q <+: p ∧ ¬ p <+: q ∧
      run (.atPath p negatedFlag) (v.replaceAt q (.array [])) = run (.atPath p negatedFlag) v) ∧
    ((∀ i, Members.find? (flagKeys i) ms = Members.find? (flagKeys i) more) ∧
      run threeFlags (.object ms) = run threeFlags (.object more)) ∧
    (∀ i : Fin 1, [Json.boolean true][i.val]? = [Json.boolean true, .null][i.val]?) ∧
      run (.tuple fun _ : Fin 1 => negatedFlag) (.array [.boolean true]) =
        run (.tuple fun _ : Fin 1 => negatedFlag) (.array [.boolean true, .null]) := by
  intro run v p q ms more
  have hagree := Decoder.run_eq_of_agree (τ := fun i : Fin 0 => i.elim0) (fun i => i.elim0) 0
    (Place.root none)
  have hqp : ¬ q <+: p := by decide
  have hpq : ¬ p <+: q := by decide
  have hfind : ∀ i, Members.find? (flagKeys i) ms = Members.find? (flagKeys i) more :=
    Fin.cases rfl (Fin.cases rfl (Fin.cases rfl fun i => i.elim0))
  have hget : ∀ i : Fin 1, [Json.boolean true][i.val]? = [Json.boolean true, .null][i.val]? :=
    Fin.cases rfl fun i => i.elim0
  exact ⟨⟨rfl, hqp, hpq, (hagree.1 negatedFlag p q v _ rfl hqp hpq).2⟩,
    ⟨hfind, hagree.2.1 _ _ _ _ _ hfind⟩, hget, hagree.2.2 _ _ _ hget⟩

end TypedJson
