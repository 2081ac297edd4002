import Mathlib.Data.List.Forall2
import TypedJson.Proofs.Simulation

/-!
# Simulations that do not look at values

A `BlindSimulation` relates the runs of one decoder on two values, which may be different ones.  So
the values that the runs yield may be different too, and continuations, which choose a decoder by a
value, are excluded.  What is left depends on values only through their kinds, through the keys that
an object has, and through the few combinators that look at the contents of a value.

Runners are related (`BlindSimulation.runners`) if their runs are, on all related values at all
related places.  Each combinator keeps that, and so does every decoder without continuations
(`BlindSimulation.runner`).
-/

namespace TypedJson

/-! ## Values with related children -/

/-- Two values of one kind, whose elements are related in their order and whose members are related
key by key. -/
inductive Json.Matches (R : Json → Json → Prop) : Json → Json → Prop where
  | null : Matches R .null .null
  | boolean (b b' : Bool) : Matches R (.boolean b) (.boolean b')
  | number (n n' : Number) : Matches R (.number n) (.number n')
  | string (s s' : String) : Matches R (.string s) (.string s')
  | array {vs vs' : List Json} (h : List.Forall₂ R vs vs') : Matches R (.array vs) (.array vs')
  | object {ms ms' : Members} (h : List.Forall₂ (fun m m' => m.1 = m'.1 ∧ R m.2 m'.2) ms ms') :
      Matches R (.object ms) (.object ms')

namespace Json.Matches

variable {R : Json → Json → Prop}

theorem kind_eq {v v' : Json} (h : Matches R v v') : v.kind = v'.kind := by
  cases h <;> rfl

theorem getElem? {vs vs' : List Json} (h : List.Forall₂ R vs vs') (i : Nat) :
    Option.Rel R vs[i]? vs'[i]? := by
  induction h generalizing i with
  | nil => exact .none
  | cons hv _ ih =>
    cases i with
    | zero => exact .some hv
    | succ i => exact ih i

theorem find? {ms ms' : Members}
    (h : List.Forall₂ (fun m m' => m.1 = m'.1 ∧ R m.2 m'.2) ms ms') (key : String) :
    Option.Rel R (Members.find? key ms) (Members.find? key ms') := by
  induction h with
  | nil => exact .none
  | @cons m m' ms ms' hm _ ih =>
    obtain ⟨k, v⟩ := m
    obtain ⟨k', v'⟩ := m'
    obtain ⟨rfl, hv⟩ : k = k' ∧ R v v' := hm
    rw [Members.find?, Members.find?]
    split
    · exact .some hv
    · exact ih

theorem isSome_find?_eq {ms ms' : Members}
    (h : List.Forall₂ (fun m m' => m.1 = m'.1 ∧ R m.2 m'.2) ms ms') (key : String) :
    (Members.find? key ms).isSome = (Members.find? key ms').isSome := by
  have hfind := find? h key
  generalize Members.find? key ms = w, Members.find? key ms' = w' at hfind ⊢
  cases hfind <;> rfl

theorem get? {v v' : Json} (h : Matches R v v') (a : Accessor) :
    Option.Rel R (v.get? a) (v'.get? a) := by
  cases h with
  | array h =>
    cases a with
    | key key => exact .none
    | index i => exact getElem? h i
  | object h =>
    cases a with
    | key key => exact find? h key
    | index i => exact .none
  | _ => cases a <;> exact .none

end Json.Matches

/-! ## Values of families -/

theorem Run.outcome_of_bind {α β : Type} {r : Run α} {next : α → Run β} {b : β}
    (h : (r >>= next).outcome = .value b) :
    ∃ a, r.outcome = .value a ∧ (next a).outcome = .value b := by
  rcases r with ⟨a | e | _, events⟩
  · exact ⟨a, rfl, h⟩
  · cases h
  · cases h

theorem Run.outcome_of_map {α β : Type} {r : Run α} {f : α → β} {b : β}
    (h : (r.map f).outcome = .value b) : ∃ a, r.outcome = .value a ∧ f a = b := by
  rcases r with ⟨a | e | _, events⟩
  · cases h
    exact ⟨a, rfl, rfl⟩
  · cases h
  · cases h

/-- The values of a family are those of its runs. -/
theorem Run.outcome_of_collect {k : Nat} {σ : Fin k → Type} {runs : (i : Fin k) → Run (σ i)}
    {values : (i : Fin k) → σ i} (h : (Run.collect runs).outcome = .value values) (i : Fin k) :
    (runs i).outcome = .value (values i) := by
  induction k with
  | zero => exact i.elim0
  | succ k ih =>
    obtain ⟨first, hfirst, h⟩ := Run.outcome_of_bind h
    obtain ⟨others, hothers, rfl⟩ := Run.outcome_of_map h
    cases i using Fin.cases with
    | zero => exact hfirst
    | succ i => exact ih hothers i

/-- Whether a field has a value is whether the object has its key. -/
theorem Runner.isSome_of_field {α : Type} {decoder : Runner α} {key : String} {ms : Members}
    {p : Place} {value : Option α}
    (h : (Runner.field decoder key ms p).outcome = .value value) :
    value.isSome = (Members.find? key ms).isSome := by
  unfold Runner.field at h
  split at h
  · next w hw =>
    obtain ⟨a, -, rfl⟩ := Run.outcome_of_map h
    rw [hw]
    rfl
  · next hw =>
    cases h
    rw [hw]
    rfl

theorem Runner.allPresent?_succ {k : Nat} {σ : Fin (k + 1) → Type}
    (values : (i : Fin (k + 1)) → Option (σ i)) :
    Runner.allPresent? values = (values 0).bind fun first =>
      (Runner.allPresent? fun i => values i.succ).map fun others => Fin.cases first others := by
  show ((values 0).bind fun first => (Runner.allPresent? fun i => values i.succ).bind _) = _
  cases values 0 with
  | none => rfl
  | some first => cases Runner.allPresent? fun i => values i.succ <;> rfl

/-- All values of a family are there iff each is. -/
theorem Runner.isSome_allPresent?_iff {k : Nat} {σ : Fin k → Type}
    {values : (i : Fin k) → Option (σ i)} :
    (Runner.allPresent? values).isSome ↔ ∀ i, (values i).isSome := by
  induction k with
  | zero =>
    constructor
    · intro _ i
      exact i.elim0
    · intro _
      rfl
  | succ k ih =>
    rw [Fin.forall_fin_succ, ← ih, Runner.allPresent?_succ]
    cases values 0 with
    | none => simp
    | some first => cases Runner.allPresent? fun i => values i.succ <;> simp

/-! ## Blind simulations -/

/-- Related values, places and runs, closed under what combinators do on values that may differ. -/
structure BlindSimulation where
  /-- The combinators that the relation survives. -/
  allowed : Combinator → Prop
  values : Json → Json → Prop
  places : Place → Place → Prop
  runs : {α : Type} → Run α → Run α → Prop
  not_andThen : ¬ allowed .andThen
  /-- Only values that are the same may be compared or converted. -/
  eq_of_contents : (allowed .equal ∨ allowed .timestamp ∨ allowed .convert) →
    ∀ {v v'}, values v v' → v = v'
  matches_of_values : ∀ {v v'}, values v v' → Json.Matches values v v'
  child : ∀ {p p'} (a : Accessor), places p p' → places (p.child a) (p'.child a)
  pure : ∀ {α : Type} (a a' : α), runs (Pure.pure a) (Pure.pure a')
  bind : ∀ {α β : Type} {r r' : Run α} {next next' : α → Run β}, runs r r' →
    (∀ a a', r.outcome = .value a → r'.outcome = .value a' → runs (next a) (next' a')) →
    runs (r >>= next) (r' >>= next')
  callback : ∀ {event : Event}, event.isCallback → runs (Run.emit event) (Run.emit event)
  fail : ∀ {α : Type} {p p'} (t reason), places p p' →
    runs (Run.fail (α := α) (p.path ++ t) reason) (Run.fail (p'.path ++ t) reason)
  orElse : ∀ {α : Type} {r r' : Run α} {others others' : Unit → Run α} (branch : Nat),
    runs r r' → runs (others ()) (others' ()) →
    runs (r.orElse branch others) (r'.orElse branch others')
  enter : ∀ {α : Type} {v v' p p'} {body body' : Runner α} (definition : Nat), places p p' →
    runs (body v p) (body' v' p') →
    runs (Runner.enter definition body v p) (Runner.enter definition body' v' p')

namespace BlindSimulation

variable (S : BlindSimulation) {α β : Type}

/-- Runners whose runs are related on related values at related places. -/
def runners (r r' : Runner α) : Prop :=
  ∀ ⦃v v' : Json⦄ ⦃p p' : Place⦄, S.values v v' → S.places p p' → S.runs (r v p) (r' v' p')

theorem map (f f' : α → β) {r r' : Run α} (h : S.runs r r') : S.runs (r.map f) (r'.map f') := by
  rw [Run.map_eq_bind, Run.map_eq_bind]
  exact S.bind h fun a a' _ _ => S.pure (f a) (f' a')

theorem failHere (reason : Reason) {p p' : Place} (hp : S.places p p') :
    S.runs (Run.fail p.path reason : Run α) (Run.fail p'.path reason) := by
  have h : S.runs (Run.fail (p.path ++ []) reason : Run α) _ := S.fail [] reason hp
  rwa [List.append_nil, List.append_nil] at h

theorem mismatch (expected : String) {v v' : Json} {p p' : Place} (hv : S.values v v')
    (hp : S.places p p') :
    S.runs (Runner.mismatch expected v p : Run α) (Runner.mismatch expected v' p') := by
  unfold Runner.mismatch
  rw [(S.matches_of_values hv).kind_eq]
  exact S.failHere _ hp

theorem collect {k : Nat} {σ : Fin k → Type} {runs runs' : (i : Fin k) → Run (σ i)}
    (h : ∀ i, S.runs (runs i) (runs' i)) : S.runs (Run.collect runs) (Run.collect runs') := by
  induction k with
  | zero => exact S.pure _ _
  | succ k ih => exact S.bind (h 0) fun a a' _ _ => S.map _ _ (ih fun i => h i.succ)

/-! ### Single values -/

theorem string : S.runners Runner.string Runner.string := by
  intro v v' p p' hv hp
  cases S.matches_of_values hv with
  | string s s' => exact S.pure s s'
  | _ => exact S.mismatch _ hv hp

theorem number : S.runners Runner.number Runner.number := by
  intro v v' p p' hv hp
  cases S.matches_of_values hv with
  | number n n' => exact S.pure _ _
  | _ => exact S.mismatch _ hv hp

theorem boolean : S.runners Runner.boolean Runner.boolean := by
  intro v v' p p' hv hp
  cases S.matches_of_values hv with
  | boolean b b' => exact S.pure b b'
  | _ => exact S.mismatch _ hv hp

theorem null : S.runners Runner.null Runner.null := by
  intro v v' p p' hv hp
  cases S.matches_of_values hv with
  | null => exact S.pure () ()
  | _ => exact S.mismatch _ hv hp

theorem anyObject : S.runners Runner.anyObject Runner.anyObject := by
  intro v v' p p' hv hp
  cases S.matches_of_values hv with
  | object h => exact S.pure _ _
  | _ => exact S.mismatch _ hv hp

theorem equal (hallowed : S.allowed .equal) (literal : Json) :
    S.runners (Runner.equal literal) (Runner.equal literal) := by
  intro v v' p p' hv hp
  obtain rfl := S.eq_of_contents (.inl hallowed) hv
  unfold Runner.equal
  split
  · exact S.pure literal literal
  · exact S.mismatch _ hv hp

theorem timestamp (hallowed : S.allowed .timestamp) :
    S.runners Runner.timestamp Runner.timestamp := by
  intro v v' p p' hv hp
  obtain rfl := S.eq_of_contents (.inr (.inl hallowed)) hv
  unfold Runner.timestamp
  split
  · split
    · exact S.pure _ _
    · exact S.mismatch _ hv hp
  · exact S.mismatch _ hv hp

theorem convert (hallowed : S.allowed .convert) (conversion : Conversion α) :
    S.runners (Runner.convert conversion) (Runner.convert conversion) := by
  intro v v' p p' hv hp
  obtain rfl := S.eq_of_contents (.inr (.inr hallowed)) hv
  unfold Runner.convert
  split
  · exact S.pure _ _
  · exact S.failHere _ hp

/-! ### Arrays and objects -/

theorem elements {element element' : Runner α} (h : S.runners element element') {p p' : Place}
    (hp : S.places p p') {vs vs' : List Json} (hvs : List.Forall₂ S.values vs vs') (i : Nat) :
    S.runs (Runner.elements element p i vs) (Runner.elements element' p' i vs') := by
  induction hvs generalizing i with
  | nil => exact S.pure _ _
  | cons hv _ ih =>
    exact S.bind (h hv (S.child _ hp)) fun a a' _ _ => S.map _ _ (ih (i + 1))

theorem array {element element' : Runner α} (h : S.runners element element') :
    S.runners (Runner.array element) (Runner.array element') := by
  intro v v' p p' hv hp
  cases S.matches_of_values hv with
  | array hvs => exact S.elements h hp hvs 0
  | _ => exact S.mismatch _ hv hp

theorem position {decoder decoder' : Runner α} (h : S.runners decoder decoder') {p p' : Place}
    (hp : S.places p p') {vs vs' : List Json} (hvs : List.Forall₂ S.values vs vs') (i : Nat) :
    S.runs (Runner.position decoder vs p i) (Runner.position decoder' vs' p' i) := by
  have hget := Json.Matches.getElem? hvs i
  unfold Runner.position
  generalize vs[i]? = w, vs'[i]? = w' at hget ⊢
  cases hget with
  | none => exact S.fail [.index i] _ hp
  | some hw => exact h hw (S.child _ hp)

theorem tuple {k : Nat} {σ : Fin k → Type} {positions positions' : (i : Fin k) → Runner (σ i)}
    (h : ∀ i, S.runners (positions i) (positions' i)) :
    S.runners (Runner.tuple positions) (Runner.tuple positions') := by
  intro v v' p p' hv hp
  cases S.matches_of_values hv with
  | array hvs => exact S.collect fun i => S.position (h i) hp hvs i
  | _ => exact S.mismatch _ hv hp

theorem field {decoder decoder' : Runner α} (h : S.runners decoder decoder') (key : String)
    {p p' : Place} (hp : S.places p p') {ms ms' : Members}
    (hms : List.Forall₂ (fun m m' => m.1 = m'.1 ∧ S.values m.2 m'.2) ms ms') :
    S.runs (Runner.field decoder key ms p) (Runner.field decoder' key ms' p') := by
  have hfind := Json.Matches.find? hms key
  unfold Runner.field
  generalize Members.find? key ms = w, Members.find? key ms' = w' at hfind ⊢
  cases hfind with
  | none => exact S.pure _ _
  | some hw => exact S.map _ _ (h hw (S.child _ hp))

theorem object {k : Nat} {σ : Fin k → Type} {keys : Fin k → String}
    {fields fields' : (i : Fin k) → Runner (σ i)} {construct : ((i : Fin k) → σ i) → α}
    (h : ∀ i, S.runners (fields i) (fields' i)) :
    S.runners (Runner.object keys fields construct) (Runner.object keys fields' construct) := by
  intro v v' p p' hv hp
  cases S.matches_of_values hv with
  | @object ms ms' hms =>
    refine S.bind (S.collect fun i => S.field (h i) (keys i) hp hms) fun values values' ha ha' => ?_
    -- the values differ, but the same ones are lacking: those of the keys that no member has
    have hsome : ∀ i, (values i).isSome = (values' i).isSome := by
      intro i
      rw [Runner.isSome_of_field (Run.outcome_of_collect ha i),
        Runner.isSome_of_field (Run.outcome_of_collect ha' i), Json.Matches.isSome_find?_eq hms]
    have hpresent : (Runner.allPresent? values).isSome = (Runner.allPresent? values').isSome := by
      rw [Bool.eq_iff_iff, Runner.isSome_allPresent?_iff, Runner.isSome_allPresent?_iff]
      simp only [hsome]
    generalize Runner.allPresent? values = all, Runner.allPresent? values' = all' at hpresent ⊢
    cases all with
    | none =>
      cases all' with
      | none =>
        rw [Runner.missingKeys_congr fun key _ => Json.Matches.isSome_find?_eq hms key]
        exact S.failHere _ hp
      | some _ => cases hpresent
    | some _ =>
      cases all' with
      | none => cases hpresent
      | some _ => exact S.bind (S.callback rfl) fun _ _ _ _ => S.pure _ _
  | _ => exact S.mismatch _ hv hp

theorem members {value value' : Runner α} (h : S.runners value value') {p p' : Place}
    (hp : S.places p p') {ms ms' : Members}
    (hms : List.Forall₂ (fun m m' => m.1 = m'.1 ∧ S.values m.2 m'.2) ms ms') :
    S.runs (Runner.members value p ms) (Runner.members value' p' ms') := by
  induction hms with
  | nil => exact S.pure _ _
  | @cons m m' ms ms' hm _ ih =>
    obtain ⟨key, v⟩ := m
    obtain ⟨key', v'⟩ := m'
    obtain ⟨rfl, hv⟩ : key = key' ∧ S.values v v' := hm
    exact S.bind (h hv (S.child _ hp)) fun a a' _ _ => S.map _ _ ih

theorem dict {value value' : Runner α} (h : S.runners value value') :
    S.runners (Runner.dict value) (Runner.dict value') := by
  intro v v' p p' hv hp
  cases S.matches_of_values hv with
  | object hms => exact S.members h hp hms
  | _ => exact S.mismatch _ hv hp

theorem atPath {inner inner' : Runner α} (h : S.runners inner inner') (path : Path) :
    S.runners (Runner.atPath inner path) (Runner.atPath inner' path) := by
  intro v v' p p' hv hp
  induction path generalizing v v' p p' with
  | nil => exact h hv hp
  | cons a path ih =>
    have hmatches := S.matches_of_values hv
    have hget := hmatches.get? a
    unfold Runner.atPath
    rw [hmatches.kind_eq]
    generalize v.get? a = w, v'.get? a = w' at hget ⊢
    cases hget with
    | none => exact S.mismatch _ hv hp
    | some hw => exact ih hw (S.child a hp)

/-! ### Choice -/

theorem alternatives {k : Nat} {branches branches' : Fin k → Runner α}
    (h : ∀ j, S.runners (branches j) (branches' j)) :
    S.runners (Runner.alternatives (List.ofFn branches))
      (Runner.alternatives (List.ofFn branches')) := by
  intro v v' p p' hv hp
  have hfirst : ∀ i, S.runs (Runner.firstSuccess v p i (List.ofFn branches))
      (Runner.firstSuccess v' p' i (List.ofFn branches')) := by
    induction k with
    | zero =>
      intro i
      rw [List.ofFn_zero, List.ofFn_zero, Runner.firstSuccess, Runner.firstSuccess,
        (S.matches_of_values hv).kind_eq]
      exact S.failHere _ hp
    | succ k ih =>
      intro i
      rw [List.ofFn_succ, List.ofFn_succ]
      exact S.orElse i (h 0 hv hp) (ih (fun j => h j.succ) (i + 1))
  exact hfirst 0

theorem transform (label : Option String) (f : α → β) {inner inner' : Runner α}
    (h : S.runners inner inner') :
    S.runners (Runner.transform label f inner) (Runner.transform label f inner') := by
  intro v v' p p' hv hp
  refine S.bind (h hv hp) fun a a' _ _ => ?_
  exact S.bind (S.callback rfl) fun _ _ _ _ => S.pure (f a) (f a')

/-! ### Whole decoders -/

section

variable {ι : Type} [Numbered ι] {τ : ι → Type}

/-- Runs of one decoder on related values are related if those of the definitions are. -/
theorem runner {call call' : (i : ι) → Runner (τ i)} (hcall : ∀ i, S.runners (call i) (call' i))
    (d : Decoder τ α) (hd : d.BuiltFrom S.allowed) :
    S.runners (d.runner call) (d.runner call') := by
  induction d with
  | string => exact S.string
  | number => exact S.number
  | boolean => exact S.boolean
  | null => exact S.null
  | any => exact fun _ _ _ _ _ _ => S.pure _ _
  | anyObject => exact S.anyObject
  | equal literal => exact S.equal hd literal
  | timestamp => exact S.timestamp hd
  | convert conversion => exact S.convert hd conversion
  | array element ih => exact S.array (ih hd.2)
  | tuple positions ih => exact S.tuple fun i => ih i (hd.2 i)
  | object keys fields construct ih => exact S.object fun i => ih i (hd.2 i)
  | dict value ih => exact S.dict (ih hd.2)
  | atPath path inner ih => exact S.atPath (ih hd.2) path
  | alternatives branches ih => exact S.alternatives fun j => ih j (hd.2 j)
  | andThen first next ihFirst ihNext => exact absurd hd.1 S.not_andThen
  | transform label f inner ih => exact S.transform label f (ih hd.2)
  | ref i => exact fun _ _ _ _ hv hp => S.enter _ hp (hcall i hv hp)
  | fail message => exact fun _ _ _ _ _ hp => S.failHere _ hp
  | succeed result => exact fun _ _ _ _ _ _ => S.pure result result

end

end BlindSimulation

end TypedJson
