import Mathlib.Data.List.Basic
import TypedJson.Proofs.Calls

/-!
# Simulations

A `Simulation` relates the runs of one decoder at two places, or with two meanings of the
definitions.  It says which places are related and which runs, and that the runs stay related
through everything that combinators do: yield a value, fail at a place, go on with a value, choose
between branches, enter a definition.

    S.places v p p' → (the calls of d are related) →
      S.runs (d.runner call v p) (d.runner call' v p')                        (Simulation.runner)

So a property of all decoders is proved without a word on single combinators.  A property of one
run is a relation of the run to itself.  The parts of a decoder that a relation does not survive
can be excluded by `allowed`.  Runs that are the same but for a `Difference` are a simulation.
-/

namespace TypedJson

/-! ## What decoders are built from -/

/-- The ways to build a decoder. -/
inductive Combinator where
  | string | number | boolean | null | any | anyObject | equal | timestamp | convert | array | tuple
  | object | dict | atPath | alternatives | andThen | transform | ref | fail | succeed
  deriving DecidableEq

section

variable {ι : Type} {τ : ι → Type}

/-- The decoder and all its parts, also those that a continuation yields, are allowed ones. -/
def Decoder.BuiltFrom (allowed : Combinator → Prop) : {α : Type} → Decoder τ α → Prop
  | _, .string => allowed .string
  | _, .number => allowed .number
  | _, .boolean => allowed .boolean
  | _, .null => allowed .null
  | _, .any => allowed .any
  | _, .anyObject => allowed .anyObject
  | _, .equal _ => allowed .equal
  | _, .timestamp => allowed .timestamp
  | _, .convert _ => allowed .convert
  | _, .array element => allowed .array ∧ element.BuiltFrom allowed
  | _, .tuple positions => allowed .tuple ∧ ∀ i, (positions i).BuiltFrom allowed
  | _, .object _ fields _ => allowed .object ∧ ∀ i, (fields i).BuiltFrom allowed
  | _, .dict value => allowed .dict ∧ value.BuiltFrom allowed
  | _, .atPath _ inner => allowed .atPath ∧ inner.BuiltFrom allowed
  | _, .alternatives branches => allowed .alternatives ∧ ∀ i, (branches i).BuiltFrom allowed
  | _, .andThen first next =>
    allowed .andThen ∧ first.BuiltFrom allowed ∧ ∀ a, (next a).BuiltFrom allowed
  | _, .transform _ _ inner => allowed .transform ∧ inner.BuiltFrom allowed
  | _, .ref _ => allowed .ref
  | _, .fail _ => allowed .fail
  | _, .succeed _ => allowed .succeed

/-- Every decoder is built from the combinators. -/
theorem Decoder.builtFrom_all {α : Type} (d : Decoder τ α) : d.BuiltFrom fun _ => True := by
  induction d with
  | array element ih => exact ⟨trivial, ih⟩
  | tuple positions ih => exact ⟨trivial, ih⟩
  | object keys fields construct ih => exact ⟨trivial, ih⟩
  | dict value ih => exact ⟨trivial, ih⟩
  | atPath path inner ih => exact ⟨trivial, ih⟩
  | alternatives branches ih => exact ⟨trivial, ih⟩
  | andThen first next ihFirst ihNext => exact ⟨trivial, ihFirst, ihNext⟩
  | transform label f inner ih => exact ⟨trivial, ih⟩
  | _ => trivial

theorem Decoder.builtFrom_union {α : Type} {allowed : Combinator → Prop}
    {branches : List (Decoder τ α)} :
    (union branches).BuiltFrom allowed ↔
      allowed .alternatives ∧ ∀ d ∈ branches, d.BuiltFrom allowed := by
  rw [List.forall_mem_iff_get]
  rfl

end

/-! ## Failures -/

/-- What a combinator may find wrong with a value: the path from the value to the place it blames,
and the reason. -/
inductive Json.Fault : Json → Path → Reason → Prop where
  | mismatch (v : Json) (expected : String) : Fault v [] (.mismatch expected v.kind)
  | message (v : Json) (text : String) : Fault v [] (.message text)
  | missingKeys {ms : Members} {keys : List String}
      (h : ∀ key ∈ keys, Members.find? key ms = none) : Fault (.object ms) [] (.missingKeys keys)
  | missingPosition {vs : List Json} {i : Nat} (h : vs[i]? = none) :
      Fault (.array vs) [.index i] (.mismatch ("array with index " ++ Nat.repr i) .array)

theorem Runner.find?_eq_none_of_mem_missingKeys {keys : List String} {ms : Members} {key : String}
    (h : key ∈ missingKeys keys ms) : Members.find? key ms = none := by
  unfold missingKeys at h
  rw [List.mem_mergeSort, List.mem_filter] at h
  exact Option.isNone_iff_eq_none.1 h.2

/-- Of two objects that have the same ones of the keys, the same keys are missing. -/
theorem Runner.missingKeys_congr {keys : List String} {ms ms' : Members}
    (h : ∀ key ∈ keys, (Members.find? key ms).isSome = (Members.find? key ms').isSome) :
    missingKeys keys ms = missingKeys keys ms' := by
  unfold missingKeys
  congr 1
  refine List.filter_congr fun key hkey => ?_
  rw [← Option.not_isSome, ← Option.not_isSome, h key hkey]

/-! ## Simulations -/

/-- Does the event tell of a function of the user's that was applied? -/
def Event.isCallback : Event → Bool
  | .transformed _ | .continued | .constructed _ => true
  | _ => false

/-- Related places and related runs, closed under what combinators do. -/
structure Simulation where
  /-- The combinators that the relation survives. -/
  allowed : Combinator → Prop
  /-- The places at which a value may stand in the two runs. -/
  places : Json → Place → Place → Prop
  runs : {α : Type} → Run α → Run α → Prop
  child : ∀ {v w p p' a}, places v p p' → v.Child a w → places w (p.child a) (p'.child a)
  pure : ∀ {α : Type} (a : α), runs (Pure.pure a) (Pure.pure a)
  bind : ∀ {α β : Type} {r r' : Run α} {next next' : α → Run β}, runs r r' →
    (∀ a, runs (next a) (next' a)) → runs (r >>= next) (r' >>= next')
  callback : ∀ {event : Event}, event.isCallback → runs (Run.emit event) (Run.emit event)
  fail : ∀ {α : Type} {v p p' t reason}, places v p p' → v.Fault t reason →
    runs (Run.fail (α := α) (p.path ++ t) reason) (Run.fail (p'.path ++ t) reason)
  orElse : allowed .alternatives → ∀ {α : Type} {r r' : Run α} {others others' : Unit → Run α}
    (branch : Nat), runs r r' → runs (others ()) (others' ()) →
    runs (r.orElse branch others) (r'.orElse branch others')
  enter : ∀ {α : Type} {v p p'} {body body' : Runner α} (definition : Nat), places v p p' →
    runs (body v p) (body' v p') →
    runs (Runner.enter definition body v p) (Runner.enter definition body' v p')

namespace Simulation

/-- Runs at one place go on at one place. -/
theorem child_of_eq {v w : Json} {p p' : Place} {a : Accessor} (h : p' = p) (_ : v.Child a w) :
    p'.child a = p.child a := by
  rw [h]

variable (S : Simulation) {α β : Type}

theorem map (f : α → β) {r r' : Run α} (h : S.runs r r') : S.runs (r.map f) (r'.map f) := by
  rw [Run.map_eq_bind, Run.map_eq_bind]
  exact S.bind h fun a => S.pure (f a)

/-- A failure at the place of the value itself. -/
theorem failHere {v : Json} {reason : Reason} (hfault : v.Fault [] reason) {p p' : Place}
    (hp : S.places v p p') :
    S.runs (Run.fail p.path reason : Run α) (Run.fail p'.path reason) := by
  have h : S.runs (Run.fail (p.path ++ []) reason : Run α) _ := S.fail hp hfault
  rwa [List.append_nil, List.append_nil] at h

theorem mismatch (expected : String) {v : Json} {p p' : Place} (hp : S.places v p p') :
    S.runs (Runner.mismatch expected v p : Run α) (Runner.mismatch expected v p') :=
  S.failHere (.mismatch v expected) hp

theorem message (text : String) {v : Json} {p p' : Place} (hp : S.places v p p') :
    S.runs (Run.fail p.path (.message text) : Run α) (Run.fail p'.path (.message text)) :=
  S.failHere (.message v text) hp

theorem descend {v w : Json} {t : Path} (hw : v.resolve? t = some w) {p p' : Place}
    (hp : S.places v p p') : S.places w (p.descend t) (p'.descend t) := by
  induction t generalizing v p p' with
  | nil => cases hw; exact hp
  | cons a t ih =>
    obtain ⟨u, hu, hw⟩ := Option.bind_eq_some_iff.1 hw
    exact ih hw (S.child hp (Json.child_of_get? hu))

/-! ### Arrays and objects -/

theorem collect {k : Nat} {σ : Fin k → Type} {runs runs' : (i : Fin k) → Run (σ i)}
    (h : ∀ i, S.runs (runs i) (runs' i)) : S.runs (Run.collect runs) (Run.collect runs') := by
  induction k with
  | zero => exact S.pure _
  | succ k ih => exact S.bind (h 0) fun a => S.map _ (ih fun i => h i.succ)

theorem elements {element element' : Runner α} {p p' : Place} (vs : List Json) (i : Nat)
    (h : ∀ j w, vs[j]? = some w →
      S.runs (element w (p.child (.index (i + j)))) (element' w (p'.child (.index (i + j))))) :
    S.runs (Runner.elements element p i vs) (Runner.elements element' p' i vs) := by
  induction vs generalizing i with
  | nil => exact S.pure _
  | cons v vs ih =>
    refine S.bind (h 0 v rfl) fun a => S.map _ (ih (i + 1) ?_)
    intro j w hw
    rw [show i + 1 + j = i + (j + 1) by omega]
    exact h (j + 1) w hw

theorem array {element element' : Runner α} {v : Json} {p p' : Place} (hp : S.places v p p')
    (h : ∀ i w, v.Child (.index i) w →
      S.runs (element w (p.child (.index i))) (element' w (p'.child (.index i)))) :
    S.runs (Runner.array element v p) (Runner.array element' v p') := by
  cases v with
  | array vs =>
    refine S.elements vs 0 fun i w hw => ?_
    rw [Nat.zero_add]
    exact h i w (.element hw)
  | _ => exact S.mismatch _ hp

theorem position {decoder decoder' : Runner α} {vs : List Json} {p p' : Place} {i : Nat}
    (hp : S.places (.array vs) p p')
    (h : ∀ w, vs[i]? = some w →
      S.runs (decoder w (p.child (.index i))) (decoder' w (p'.child (.index i)))) :
    S.runs (Runner.position decoder vs p i) (Runner.position decoder' vs p' i) := by
  unfold Runner.position
  cases hw : vs[i]? with
  | some w => exact h w hw
  | none => exact S.fail hp (.missingPosition hw)

theorem tuple {k : Nat} {σ : Fin k → Type} {positions positions' : (i : Fin k) → Runner (σ i)}
    {v : Json} {p p' : Place} (hp : S.places v p p')
    (h : ∀ i w, v.Child (.index i.val) w →
      S.runs (positions i w (p.child (.index i))) (positions' i w (p'.child (.index i)))) :
    S.runs (Runner.tuple positions v p) (Runner.tuple positions' v p') := by
  cases v with
  | array vs => exact S.collect fun i => S.position hp fun w hw => h i w (.element hw)
  | _ => exact S.mismatch _ hp

theorem field {decoder decoder' : Runner α} {key : String} {ms : Members} {p p' : Place}
    (h : ∀ w, (key, w) ∈ ms →
      S.runs (decoder w (p.child (.key key))) (decoder' w (p'.child (.key key)))) :
    S.runs (Runner.field decoder key ms p) (Runner.field decoder' key ms p') := by
  unfold Runner.field
  cases hw : Members.find? key ms with
  | some w => exact S.map _ (h w (Members.mem_of_find? hw))
  | none => exact S.pure _

theorem object {k : Nat} {σ : Fin k → Type} {keys : Fin k → String}
    {fields fields' : (i : Fin k) → Runner (σ i)} {construct : ((i : Fin k) → σ i) → α}
    {v : Json} {p p' : Place} (hp : S.places v p p')
    (h : ∀ i w, v.Child (.key (keys i)) w →
      S.runs (fields i w (p.child (.key (keys i)))) (fields' i w (p'.child (.key (keys i))))) :
    S.runs (Runner.object keys fields construct v p)
      (Runner.object keys fields' construct v p') := by
  cases v with
  | object ms =>
    refine S.bind (S.collect fun i => S.field fun w hw => h i w (.member hw)) fun values => ?_
    cases Runner.allPresent? values with
    | some values => exact S.bind (S.callback rfl) fun _ => S.pure _
    | none =>
      have hfault : (Json.object ms).Fault []
          (.missingKeys (Runner.missingKeys (List.ofFn keys) ms)) :=
        .missingKeys fun key hkey => Runner.find?_eq_none_of_mem_missingKeys hkey
      exact S.failHere hfault hp
  | _ => exact S.mismatch _ hp

theorem members {value value' : Runner α} {p p' : Place} (ms : Members)
    (h : ∀ key w, (key, w) ∈ ms →
      S.runs (value w (p.child (.key key))) (value' w (p'.child (.key key)))) :
    S.runs (Runner.members value p ms) (Runner.members value' p' ms) := by
  induction ms with
  | nil => exact S.pure _
  | cons m ms ih =>
    obtain ⟨key, v⟩ := m
    refine S.bind (h key v List.mem_cons_self) fun a => S.map _ (ih ?_)
    intro key w hw
    exact h key w (List.mem_cons_of_mem _ hw)

theorem dict {value value' : Runner α} {v : Json} {p p' : Place} (hp : S.places v p p')
    (h : ∀ key w, v.Child (.key key) w →
      S.runs (value w (p.child (.key key))) (value' w (p'.child (.key key)))) :
    S.runs (Runner.dict value v p) (Runner.dict value' v p') := by
  cases v with
  | object ms => exact S.members ms fun key w hw => h key w (.member hw)
  | _ => exact S.mismatch _ hp

theorem atPath {inner inner' : Runner α} {path : Path} {v : Json} {p p' : Place}
    (hp : S.places v p p')
    (h : ∀ w, v.resolve? path = some w →
      S.runs (inner w (p.descend path)) (inner' w (p'.descend path))) :
    S.runs (Runner.atPath inner path v p) (Runner.atPath inner' path v p') := by
  induction path generalizing v p p' with
  | nil => exact h v rfl
  | cons a path ih =>
    unfold Runner.atPath
    cases hu : v.get? a with
    | none => exact S.mismatch _ hp
    | some u =>
      refine ih (S.child hp (Json.child_of_get? hu)) fun w hw => h w ?_
      rw [Json.resolve?, hu]
      exact hw

/-! ### Choice -/

theorem firstSuccess (hallowed : S.allowed .alternatives) {v : Json} {p p' : Place}
    (hp : S.places v p p') {k : Nat} {branches branches' : Fin k → Runner α}
    (h : ∀ j, S.runs (branches j v p) (branches' j v p')) (i : Nat) :
    S.runs (Runner.firstSuccess v p i (List.ofFn branches))
      (Runner.firstSuccess v p' i (List.ofFn branches')) := by
  induction k generalizing i with
  | zero =>
    rw [List.ofFn_zero, List.ofFn_zero]
    exact S.message _ hp
  | succ k ih =>
    rw [List.ofFn_succ, List.ofFn_succ]
    exact S.orElse hallowed i (h 0) (ih (fun j => h j.succ) (i + 1))

theorem andThen {first first' : Runner α} {next next' : α → Runner β} {v : Json} {p p' : Place}
    (hfirst : S.runs (first v p) (first' v p'))
    (hnext : ∀ a, S.runs (next a v p) (next' a v p')) :
    S.runs (Runner.andThen first next v p) (Runner.andThen first' next' v p') :=
  S.bind hfirst fun a => S.bind (S.callback rfl) fun _ => hnext a

theorem transform {label : Option String} {f : α → β} {inner inner' : Runner α} {v : Json}
    {p p' : Place} (h : S.runs (inner v p) (inner' v p')) :
    S.runs (Runner.transform label f inner v p) (Runner.transform label f inner' v p') :=
  S.bind h fun a => S.bind (S.callback rfl) fun _ => S.pure (f a)

/-! ### Whole decoders -/

section

variable {ι : Type} [Numbered ι] {τ : ι → Type}

/-- The calls that a decoder makes on `v`, from two related places, are related. -/
def Calls (d : Decoder τ α) (call call' : (i : ι) → Runner (τ i)) (v : Json) (p p' : Place) :
    Prop :=
  ∀ i t w, d.Calls v i t w → S.places w (p.descend t) (p'.descend t) →
    S.runs (call i w (p.descend t)) (call' i w (p'.descend t))

/-- Runs of one decoder at related places are related if the calls it makes are. -/
theorem runner {call call' : (i : ι) → Runner (τ i)} (d : Decoder τ α)
    (hd : d.BuiltFrom S.allowed) {v : Json} {p p' : Place} (hp : S.places v p p')
    (hcalls : S.Calls d call call' v p p') :
    S.runs (d.runner call v p) (d.runner call' v p') := by
  induction d generalizing v p p' with
  | string =>
    cases v with
    | string s => exact S.pure s
    | _ => exact S.mismatch _ hp
  | number =>
    cases v with
    | number n => exact S.pure _
    | _ => exact S.mismatch _ hp
  | boolean =>
    cases v with
    | boolean b => exact S.pure b
    | _ => exact S.mismatch _ hp
  | null =>
    cases v with
    | null => exact S.pure ()
    | _ => exact S.mismatch _ hp
  | any => exact S.pure v
  | anyObject =>
    cases v with
    | object ms => exact S.pure ms
    | _ => exact S.mismatch _ hp
  | equal literal =>
    simp only [Decoder.runner, Runner.equal]
    split
    · exact S.pure literal
    · exact S.mismatch _ hp
  | timestamp =>
    cases v with
    | string s =>
      simp only [Decoder.runner, Runner.timestamp]
      split
      · exact S.pure _
      · exact S.mismatch _ hp
    | _ => exact S.mismatch _ hp
  | convert conversion =>
    simp only [Decoder.runner, Runner.convert]
    split
    · exact S.pure _
    · exact S.message _ hp
  | array element ih =>
    refine S.array hp fun j w hw => ih hd.2 (S.child hp hw) fun i t u hu => ?_
    exact hcalls i (.index j :: t) u ⟨j, w, t, hw, rfl, hu⟩
  | tuple positions ih =>
    refine S.tuple hp fun j w hw => ih j (hd.2 j) (S.child hp hw) fun i t u hu => ?_
    exact hcalls i (.index j :: t) u ⟨j, w, t, hw, rfl, hu⟩
  | object keys fields construct ih =>
    refine S.object hp fun j w hw => ih j (hd.2 j) (S.child hp hw) fun i t u hu => ?_
    exact hcalls i (.key (keys j) :: t) u ⟨j, w, t, hw, rfl, hu⟩
  | dict value ih =>
    refine S.dict hp fun key w hw => ih hd.2 (S.child hp hw) fun i t u hu => ?_
    exact hcalls i (.key key :: t) u ⟨key, w, t, hw, rfl, hu⟩
  | atPath path inner ih =>
    refine S.atPath hp fun w hw => ih hd.2 (S.descend hw hp) fun i t u hu => ?_
    rw [← Place.descend_append, ← Place.descend_append]
    exact hcalls i (path ++ t) u ⟨w, t, hw, rfl, hu⟩
  | alternatives branches ih =>
    refine S.firstSuccess hd.1 hp (fun j => ih j (hd.2 j) hp ?_) 0
    exact fun i t w hw => hcalls i t w ⟨j, hw⟩
  | andThen first next ihFirst ihNext =>
    refine S.andThen (ihFirst hd.2.1 hp fun i t w hw => hcalls i t w (.inl hw)) fun a => ?_
    exact ihNext a (hd.2.2 a) hp fun i t w hw => hcalls i t w (.inr ⟨a, hw⟩)
  | transform label f inner ih => exact S.transform (ih hd.2 hp hcalls)
  | ref i => exact S.enter _ hp (hcalls i [] v ⟨rfl, rfl, rfl⟩ hp)
  | fail message => exact S.message message hp
  | succeed result => exact S.pure result

/-- Calls within one budget are related, if the ones that are cut off are. -/
theorem call {defs : Definitions τ} (hdefs : ∀ i, (defs i).BuiltFrom S.allowed)
    (hend : ∀ {β : Type}, S.runs (Run.endless : Run β) Run.endless) (budget : Nat) (i : ι)
    {v : Json} {p p' : Place} (hp : S.places v p p') :
    S.runs (defs.call budget i v p) (defs.call budget i v p') := by
  induction budget generalizing i v p p' with
  | zero => exact hend
  | succ budget ih => exact S.runner (defs i) (hdefs i) hp fun j _ _ _ hw => ih j hw

theorem runWithin {defs : Definitions τ} (hdefs : ∀ i, (defs i).BuiltFrom S.allowed)
    (hend : ∀ {β : Type}, S.runs (Run.endless : Run β) Run.endless) (budget : Nat)
    {d : Decoder τ α} (hd : d.BuiltFrom S.allowed) {v : Json} {p p' : Place}
    (hp : S.places v p p') :
    S.runs (d.runWithin defs budget v p) (d.runWithin defs budget v p') :=
  S.runner d hd hp fun i _ _ _ hw => S.call hdefs hend budget i hw

end

end Simulation

/-! ## Runs that are the same but for one difference -/

/-- A difference between two runs that nothing makes up for: neither a later run, nor an earlier
one that both share, nor another branch. -/
structure Difference (allowed : Combinator → Prop) where
  between : {α : Type} → Run α → Run α → Prop
  bind : ∀ {α β : Type} {r r' : Run α} (next next' : α → Run β), between r r' →
    between (r >>= next) (r' >>= next')
  value_bind : ∀ {α β : Type} {a : α} {events : List Event} {next next' : α → Run β},
    between (next a) (next' a) →
    between (⟨.value a, events⟩ >>= next) (⟨.value a, events⟩ >>= next')
  orElse : allowed .alternatives → ∀ {α : Type} {r r' : Run α} (others others' : Unit → Run α)
    (branch : Nat), between r r' → between (r.orElse branch others) (r'.orElse branch others')
  error_orElse : allowed .alternatives → ∀ {α : Type} {e : DecodeError} {events : List Event}
    {others others' : Unit → Run α} (branch : Nat), between (others ()) (others' ()) →
    between (Run.orElse branch ⟨.error e, events⟩ others)
      (Run.orElse branch ⟨.error e, events⟩ others')

/-- Runs that are the same unless they differ in this way, at places with the same path: either both
are too deep for a definition or none, or that makes the difference. -/
def Difference.simulation {allowed : Combinator → Prop} (D : Difference allowed)
    (places : Json → Place → Place → Prop)
    (child : ∀ {v w p p' a}, places v p p' → v.Child a w → places w (p.child a) (p'.child a))
    (path_eq : ∀ {v p p'}, places v p p' → p.path = p'.path)
    (tooDeep : ∀ {v p p'}, places v p p' → p.isTooDeep = p'.isTooDeep ∨
      ∀ {α : Type} (definition : Nat) (body body' : Runner α),
        D.between (Runner.enter definition body v p) (Runner.enter definition body' v p')) :
    Simulation where
  allowed := allowed
  places := places
  runs r r' := r = r' ∨ D.between r r'
  child := child
  pure _ := .inl rfl
  bind := by
    rintro α β r r' next next' (rfl | hr) hnext
    · rcases r with ⟨a | e | _, events⟩
      · rcases hnext a with h | h
        · left
          rw [Run.value_bind, Run.value_bind, h]
        · exact .inr (D.value_bind h)
      · exact .inl rfl
      · exact .inl rfl
    · exact .inr (D.bind next next' hr)
  callback _ := .inl rfl
  fail := by
    intro α v p p' t reason hp _
    left
    rw [path_eq hp]
  orElse := by
    rintro hallowed α r r' others others' branch (rfl | hr) hothers
    · rcases r with ⟨a | e | _, events⟩
      · exact .inl rfl
      · rcases hothers with h | h
        · left
          rw [Run.error_orElse, Run.error_orElse, h]
        · exact .inr (D.error_orElse hallowed branch h)
      · exact .inl rfl
    · exact .inr (D.orElse hallowed others others' branch hr)
  enter := by
    intro α v p p' body body' definition hp hbody
    rcases tooDeep hp with hdeep | hdeep
    · unfold Runner.enter
      rw [← hdeep, ← path_eq hp]
      split
      · exact .inl rfl
      · rcases hbody with h | h
        · left
          rw [h]
        · exact .inr (D.value_bind h)
    · exact .inr (hdeep definition body body')

end TypedJson
