import TypedJson.Proofs.Fields

/-!
# Objects and tuples as chains

An object or a tuple decodes what stands at some accessors, keys or indices.  So does the chain of
continuations that follows one accessor after the other in the same value: both yield a value iff
every accessor leads on and every decoder yields one, and it is the same value
(`Decoder.chain_outcome_eq_value_iff` and its counterparts).

Where all accessors lead on, the two start the same runs, so they stop at the same one and tell of
the same events in between.  Elsewhere their errors differ: the chain blames the first accessor
that does not lead on, the object all keys together, the tuple the place of the missing element.
-/

namespace TypedJson

/-! ## Chains of decoders -/

section

variable {ι : Type} {τ : ι → Type} {α : Type}

/-- Each decoder at the end of its accessor, started by the continuation of the one before, and
after the last one the constructor of all values. -/
def Decoder.chain : {k : Nat} → {σ : Fin k → Type} → (Fin k → Accessor) →
    ((i : Fin k) → Decoder τ (σ i)) → (((i : Fin k) → σ i) → α) → Decoder τ α
  | 0, _, _, _, construct => .succeed (construct fun i => i.elim0)
  | _ + 1, _, accessors, decoders, construct =>
    .andThen (.atPath [accessors 0] (decoders 0)) fun first =>
      Decoder.chain (fun i => accessors i.succ) (fun i => decoders i.succ) fun others =>
        construct (Fin.cases first others)

theorem Decoder.chain_runWithin [Numbered ι] (defs : Definitions τ) (budget : Nat) {k : Nat}
    {σ : Fin k → Type} (accessors : Fin k → Accessor) (decoders : (i : Fin k) → Decoder τ (σ i))
    (construct : ((i : Fin k) → σ i) → α) (v : Json) (p : Place) :
    (Decoder.chain accessors decoders construct).runWithin defs budget v p =
      Run.chained
        (fun i => Runner.atPath ((decoders i).runWithin defs budget) [accessors i] v p)
        construct := by
  induction k with
  | zero => rfl
  | succ k ih =>
    have hnext : ∀ first : σ 0, (Decoder.chain (fun i => accessors i.succ)
        (fun i => decoders i.succ) fun others => construct (Fin.cases first others)).runWithin
          defs budget v p = _ := fun first => ih _ _ _
    rw [Run.chained_succ]
    exact congrArg (_ >>= ·) (funext fun first => congrArg (_ >>= ·) (funext fun _ => hnext first))

end

/-! ## What yields a value -/

namespace Runner

variable {α : Type}

theorem atPath_singleton {inner : Runner α} {v w : Json} {a : Accessor} (h : v.get? a = some w)
    (p : Place) : atPath inner [a] v p = inner w (p.child a) := by
  rw [atPath, h]
  rfl

theorem atPath_singleton_outcome {inner : Runner α} {v : Json} {a : Accessor} {p : Place} {x : α} :
    (atPath inner [a] v p).outcome = .value x ↔
      ∃ w, v.get? a = some w ∧ (inner w (p.child a)).outcome = .value x := by
  cases h : v.get? a with
  | some w => simp [atPath_singleton h]
  | none =>
    rw [atPath, h]
    constructor
    · intro hx
      cases hx
    · rintro ⟨w, ⟨⟩, -⟩

section

variable {k : Nat} {σ : Fin k → Type} {v : Json} {p : Place}

theorem object_outcome_eq_value_iff {keys : Fin k → String} {fields : (i : Fin k) → Runner (σ i)}
    {construct : ((i : Fin k) → σ i) → α} {x : α} :
    (object keys fields construct v p).outcome = .value x ↔
      ∃ ms, v = .object ms ∧ ∃ values : (i : Fin k) → σ i,
        (∀ i, ∃ w, Members.find? (keys i) ms = some w ∧
          (fields i w (p.child (.key (keys i)))).outcome = .value (values i)) ∧
        construct values = x := by
  constructor
  · intro h
    cases v with
    | object ms =>
      obtain ⟨found, hfound, h⟩ := Run.outcome_of_bind h
      have hfields := Run.collect_outcome_eq_value_iff.1 hfound
      cases hall : allPresent? found with
      | none =>
        rw [hall] at h
        cases h
      | some values =>
        rw [hall] at h
        cases h
        refine ⟨ms, rfl, values, fun i => ?_, rfl⟩
        have hfield := hfields i
        rw [allPresent?_eq_some_iff.1 hall i] at hfield
        cases hw : Members.find? (keys i) ms with
        | none =>
          rw [field_of_none hw] at hfield
          cases hfield
        | some w =>
          rw [field_of_some hw] at hfield
          obtain ⟨a, ha, hvalue⟩ := Run.outcome_of_map hfield
          cases hvalue
          exact ⟨w, rfl, ha⟩
    | _ => cases h
  · rintro ⟨ms, rfl, values, hvalues, rfl⟩
    rw [object_of_values (fun i => ?_) construct]
    obtain ⟨w, hw, hvalue⟩ := hvalues i
    rw [field_of_some hw]
    exact Run.map_of_value hvalue some

theorem position_outcome {decoder : Runner α} {vs : List Json} {i : Nat} {x : α} :
    (position decoder vs p i).outcome = .value x ↔
      ∃ w, vs[i]? = some w ∧ (decoder w (p.child (.index i))).outcome = .value x := by
  unfold position
  cases h : vs[i]? with
  | some w => simp
  | none =>
    constructor
    · intro hx
      cases hx
    · rintro ⟨w, ⟨⟩, -⟩

theorem tuple_outcome_eq_value_iff {positions : (i : Fin k) → Runner (σ i)}
    {values : (i : Fin k) → σ i} :
    (tuple positions v p).outcome = .value values ↔
      ∃ vs, v = .array vs ∧ ∀ i : Fin k, ∃ w, vs[i.val]? = some w ∧
        (positions i w (p.child (.index i))).outcome = .value (values i) := by
  constructor
  · intro h
    cases v with
    | array vs =>
      have hpositions := Run.collect_outcome_eq_value_iff.1 h
      exact ⟨vs, rfl, fun i => position_outcome.1 (hpositions i)⟩
    | _ => cases h
  · rintro ⟨vs, rfl, hvalues⟩
    exact Run.collect_outcome_eq_value_iff.2 fun i => position_outcome.2 (hvalues i)

/-! ## Where nothing is absent -/

/-- With all keys there, the object runs its fields and applies the constructor. -/
theorem object_of_present {keys : Fin k → String} {fields : (i : Fin k) → Runner (σ i)}
    {ms : Members} {ws : Fin k → Json} (h : ∀ i, Members.find? (keys i) ms = some (ws i))
    (construct : ((i : Fin k) → σ i) → α) :
    object keys fields construct (.object ms) p =
      Run.collect (fun i => fields i (ws i) (p.child (.key (keys i)))) >>= fun values =>
        Run.emit (.constructed k) >>= fun _ => pure (construct values) := by
  have hfields : (fun i => field (fields i) (keys i) ms p) =
      fun i => (fields i (ws i) (p.child (.key (keys i)))).map some :=
    funext fun i => field_of_some (h i)
  rw [object, hfields, Run.collect_map, Run.map_eq_bind, bind_assoc]
  refine congrArg (_ >>= ·) (funext fun values => ?_)
  rw [pure_bind, allPresent?_eq_some_iff.2 fun i => rfl]

/-- With all positions there, the tuple runs its decoders. -/
theorem tuple_of_present {positions : (i : Fin k) → Runner (σ i)} {vs : List Json}
    {ws : Fin k → Json} (h : ∀ i : Fin k, vs[i.val]? = some (ws i)) :
    tuple positions (.array vs) p =
      Run.collect fun i => positions i (ws i) (p.child (.index i)) := by
  refine congrArg Run.collect (funext fun i => ?_)
  rw [position, h i]

end

end Runner

section

variable {ι : Type} [Numbered ι] {τ : ι → Type} {α : Type} {k : Nat} {σ : Fin k → Type}

theorem Decoder.chain_outcome_eq_value_iff {defs : Definitions τ} {budget : Nat}
    {accessors : Fin k → Accessor} {decoders : (i : Fin k) → Decoder τ (σ i)}
    {construct : ((i : Fin k) → σ i) → α} {v : Json} {p : Place} {x : α} :
    ((Decoder.chain accessors decoders construct).runWithin defs budget v p).outcome = .value x ↔
      ∃ values : (i : Fin k) → σ i,
        (∀ i, ∃ w, v.get? (accessors i) = some w ∧
          ((decoders i).runWithin defs budget w (p.child (accessors i))).outcome =
            .value (values i)) ∧
        construct values = x := by
  rw [Decoder.chain_runWithin, Run.chained_outcome]
  constructor
  · intro h
    obtain ⟨values, hvalues, hx⟩ := Run.outcome_of_map h
    have hruns := Run.collect_outcome_eq_value_iff.1 hvalues
    exact ⟨values, fun i => Runner.atPath_singleton_outcome.1 (hruns i), hx⟩
  · rintro ⟨values, hvalues, rfl⟩
    exact Run.map_of_value (Run.collect_outcome_eq_value_iff.2 fun i =>
      Runner.atPath_singleton_outcome.2 (hvalues i)) construct

/-- With all accessors leading on, the chain runs its decoders, one after the other. -/
theorem Decoder.chain_of_present (defs : Definitions τ) (budget : Nat)
    {accessors : Fin k → Accessor} (decoders : (i : Fin k) → Decoder τ (σ i))
    (construct : ((i : Fin k) → σ i) → α) {v : Json} (p : Place) {ws : Fin k → Json}
    (h : ∀ i, v.get? (accessors i) = some (ws i)) :
    (Decoder.chain accessors decoders construct).runWithin defs budget v p =
      Run.chained
        (fun i => (decoders i).runWithin defs budget (ws i) (p.child (accessors i))) construct := by
  rw [Decoder.chain_runWithin]
  exact congrArg (Run.chained · construct) (funext fun i => Runner.atPath_singleton (h i) p)

end

/-! ## Agreement -/

section

variable {k : Nat} {σ : Fin k → Type} {α : Type}

/-- A chain accepts if its family does, and tells of the same blocks. -/
theorem Run.chained_agrees (runs : (i : Fin k) → Run (σ i)) (construct : ((i : Fin k) → σ i) → α) :
    ((Run.chained runs construct).Accepts ↔ (Run.collect runs).Accepts) ∧
    ((Run.chained runs construct).Accepts →
      (Run.chained runs construct).events = (Run.blocks runs).flatMap (· ++ [.continued])) ∧
    (¬ (Run.chained runs construct).Accepts →
      (Run.chained runs construct).events = [.continued].intercalate (Run.blocks runs)) := by
  have haccepts : (Run.chained runs construct).Accepts ↔ (Run.collect runs).Accepts := by
    unfold Run.Accepts
    rw [Run.chained_outcome]
    exact Run.accepts_map
  refine ⟨haccepts, fun h => ?_, fun h => ?_⟩
  · obtain ⟨values, hvalues⟩ := haccepts.1 h
    exact Run.chained_events_of_value hvalues construct
  · exact Run.chained_events_of_stop (fun hcollect => h (haccepts.2 hcollect)) construct

end

section

variable {ι : Type} [Numbered ι] {τ : ι → Type} {k : Nat} {σ : Fin k → Type} {α : Type}

/-- What an object yields, its chain yields, and the other way round if there is a key at all. -/
theorem Decoder.object_outcome_iff_chain (defs : Definitions τ) (budget : Nat)
    (decoders : (i : Fin k) → Decoder τ (σ i)) (v : Json) (p : Place) (keys : Fin k → String)
    (construct : ((i : Fin k) → σ i) → α) (hk : 0 < k) (x : α) :
    ((Decoder.object keys decoders construct).runWithin defs budget v p).outcome = .value x ↔
      ((Decoder.chain (fun i => .key (keys i)) decoders construct).runWithin
        defs budget v p).outcome = .value x := by
  rw [Decoder.chain_outcome_eq_value_iff]
  refine Runner.object_outcome_eq_value_iff.trans ⟨?_, ?_⟩
  · rintro ⟨ms, rfl, hvalues⟩
    exact hvalues
  · rintro ⟨values, hvalues, hx⟩
    -- the first key is found, and only objects have keys
    obtain ⟨w, hw, -⟩ := hvalues ⟨0, hk⟩
    cases v with
    | object ms => exact ⟨ms, rfl, values, hvalues, hx⟩
    | _ => cases hw

theorem Decoder.tuple_outcome_iff_chain (defs : Definitions τ) (budget : Nat)
    (decoders : (i : Fin k) → Decoder τ (σ i)) (v : Json) (p : Place) (hk : 0 < k)
    (values : (i : Fin k) → σ i) :
    ((Decoder.tuple decoders).runWithin defs budget v p).outcome = .value values ↔
      ((Decoder.chain (fun i => .index i) decoders id).runWithin defs budget v p).outcome =
        .value values := by
  rw [Decoder.chain_outcome_eq_value_iff]
  refine Runner.tuple_outcome_eq_value_iff.trans ⟨?_, ?_⟩
  · rintro ⟨vs, rfl, hvalues⟩
    exact ⟨values, hvalues, rfl⟩
  · rintro ⟨_, hvalues, rfl⟩
    obtain ⟨w, hw, -⟩ := hvalues ⟨0, hk⟩
    cases v with
    | array vs => exact ⟨vs, rfl, hvalues⟩
    | _ => cases hw

/-- **Objects and tuples agree with chains.**  At every place, under every limit, an object or a
tuple accepts what the chain of its accessors accepts, with the same value.  On an object that has
all keys, and on an array that is long enough, it also ends with the same error and starts the same
runs of its decoders in the same order: their events are the same lists, between which the chain
tells of its continuations, and after which the object tells of its constructor. -/
theorem Decoder.object_tuple_agree_chain (defs : Definitions τ) (budget : Nat)
    (decoders : (i : Fin k) → Decoder τ (σ i)) (v : Json) (p : Place) (hk : 0 < k) :
    (∀ {α : Type} (keys : Fin k → String) (construct : ((i : Fin k) → σ i) → α),
      let object := (Decoder.object keys decoders construct).runWithin defs budget v p
      let chain := (Decoder.chain (fun i => .key (keys i)) decoders construct).runWithin
        defs budget v p
      (∀ x, object.outcome = .value x ↔ chain.outcome = .value x) ∧
      ∀ (ms : Members) (ws : Fin k → Json), v = .object ms →
        (∀ i, Members.find? (keys i) ms = some (ws i)) →
        let blocks := Run.blocks fun i =>
          (decoders i).runWithin defs budget (ws i) (p.child (.key (keys i)))
        object.outcome = chain.outcome ∧
        (chain.Accepts → object.events = blocks.flatten ++ [.constructed k] ∧
          chain.events = blocks.flatMap (· ++ [.continued])) ∧
        (¬ chain.Accepts → object.events = blocks.flatten ∧
          chain.events = [.continued].intercalate blocks)) ∧
    (let tuple := (Decoder.tuple decoders).runWithin defs budget v p
      let chain := (Decoder.chain (fun i => .index i) decoders id).runWithin defs budget v p
      (∀ x, tuple.outcome = .value x ↔ chain.outcome = .value x) ∧
      ∀ (vs : List Json) (hlength : k ≤ vs.length), v = .array vs →
        let blocks := Run.blocks fun i =>
          (decoders i).runWithin defs budget (vs.get (i.castLE hlength)) (p.child (.index i))
        tuple.outcome = chain.outcome ∧ tuple.events = blocks.flatten ∧
        (chain.Accepts → chain.events = blocks.flatMap (· ++ [.continued])) ∧
        (¬ chain.Accepts → chain.events = [.continued].intercalate blocks)) := by
  constructor
  · intro α keys construct object chain
    refine ⟨Decoder.object_outcome_iff_chain defs budget decoders v p keys construct hk, ?_⟩
    rintro ms ws rfl hpresent
    let runs := fun i => (decoders i).runWithin defs budget (ws i) (p.child (.key (keys i)))
    have hobject : object = Run.collect runs >>= fun values =>
        Run.emit (.constructed k) >>= fun _ => pure (construct values) :=
      Runner.object_of_present hpresent construct
    have hchain : chain = Run.chained runs construct :=
      Decoder.chain_of_present defs budget decoders construct p hpresent
    obtain ⟨haccepts, hvalue, hstop⟩ := Run.chained_agrees runs construct
    obtain ⟨htold, huntold⟩ := Run.bind_emit_events (Run.collect runs) (.constructed k) construct
    rw [Run.collect_events] at htold huntold
    rw [hobject, hchain]
    refine ⟨?_, fun h => ⟨htold (haccepts.1 h), hvalue h⟩, fun h => ⟨huntold ?_, hstop h⟩⟩
    · rw [Run.bind_emit_outcome, Run.chained_outcome]
    · exact fun hcollect => h (haccepts.2 hcollect)
  · intro tuple chain
    refine ⟨Decoder.tuple_outcome_iff_chain defs budget decoders v p hk, ?_⟩
    rintro vs hlength rfl
    have hpresent : ∀ i : Fin k, vs[i.val]? = some (vs.get (i.castLE hlength)) := fun i =>
      List.getElem?_eq_getElem (Nat.lt_of_lt_of_le i.isLt hlength)
    let runs := fun i : Fin k =>
      (decoders i).runWithin defs budget (vs.get (i.castLE hlength)) (p.child (.index i))
    have htuple : tuple = Run.collect runs := Runner.tuple_of_present hpresent
    have hchain : chain = Run.chained runs id :=
      Decoder.chain_of_present defs budget decoders id p hpresent
    obtain ⟨-, hvalue, hstop⟩ := Run.chained_agrees runs id
    rw [htuple, hchain]
    refine ⟨?_, Run.collect_events runs, hvalue, hstop⟩
    rw [Run.chained_outcome, Run.map_id]

end

/-- Three flags under keys or in places: a bad second one ends the object as it ends its chain,
before any constructor, and a bad third one ends the tuple, on an array with an element to spare. -/
theorem threeFlags_object_tuple_agree_chain :
    let flags (_ : Fin 3) := negatedFlag
    let within {α : Type} (d : Decoder (fun i : Fin 0 => i.elim0) α) (v : Json) :=
      d.runWithin (fun i => i.elim0) 0 v (Place.root none)
    let keyed : Json := .object [("a", .null), ("zeta", .boolean true), ("é", .boolean false)]
    let byKeys := within (.chain (fun i => .key (flagKeys i)) flags
      fun flags => [flags 0, flags 1, flags 2]) keyed
    let listed : Json := .array [.boolean true, .boolean false, .null, .null]
    let byPlaces := within (.chain (fun i => .index i) flags id) listed
    let told := Event.transformed (some "not")
    (within threeFlags keyed).outcome = byKeys.outcome ∧
      (within threeFlags keyed).events = [told] ∧ byKeys.events = [told, .continued] ∧
      (within (.tuple flags) listed).outcome = byPlaces.outcome ∧
      (within (.tuple flags) listed).events = [told, told] ∧
      byPlaces.events = [told, .continued, told, .continued] := by
  intro flags within keyed byKeys listed byPlaces told
  have hagree := fun v => Decoder.object_tuple_agree_chain (τ := fun i : Fin 0 => i.elim0)
    (fun i => i.elim0) 0 flags v (Place.root none) (by decide)
  have hkeys : ¬ byKeys.Accepts := by
    rintro ⟨x, ⟨⟩⟩
  have hplaces : ¬ byPlaces.Accepts := by
    rintro ⟨x, ⟨⟩⟩
  have hpresent : ∀ i : Fin 3, Members.find? (flagKeys i)
      [("a", .null), ("zeta", .boolean true), ("é", .boolean false)] =
        some ([.boolean true, .null, .boolean false].get i) :=
    Fin.cases rfl (Fin.cases rfl (Fin.cases rfl fun i => i.elim0))
  obtain ⟨hobject, -, hobjectEvents⟩ := ((hagree keyed).1 flagKeys
    fun flags => [flags 0, flags 1, flags 2]).2 _ _ rfl hpresent
  obtain ⟨htuple, htupleEvents, -, hplacesEvents⟩ := (hagree listed).2.2 _ (by decide) rfl
  exact ⟨hobject, (hobjectEvents hkeys).1, (hobjectEvents hkeys).2, htuple, htupleEvents,
    hplacesEvents hplaces⟩

end TypedJson
