import TypedJson.Proofs.Acceptance

/-!
# Families of runs, one after the other

`Run.collect` starts the runs of a family in order until one has no value.  The events of the runs
that it starts are its *blocks*, one for each; it tells of all of them and of nothing else
(`Run.collect_events`).  Either every run has a value, and so has the family, or the first run
without one says how the family ends (`Run.collect_of_values`, `Run.collect_of_stop`).

The same family can be run as a chain, each run started by the continuation of the one before.  It
has the outcome of the family and the same blocks, with the event of a continuation between them
(`Run.chained_outcome`, `Run.chained_events`).
-/

namespace TypedJson

/-- Both are the same error, or neither run ends. -/
inductive Outcome.SameStop {α β : Type} : Outcome α → Outcome β → Prop where
  | error (e : DecodeError) : SameStop (.error e) (.error e)
  | endless : SameStop .endless .endless

theorem Outcome.SameStop.trans {α β γ : Type} {a : Outcome α} {b : Outcome β} {c : Outcome γ}
    (hab : a.SameStop b) (hbc : b.SameStop c) : a.SameStop c := by
  cases hab with
  | error e =>
    cases hbc
    exact .error e
  | endless =>
    cases hbc
    exact .endless

namespace Run

variable {α β γ : Type}

/-! ## Single runs -/

theorem bind_of_value {r : Run α} {a : α} (h : r.outcome = .value a) (next : α → Run β) :
    r >>= next = ⟨(next a).outcome, r.events ++ (next a).events⟩ := by
  rcases r with ⟨_ | _ | _, events⟩
  · cases h
    rfl
  · cases h
  · cases h

theorem not_accepts_of_error {r : Run α} {e : DecodeError} (h : r.outcome = .error e) :
    ¬ r.Accepts := by
  rintro ⟨a, ha⟩
  rw [h] at ha
  cases ha

theorem not_accepts_of_endless {r : Run α} (h : r.outcome = .endless) : ¬ r.Accepts := by
  rintro ⟨a, ha⟩
  rw [h] at ha
  cases ha

theorem sameStop_self {r : Run α} (h : ¬ r.Accepts) : r.outcome.SameStop r.outcome := by
  rcases r with ⟨a | e | _, events⟩
  · exact absurd ⟨a, rfl⟩ h
  · exact .error e
  · exact .endless

/-- Without a value nothing comes next. -/
theorem bind_of_sameStop {o : Outcome γ} {r : Run α} (h : o.SameStop r.outcome)
    (next : α → Run β) : o.SameStop (r >>= next).outcome ∧ (r >>= next).events = r.events := by
  rcases r with ⟨a | e | _, events⟩
  · cases h
  · cases h
    exact ⟨.error e, rfl⟩
  · cases h
    exact ⟨.endless, rfl⟩

theorem eq_error_of_sameStop {o : Outcome γ} {r : Run α} (h : o.SameStop r.outcome)
    {e : DecodeError} (ho : o = .error e) : r = ⟨.error e, r.events⟩ := by
  rcases r with ⟨_ | _ | _, events⟩
  · cases h
  · cases h
    cases ho
    rfl
  · cases h
    cases ho

theorem eq_endless_of_sameStop {o : Outcome γ} {r : Run α} (h : o.SameStop r.outcome)
    (ho : o = .endless) : r = ⟨.endless, r.events⟩ := by
  rcases r with ⟨_ | _ | _, events⟩
  · cases h
  · cases h
    cases ho
  · rfl

theorem map_of_value {r : Run α} {a : α} (h : r.outcome = .value a) (f : α → β) :
    (r.map f).outcome = .value (f a) := by
  rcases r with ⟨_ | _ | _, events⟩
  · cases h
    rfl
  · cases h
  · cases h

@[simp] theorem map_events (r : Run α) (f : α → β) : (r.map f).events = r.events := by
  rcases r with ⟨_ | _ | _, events⟩
  · rfl
  · rfl
  · rfl

theorem map_id (r : Run α) : r.map id = r := by
  rw [map_eq_bind]
  exact bind_pure r

theorem accepts_map {r : Run α} {f : α → β} : (r.map f).Accepts ↔ r.Accepts := by
  constructor
  · rintro ⟨b, hb⟩
    obtain ⟨a, ha, -⟩ := outcome_of_map hb
    exact ⟨a, ha⟩
  · rintro ⟨a, ha⟩
    exact ⟨f a, map_of_value ha f⟩

theorem bind_emit_outcome (r : Run α) (e : Event) (f : α → β) :
    (r >>= fun a => emit e >>= fun _ => pure (f a)).outcome = (r.map f).outcome := by
  rcases r with ⟨_ | _ | _, events⟩
  · rfl
  · rfl
  · rfl

/-- A last event is told of after a value only. -/
theorem bind_emit_events (r : Run α) (e : Event) (f : α → β) :
    (r.Accepts → (r >>= fun a => emit e >>= fun _ => pure (f a)).events = r.events ++ [e]) ∧
    (¬ r.Accepts → (r >>= fun a => emit e >>= fun _ => pure (f a)).events = r.events) := by
  refine ⟨?_, fun h => (bind_of_sameStop (sameStop_self h) _).2⟩
  rintro ⟨a, ha⟩
  rw [bind_of_value ha]
  rfl

/-! ## Families -/

/-- The events of the runs up to the first without a value, a list for each run. -/
def blocks : {k : Nat} → {σ : Fin k → Type} → ((i : Fin k) → Run (σ i)) → List (List Event)
  | 0, _, _ => []
  | _ + 1, _, runs =>
    (runs 0).events ::
      match (runs 0).outcome with
      | .value _ => blocks fun i => runs i.succ
      | _ => []

section

variable {k : Nat} {σ : Fin (k + 1) → Type} {runs : (i : Fin (k + 1)) → Run (σ i)}

theorem blocks_of_accepts (h : (runs 0).Accepts) :
    blocks runs = (runs 0).events :: blocks fun i => runs i.succ := by
  obtain ⟨a, ha⟩ := h
  show _ :: _ = _
  rw [ha]

theorem blocks_of_not_accepts (h : ¬ (runs 0).Accepts) : blocks runs = [(runs 0).events] := by
  show _ :: _ = _
  split
  · next a ha => exact absurd ⟨a, ha⟩ h
  · rfl

end

variable {k : Nat} {σ : Fin k → Type} {runs : (i : Fin k) → Run (σ i)}

theorem collect_events (runs : (i : Fin k) → Run (σ i)) :
    (collect runs).events = (blocks runs).flatten := by
  induction k with
  | zero => rfl
  | succ k ih =>
    rw [collect]
    by_cases h : (runs 0).Accepts
    · obtain ⟨a, ha⟩ := h
      rw [blocks_of_accepts ⟨a, ha⟩, List.flatten_cons, ← ih, bind_of_value ha, map_events]
    · rw [blocks_of_not_accepts h, (bind_of_sameStop (sameStop_self h) _).2, List.flatten_singleton]

theorem collect_of_values {values : (i : Fin k) → σ i}
    (h : ∀ i, (runs i).outcome = .value (values i)) :
    (collect runs).outcome = .value values ∧
      blocks runs = List.ofFn fun i => (runs i).events := by
  induction k with
  | zero => exact ⟨congrArg Outcome.value (funext fun i => i.elim0), rfl⟩
  | succ k ih =>
    obtain ⟨houtcome, hblocks⟩ := ih fun i => h i.succ
    constructor
    · rw [collect, bind_of_value (h 0), map_of_value houtcome]
      refine congrArg Outcome.value (funext fun i => ?_)
      cases i using Fin.cases with
      | zero => rfl
      | succ i => rfl
    · rw [blocks_of_accepts ⟨_, h 0⟩, hblocks, List.ofFn_succ]

theorem collect_outcome_eq_value_iff {values : (i : Fin k) → σ i} :
    (collect runs).outcome = .value values ↔ ∀ i, (runs i).outcome = .value (values i) :=
  ⟨outcome_of_collect, fun h => (collect_of_values h).1⟩

/-- The first run without a value ends the family, in its own way and with its events last. -/
theorem collect_of_stop {i : Fin k} (hstop : ¬ (runs i).Accepts)
    (hbefore : ∀ j < i, (runs j).Accepts) :
    (runs i).outcome.SameStop (collect runs).outcome ∧
      blocks runs = (List.ofFn fun j => (runs j).events).take (i.val + 1) := by
  induction k with
  | zero => exact i.elim0
  | succ k ih =>
    cases i using Fin.cases with
    | zero =>
      refine ⟨(bind_of_sameStop (sameStop_self hstop) _).1, ?_⟩
      rw [blocks_of_not_accepts hstop, List.ofFn_succ]
      rfl
    | succ i =>
      obtain ⟨a, ha⟩ := hbefore 0 (Fin.succ_pos i)
      obtain ⟨houtcome, hblocks⟩ :=
        ih hstop fun j hj => hbefore j.succ (Fin.succ_lt_succ_iff.2 hj)
      constructor
      · rw [collect, bind_of_value ha, map_eq_bind]
        exact (bind_of_sameStop houtcome _).1
      · rw [blocks_of_accepts ⟨a, ha⟩, hblocks, List.ofFn_succ]
        rfl

/-- Functions of the single values come to one function of the family. -/
theorem collect_map {τ : Fin k → Type} (f : (i : Fin k) → σ i → τ i) :
    collect (fun i => (runs i).map (f i)) =
      (collect runs).map fun values i => f i (values i) := by
  induction k with
  | zero =>
    refine congrArg Run.value (funext fun i => ?_)
    exact i.elim0
  | succ k ih =>
    rw [collect, collect, ih]
    rcases runs 0 with ⟨a | e | _, events⟩
    · rcases collect fun i => runs i.succ with ⟨values | e | _, after⟩
      · refine congrArg (fun values => (⟨.value values, events ++ after⟩ : Run _)) (funext fun i => ?_)
        cases i using Fin.cases with
        | zero => rfl
        | succ i => rfl
      · rfl
      · rfl
    · rfl
    · rfl

/-! ## Chains -/

/-- The runs in order, each but the first started by the continuation of the one before, and after
the last one the constructor of all values. -/
def chained : {k : Nat} → {σ : Fin k → Type} → ((i : Fin k) → Run (σ i)) →
    (((i : Fin k) → σ i) → α) → Run α
  | 0, _, _, construct => pure (construct fun i => i.elim0)
  | _ + 1, _, runs, construct => do
    let first ← runs 0
    emit .continued
    chained (fun i => runs i.succ) fun others => construct (Fin.cases first others)

theorem chained_succ {σ : Fin (k + 1) → Type} (runs : (i : Fin (k + 1)) → Run (σ i))
    (construct : ((i : Fin (k + 1)) → σ i) → α) :
    chained runs construct = runs 0 >>= fun first => emit .continued >>= fun _ =>
      chained (fun i => runs i.succ) fun others => construct (Fin.cases first others) := rfl

theorem chained_outcome (runs : (i : Fin k) → Run (σ i)) (construct : ((i : Fin k) → σ i) → α) :
    (chained runs construct).outcome = ((collect runs).map construct).outcome := by
  induction k with
  | zero => rfl
  | succ k ih =>
    rw [chained_succ, collect]
    rcases runs 0 with ⟨a | e | _, events⟩
    · show (chained (fun i => runs i.succ) _).outcome = _
      rw [ih]
      rcases collect fun i => runs i.succ with ⟨values | e | _, after⟩
      · rfl
      · rfl
      · rfl
    · rfl
    · rfl

theorem chained_events_of_value {values : (i : Fin k) → σ i}
    (h : (collect runs).outcome = .value values) (construct : ((i : Fin k) → σ i) → α) :
    (chained runs construct).events = (blocks runs).flatMap (· ++ [.continued]) := by
  induction k with
  | zero => rfl
  | succ k ih =>
    have hvalues := collect_outcome_eq_value_iff.1 h
    have hothers := collect_outcome_eq_value_iff.2 fun i => hvalues i.succ
    rw [chained_succ, bind_of_value (hvalues 0), blocks_of_accepts ⟨_, hvalues 0⟩, List.flatMap_cons,
      ← ih hothers fun others => construct (Fin.cases (values 0) others)]
    simp [emit]

theorem blocks_ne_nil (h : ¬ (collect runs).Accepts) : blocks runs ≠ [] := by
  cases k with
  | zero => exact absurd ⟨_, rfl⟩ h
  | succ k => exact List.cons_ne_nil _ _

theorem chained_events_of_stop (h : ¬ (collect runs).Accepts)
    (construct : ((i : Fin k) → σ i) → α) :
    (chained runs construct).events = [.continued].intercalate (blocks runs) := by
  induction k with
  | zero => exact absurd ⟨_, rfl⟩ h
  | succ k ih =>
    rw [chained_succ]
    by_cases hfirst : (runs 0).Accepts
    · obtain ⟨a, ha⟩ := hfirst
      have hothers : ¬ (collect fun i => runs i.succ).Accepts := by
        rintro ⟨values, hvalues⟩
        refine h ⟨Fin.cases a values, ?_⟩
        rw [collect, bind_of_value ha, map_of_value hvalues]
      rw [blocks_of_accepts ⟨a, ha⟩, List.intercalate_cons_of_ne_nil (blocks_ne_nil hothers),
        bind_of_value ha, ← ih hothers fun others => construct (Fin.cases a others)]
      simp [emit]
    · rw [blocks_of_not_accepts hfirst, (bind_of_sameStop (sameStop_self hfirst) _).2,
        List.intercalate_singleton]

end Run

end TypedJson
