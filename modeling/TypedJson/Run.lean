import TypedJson.DecodeError

/-!
# Runs

A run has an outcome and the events on the way to it, in order.  It ends with a value or an error;
one that would call definitions without end is `endless`, which is neither.  Runs are sequenced by
`Run.bind`: the second is started only by a value of the first, and its events come after.
-/

namespace TypedJson

/-- How a run ends. -/
inductive Outcome (α : Type) where
  | value (value : α)
  | error (error : DecodeError)
  | endless
  deriving Repr

/-- What a run tells about itself. -/
inductive Event where
  /-- A branch of a union failed with this error, and the next is tried. -/
  | rejected (branch : Nat) (error : DecodeError)
  /-- The whole decode failed with this error. -/
  | failed (error : DecodeError)
  /-- The definition of this number was entered. -/
  | entered (definition : Nat)
  /-- The definition of this number was not entered, because the place is too deep. -/
  | refused (definition : Nat)
  /-- The function of a `map` was applied; the label is the one it was given. -/
  | transformed (label : Option String)
  /-- The continuation of an `andThen` was applied. -/
  | continued
  /-- The constructor of an object was applied to this many values. -/
  | constructed (fields : Nat)
  deriving DecidableEq, Repr

/-- An outcome and the events before it. -/
structure Run (α : Type) where
  outcome : Outcome α
  events : List Event
  deriving Repr

namespace Run

/-- The run that yields a value at once. -/
def value {α : Type} (a : α) : Run α := ⟨.value a, []⟩

/-- The run that fails at once, at this path. -/
def fail {α : Type} (path : Path) (reason : Reason) : Run α := ⟨.error ⟨path, reason⟩, []⟩

/-- The run that does not end. -/
def endless {α : Type} : Run α := ⟨.endless, []⟩

/-- The run that only tells of one event. -/
def emit (event : Event) : Run Unit := ⟨.value (), [event]⟩

/-- One run, then another that depends on its value. -/
def bind {α β : Type} (first : Run α) (next : α → Run β) : Run β :=
  match first.outcome with
  | .value a =>
    let second := next a
    ⟨second.outcome, first.events ++ second.events⟩
  | .error e => ⟨.error e, first.events⟩
  | .endless => ⟨.endless, first.events⟩

/-- The run with a function of its value; the events are the same. -/
def map {α β : Type} (f : α → β) (r : Run α) : Run β :=
  match r.outcome with
  | .value a => ⟨.value (f a), r.events⟩
  | .error e => ⟨.error e, r.events⟩
  | .endless => ⟨.endless, r.events⟩

instance : Monad Run where
  pure := value
  bind := bind

instance : LawfulMonad Run := LawfulMonad.mk' Run
  (by
    intro α r
    rcases r with ⟨_ | _ | _, events⟩ <;> simp [Functor.map, bind, value])
  (by
    intro α β a next
    simp [Bind.bind, Pure.pure, bind, value])
  (by
    intro α β γ r next after
    rcases r with ⟨_ | _ | _, events⟩
    · simp only [Bind.bind, bind]
      split <;> simp
    · rfl
    · rfl)

@[simp] theorem value_bind {α β : Type} (a : α) (events : List Event) (next : α → Run β) :
    (⟨.value a, events⟩ : Run α) >>= next = ⟨(next a).outcome, events ++ (next a).events⟩ := rfl

@[simp] theorem error_bind {α β : Type} (e : DecodeError) (events : List Event)
    (next : α → Run β) : (⟨.error e, events⟩ : Run α) >>= next = ⟨.error e, events⟩ := rfl

@[simp] theorem endless_bind {α β : Type} (events : List Event) (next : α → Run β) :
    (⟨.endless, events⟩ : Run α) >>= next = ⟨.endless, events⟩ := rfl

theorem map_eq_bind {α β : Type} (f : α → β) (r : Run α) :
    r.map f = r >>= fun a => pure (f a) := by
  rcases r with ⟨_ | _ | _, events⟩ <;> simp [Bind.bind, Pure.pure, map, bind, value]

/-- The run of a branch of this number, and if it fails the run of the others after it. -/
def orElse {α : Type} (branch : Nat) (r : Run α) (others : Unit → Run α) : Run α :=
  match r.outcome with
  | .error e =>
    let second := others ()
    ⟨second.outcome, r.events ++ .rejected branch e :: second.events⟩
  | _ => r

@[simp] theorem value_orElse {α : Type} (a : α) (events : List Event) (branch : Nat)
    (others : Unit → Run α) : orElse branch ⟨.value a, events⟩ others = ⟨.value a, events⟩ := rfl

@[simp] theorem error_orElse {α : Type} (e : DecodeError) (events : List Event) (branch : Nat)
    (others : Unit → Run α) :
    orElse branch ⟨.error e, events⟩ others =
      ⟨(others ()).outcome, events ++ .rejected branch e :: (others ()).events⟩ := rfl

@[simp] theorem endless_orElse {α : Type} (events : List Event) (branch : Nat)
    (others : Unit → Run α) : orElse branch ⟨.endless, events⟩ others = ⟨.endless, events⟩ := rfl

theorem mem_events_bind {α β : Type} {r : Run α} {next : α → Run β} {event : Event} :
    event ∈ (r >>= next).events ↔
      event ∈ r.events ∨ ∃ a, r.outcome = .value a ∧ event ∈ (next a).events := by
  rcases r with ⟨a | e | _, events⟩ <;> simp

theorem mem_events_orElse {α : Type} {r : Run α} {branch : Nat} {others : Unit → Run α}
    {event : Event} :
    event ∈ (r.orElse branch others).events ↔
      event ∈ r.events ∨ ∃ e, r.outcome = .error e ∧
        (event = .rejected branch e ∨ event ∈ (others ()).events) := by
  rcases r with ⟨a | e | _, events⟩ <;> simp

/-- Runs one after the other, for the family of their values. -/
def collect : {k : Nat} → {σ : Fin k → Type} → ((i : Fin k) → Run (σ i)) →
    Run ((i : Fin k) → σ i)
  | 0, _, _ => pure fun i => i.elim0
  | _ + 1, _, runs => do
    let first ← runs 0
    (collect fun i => runs i.succ).map fun others => Fin.cases first others

end Run

end TypedJson
