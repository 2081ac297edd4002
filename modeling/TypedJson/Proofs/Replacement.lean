import TypedJson.Proofs.Unbounded

/-!
# Replacing parts of decoders

Two decoders *agree* over a table of definitions if they have the same outcome on every value at
every place.  Where parts that agree take the place of each other, anywhere in a decoder and in all
definitions at once, no outcome changes (`Replaced.outcome_eq`), and events only where the parts
themselves tell of other ones (`Replaced.exists_runsTo`).

The parts have to agree over both tables.  If they agree over the second, a call of the first that
ends within some budget has the outcome that it has over the second: this is an induction on the
budget (`Replaced.call`), and every combinator keeps it.  So a replacement never makes a run that
ends go on for ever; with the sides exchanged, it never makes one end that did not.
-/

namespace TypedJson

/-! ## Runs that tell of other pieces -/

/-- The same events in the same order, but for pieces that `told` lets stand for each other. -/
inductive Event.SameBut (told : List Event → List Event → Prop) :
    List Event → List Event → Prop where
  | nil : SameBut told [] []
  | cons {events events' : List Event} (event : Event) (h : SameBut told events events') :
      SameBut told (event :: events) (event :: events')
  | piece {piece piece' events events' : List Event} (hpiece : told piece piece')
      (h : SameBut told events events') : SameBut told (piece ++ events) (piece' ++ events')

namespace Event.SameBut

variable {told : List Event → List Event → Prop} {events events' others others' : List Event}

theorem refl (events : List Event) : SameBut told events events := by
  induction events with
  | nil => exact .nil
  | cons event events ih => exact .cons event ih

theorem append (h : SameBut told events events') (hothers : SameBut told others others') :
    SameBut told (events ++ others) (events' ++ others') := by
  induction h with
  | nil => exact hothers
  | cons event _ ih => exact .cons event ih
  | piece hpiece _ ih =>
    rw [List.append_assoc, List.append_assoc]
    exact .piece hpiece ih

end Event.SameBut

namespace Run

variable {α : Type} {told : List Event → List Event → Prop} {r r' : Run α}

/-- The same outcome, and the same events but for such pieces. -/
structure SameBut (told : List Event → List Event → Prop) (r r' : Run α) : Prop where
  outcome : r.outcome = r'.outcome
  events : Event.SameBut told r.events r'.events

theorem SameBut.refl (r : Run α) : r.SameBut told r := ⟨rfl, .refl r.events⟩

theorem SameBut.ends (h : r.SameBut told r') (hends : r.Ends) : r'.Ends := fun h' =>
  hends (h.outcome.trans h')

theorem SameBut.reportFailure (h : r.SameBut told r') :
    r.reportFailure.SameBut told r'.reportFailure := by
  obtain ⟨o, events⟩ := r
  obtain ⟨o', events'⟩ := r'
  obtain ⟨houtcome, hevents⟩ := h
  cases houtcome
  cases o with
  | error e => exact ⟨rfl, hevents.append (.refl [.failed e])⟩
  | _ => exact ⟨rfl, hevents⟩

end Run

/-- Runs at one place that are the same but for what such pieces tell, if the first ends. -/
def Simulation.sameBut (told : List Event → List Event → Prop) : Simulation where
  allowed _ := True
  places _ p p' := p' = p
  runs r r' := r.Ends → r.SameBut told r'
  child := @child_of_eq
  pure a _ := .refl (Pure.pure a)
  bind := by
    rintro α β ⟨o, events⟩ ⟨o', events'⟩ next next' hr hnext hends
    obtain ⟨houtcome, hevents⟩ := hr hends.of_bind
    cases houtcome
    rcases o with a | e | _
    · have hsecond := hnext a hends
      exact ⟨hsecond.outcome, hevents.append hsecond.events⟩
    · exact ⟨rfl, hevents⟩
    · exact absurd rfl hends
  callback _ _ := .refl _
  fail := by
    rintro α v p _ t reason rfl _ _
    exact .refl _
  orElse := by
    rintro _ α ⟨o, events⟩ ⟨o', events'⟩ others others' branch hr hothers hends
    obtain ⟨houtcome, hevents⟩ := hr hends.of_orElse
    cases houtcome
    rcases o with a | e | _
    · exact ⟨rfl, hevents⟩
    · have hsecond := hothers hends
      exact ⟨hsecond.outcome, hevents.append (.cons _ hsecond.events)⟩
    · exact absurd rfl hends
  enter := by
    rintro α v _ p body body' definition rfl hbody hends
    unfold Runner.enter at hends ⊢
    by_cases hdeep : p.isTooDeep
    · rw [if_pos hdeep, if_pos hdeep]
      exact .refl _
    · rw [if_neg hdeep] at hends
      rw [if_neg hdeep, if_neg hdeep]
      have hrun := hbody hends
      exact ⟨hrun.outcome, .cons _ hrun.events⟩

/-! ## Replacements -/

section

variable {ι : Type} {τ : ι → Type}

/-- The second decoder is the first with any number of its parts replaced, each by one that a law
puts in its place. -/
inductive Decoder.Replaced (law : {α : Type} → Decoder τ α → Decoder τ α → Prop) :
    {α : Type} → Decoder τ α → Decoder τ α → Prop where
  | law {α : Type} {d d' : Decoder τ α} (h : law d d') : Replaced @law d d'
  | same {α : Type} (d : Decoder τ α) : Replaced @law d d
  | array {α : Type} {element element' : Decoder τ α} (h : Replaced @law element element') :
      Replaced @law (.array element) (.array element')
  | tuple {k : Nat} {σ : Fin k → Type} {positions positions' : (i : Fin k) → Decoder τ (σ i)}
      (h : ∀ i, Replaced @law (positions i) (positions' i)) :
      Replaced @law (.tuple positions) (.tuple positions')
  | object {k : Nat} {σ : Fin k → Type} {α : Type} {keys : Fin k → String}
      {fields fields' : (i : Fin k) → Decoder τ (σ i)} {construct : ((i : Fin k) → σ i) → α}
      (h : ∀ i, Replaced @law (fields i) (fields' i)) :
      Replaced @law (.object keys fields construct) (.object keys fields' construct)
  | dict {α : Type} {value value' : Decoder τ α} (h : Replaced @law value value') :
      Replaced @law (.dict value) (.dict value')
  | atPath {α : Type} {path : Path} {inner inner' : Decoder τ α} (h : Replaced @law inner inner') :
      Replaced @law (.atPath path inner) (.atPath path inner')
  | alternatives {α : Type} {k : Nat} {branches branches' : Fin k → Decoder τ α}
      (h : ∀ j, Replaced @law (branches j) (branches' j)) :
      Replaced @law (.alternatives branches) (.alternatives branches')
  | andThen {α β : Type} {first first' : Decoder τ α} {next next' : α → Decoder τ β}
      (hfirst : Replaced @law first first') (hnext : ∀ a, Replaced @law (next a) (next' a)) :
      Replaced @law (.andThen first next) (.andThen first' next')
  | transform {α β : Type} {label : Option String} {f : α → β} {inner inner' : Decoder τ α}
      (h : Replaced @law inner inner') :
      Replaced @law (.transform label f inner) (.transform label f inner')

/-- What a law has replaced is put back by the law read from the other side. -/
theorem Decoder.Replaced.symm {law : {α : Type} → Decoder τ α → Decoder τ α → Prop} {α : Type}
    {d d' : Decoder τ α} (h : d.Replaced law d') : d'.Replaced (fun d d' => law d' d) d := by
  induction h with
  | law h => exact .law h
  | same d => exact .same d
  | array _ ih => exact .array ih
  | tuple _ ih => exact .tuple ih
  | object _ ih => exact .object ih
  | dict _ ih => exact .dict ih
  | atPath _ ih => exact .atPath ih
  | alternatives _ ih => exact .alternatives ih
  | andThen _ _ ihFirst ihNext => exact .andThen ihFirst ihNext
  | transform _ ih => exact .transform ih

/-- A replacement keeps the unguarded references if its law does. -/
theorem Decoder.Replaced.unguarded_iff {law : {α : Type} → Decoder τ α → Decoder τ α → Prop} {α : Type}
    {d d' : Decoder τ α} {i : ι}
    (hlaw : ∀ {α : Type} {d d' : Decoder τ α}, law d d' → (d.Unguarded i ↔ d'.Unguarded i))
    (h : d.Replaced law d') : d.Unguarded i ↔ d'.Unguarded i := by
  induction h with
  | law h => exact hlaw h
  | same => exact Iff.rfl
  | atPath _ ih => exact and_congr_right fun _ => ih
  | alternatives _ ih => exact exists_congr ih
  | andThen _ _ ihFirst ihNext => exact or_congr ihFirst (exists_congr ihNext)
  | transform _ ih => exact ih
  | _ => exact Iff.rfl

end

/-! ## Runs of replaced decoders -/

section

variable {ι : Type} [Numbered ι] {τ : ι → Type} {α : Type}

/-- Both have the same outcome over these definitions, whatever the value and the place. -/
def Decoder.Agree (defs : Definitions τ) (d d' : Decoder τ α) : Prop :=
  ∀ v p, (d.runner defs.unbounded v p).outcome = (d'.runner defs.unbounded v p).outcome

/-- What the parts of a law tell, the one over the first and the other over the second definitions,
when they come to the same outcome on one value at one place. -/
def Decoder.ToldByParts (law : {α : Type} → Decoder τ α → Decoder τ α → Prop)
    (defs defs' : Definitions τ) (piece piece' : List Event) : Prop :=
  ∃ (α : Type) (d d' : Decoder τ α) (v : Json) (p : Place) (o : Outcome α), law d d' ∧
    d.RunsTo defs v p ⟨o, piece⟩ ∧ d'.RunsTo defs' v p ⟨o, piece'⟩

namespace Decoder.Replaced

variable {law : {α : Type} → Decoder τ α → Decoder τ α → Prop} {defs defs' : Definitions τ}
  {d d' : Decoder τ α}

/-- If calls are the same but for what the parts of the law tell, and so are these parts, then so are
decoders in which they are replaced. -/
theorem runner {told : List Event → List Event → Prop} {call call' : (i : ι) → Runner (τ i)}
    (hcall : ∀ i v p, (Simulation.sameBut told).runs (call i v p) (call' i v p))
    (hlaw : ∀ {α : Type} {d d' : Decoder τ α}, law d d' → ∀ v p,
      (Simulation.sameBut told).runs (d.runner call v p) (d'.runner call' v p))
    (h : d.Replaced law d') (v : Json) (p : Place) :
    (Simulation.sameBut told).runs (d.runner call v p) (d'.runner call' v p) := by
  induction h generalizing v p with
  | law h => exact hlaw h v p
  | same d => exact Simulation.runner _ d d.builtFrom_all rfl fun i t w _ _ => hcall i w _
  | array _ ih => exact Simulation.array _ rfl fun i w _ => ih w _
  | tuple _ ih => exact Simulation.tuple _ rfl fun i w _ => ih i w _
  | object _ ih => exact Simulation.object _ rfl fun i w _ => ih i w _
  | dict _ ih => exact Simulation.dict _ rfl fun key w _ => ih w _
  | atPath _ ih => exact Simulation.atPath _ rfl fun w _ => ih w _
  | alternatives _ ih => exact Simulation.firstSuccess _ trivial rfl (fun j => ih j v p) 0
  | andThen _ _ ihFirst ihNext => exact Simulation.andThen _ (ihFirst v p) fun a => ihNext a v p
  | transform _ ih => exact Simulation.transform _ (ih v p)

/-- Parts that agree over the second table are the same but for what they tell, if the calls are the
same but for that. -/
theorem parts {b : Nat}
    (hcall : ∀ i v p, (Simulation.sameBut (ToldByParts law defs defs')).runs (defs.call b i v p)
      (defs'.unbounded i v p))
    (hagree : d.Agree defs' d') (h : law d d') (v : Json) (p : Place) :
    (Simulation.sameBut (ToldByParts law defs defs')).runs (d.runWithin defs b v p)
      (d'.runner defs'.unbounded v p) := by
  intro hends
  have hsame : (d.runWithin defs b v p).SameBut _ (d.runner defs'.unbounded v p) :=
    Simulation.runner _ d d.builtFrom_all rfl (fun i t w _ _ => hcall i w _) hends
  have houtcome := hsame.outcome.trans (hagree v p)
  refine ⟨houtcome, ?_⟩
  have hends' : (d'.runner defs'.unbounded v p).Ends := fun hnot => hends (houtcome.trans hnot)
  have hpiece : ToldByParts law defs defs' (d.runWithin defs b v p).events
      (d'.runner defs'.unbounded v p).events :=
    ⟨α, d, d', v, p, (d.runWithin defs b v p).outcome, h, ⟨hends, b, rfl⟩,
      houtcome ▸ runsTo_iff.2 ⟨hends', rfl⟩⟩
  have hevents := Event.SameBut.piece hpiece .nil
  rwa [List.append_nil, List.append_nil] at hevents

/-- A call of the first table that ends within a budget is the same over the second but for what the
parts of the law tell, if these agree over the second. -/
theorem call (hlaw : ∀ {α : Type} {d d' : Decoder τ α}, law d d' → d.Agree defs' d')
    (hdefs : ∀ i, (defs i).Replaced law (defs' i)) (b : Nat) (i : ι) (v : Json) (p : Place) :
    (Simulation.sameBut (ToldByParts law defs defs')).runs (defs.call b i v p)
      (defs'.unbounded i v p) := by
  induction b generalizing i v p with
  | zero => exact fun hends => absurd rfl hends
  | succ b ih =>
    intro hends
    have hbody := (hdefs i).runner ih (fun h => parts ih (hlaw h) h) v p hends
    rwa [Definitions.unbounded_eq (hbody.ends hends)]

/-- **What replacements keep.**  A run that ends is the same but for what the replaced parts tell. -/
theorem exists_runsTo (hlaw : ∀ {α : Type} {d d' : Decoder τ α}, law d d' → d.Agree defs' d')
    (hdefs : ∀ i, (defs i).Replaced law (defs' i)) (h : d.Replaced law d') {v : Json} {p : Place}
    {r : Run α} (hr : d.RunsTo defs v p r) :
    ∃ r', d'.RunsTo defs' v p r' ∧ r.SameBut (ToldByParts law defs defs') r' := by
  obtain ⟨hends, b, rfl⟩ := hr
  have hrun := h.runner (call hlaw hdefs b) (fun h => parts (call hlaw hdefs b) (hlaw h) h) v p hends
  exact ⟨_, runsTo_iff.2 ⟨hrun.ends hends, rfl⟩, hrun⟩

/-- A run that ends has the outcome of the run that replaces it. -/
theorem outcome_of_ends (hlaw : ∀ {α : Type} {d d' : Decoder τ α}, law d d' → d.Agree defs' d')
    (hdefs : ∀ i, (defs i).Replaced law (defs' i)) (h : d.Replaced law d') {v : Json} {p : Place}
    (hends : (d.runner defs.unbounded v p).Ends) :
    (d.runner defs.unbounded v p).outcome = (d'.runner defs'.unbounded v p).outcome := by
  obtain ⟨r', hr', hsame⟩ := h.exists_runsTo hlaw hdefs (runsTo_iff.2 ⟨hends, rfl⟩)
  rw [hsame.outcome, (runsTo_iff.1 hr').2]

/-- If the parts agree over both tables, the replacement changes no outcome. -/
theorem outcome_eq (hlaw : ∀ {α : Type} {d d' : Decoder τ α}, law d d' → d.Agree defs d')
    (hlaw' : ∀ {α : Type} {d d' : Decoder τ α}, law d d' → d.Agree defs' d')
    (hdefs : ∀ i, (defs i).Replaced law (defs' i)) (h : d.Replaced law d') (v : Json) (p : Place) :
    (d.runner defs.unbounded v p).outcome = (d'.runner defs'.unbounded v p).outcome := by
  by_cases hends : (d.runner defs.unbounded v p).Ends
  · exact outcome_of_ends hlaw' hdefs h hends
  · have hends' : ¬ (d'.runner defs'.unbounded v p).Ends := by
      intro hends'
      have hback := outcome_of_ends (fun h v p => (hlaw h v p).symm) (fun i => (hdefs i).symm)
        h.symm hends'
      exact hends fun hnot => hends' (hback.trans hnot)
    rw [not_not.1 hends, not_not.1 hends']

/-- Where every run over the second table ends, parts that agree over the first agree over both. -/
theorem agree_of_ends (hlaw : ∀ {α : Type} {d d' : Decoder τ α}, law d d' → d.Agree defs d')
    (hdefs : ∀ i, (defs i).Replaced law (defs' i))
    (hends : ∀ (d : Decoder τ α) v p, (d.runner defs'.unbounded v p).Ends)
    (h : d.Agree defs d') : d.Agree defs' d' := by
  have hsame : ∀ (d : Decoder τ α) v p,
      (d.runner defs'.unbounded v p).outcome = (d.runner defs.unbounded v p).outcome :=
    fun d v p => outcome_of_ends (fun h v p => (hlaw h v p).symm) (fun i => (hdefs i).symm)
      (.same d) (hends d v p)
  intro v p
  rw [hsame, hsame, h v p]

/-! ### Decodes -/

variable {options : Options} {v : Json} {r : Run α}

/-- A decode that ends is the same after the replacement, but for what the replaced parts tell. -/
theorem exists_decodesTo (hlaw : ∀ {α : Type} {d d' : Decoder τ α}, law d d' → d.Agree defs' d')
    (hdefs : ∀ i, (defs i).Replaced law (defs' i)) (h : d.Replaced law d')
    (hr : d.DecodesTo defs options v r) :
    ∃ r', d'.DecodesTo defs' options v r' ∧ r.SameBut (ToldByParts law defs defs') r' := by
  obtain ⟨run, hrun, rfl⟩ := decodesTo_iff.1 hr
  obtain ⟨run', hrun', hsame⟩ := h.exists_runsTo hlaw hdefs hrun
  exact ⟨_, decodesTo_iff.2 ⟨run', hrun', rfl⟩, hsame.reportFailure⟩

/-- A decode that ends after the replacement has ended before, and has been the same. -/
theorem exists_decodesTo_before
    (hlaw : ∀ {α : Type} {d d' : Decoder τ α}, law d d' → d.Agree defs d')
    (hlaw' : ∀ {α : Type} {d d' : Decoder τ α}, law d d' → d.Agree defs' d')
    (hdefs : ∀ i, (defs i).Replaced law (defs' i)) (h : d.Replaced law d')
    (hr : d'.DecodesTo defs' options v r) :
    ∃ r', d.DecodesTo defs options v r' ∧ r'.SameBut (ToldByParts law defs defs') r := by
  obtain ⟨run, hrun, rfl⟩ := decodesTo_iff.1 hr
  obtain ⟨hends, rfl⟩ := runsTo_iff.1 hrun
  have houtcome := h.outcome_eq hlaw hlaw' hdefs v (Place.root options.maxDepth)
  have hbefore : d.RunsTo defs v (Place.root options.maxDepth) _ :=
    runsTo_iff.2 ⟨fun hnot => hends (houtcome.symm.trans hnot), rfl⟩
  obtain ⟨run', hrun', hsame⟩ := h.exists_runsTo hlaw' hdefs hbefore
  obtain ⟨-, rfl⟩ := runsTo_iff.1 hrun'
  exact ⟨_, decodesTo_iff.2 ⟨_, hbefore, rfl⟩, hsame.reportFailure⟩

end Decoder.Replaced

end

end TypedJson
