import Mathlib.Data.Set.Finite.Lattice
import Mathlib.Order.Lattice.Nat
import TypedJson.Proofs.Budget

/-!
# Runs without a bound on nested calls

`Definitions.unbounded` gives every call the budget that it needs.  A run that ends within some
budget is the run over these calls (`runner_unbounded_of_ends`), and a run over them that ends does
so within some budget (`exists_runWithin_ends`).

The second needs one budget for all calls of a run.  A continuation has infinitely many decoders to
choose from, with as many calls; but a run tells of finitely many events, so if each call first
tells of the budget it needs, the greatest one told of is enough for those that are made.
-/

namespace TypedJson

/-! ## Equal outcomes -/

/-- Runs at one place that have the same outcome, unless the first tells of an event that excuses
it. -/
def Simulation.sameOutcome (excuse : Event → Prop) : Simulation where
  allowed _ := True
  places _ p p' := p' = p
  runs r r' := (∃ event ∈ r.events, excuse event) ∨ r.outcome = r'.outcome
  child := @child_of_eq
  pure _ := .inr rfl
  bind := by
    rintro α β ⟨o, events⟩ ⟨o', events'⟩ next next' (⟨event, hevent, hexcuse⟩ | hr) hnext
    · exact .inl ⟨event, Run.mem_events_bind.2 (.inl hevent), hexcuse⟩
    · cases hr
      rcases o with a | e | _
      · rcases hnext a with ⟨event, hevent, hexcuse⟩ | h
        · exact .inl ⟨event, Run.mem_events_bind.2 (.inr ⟨a, rfl, hevent⟩), hexcuse⟩
        · exact .inr h
      · exact .inr rfl
      · exact .inr rfl
  callback _ := .inr rfl
  fail := by
    rintro α v p _ t reason rfl _
    exact .inr rfl
  orElse := by
    rintro _ α ⟨o, events⟩ ⟨o', events'⟩ others others' branch (⟨event, hevent, hexcuse⟩ | hr)
      hothers
    · exact .inl ⟨event, Run.mem_events_orElse.2 (.inl hevent), hexcuse⟩
    · cases hr
      rcases o with a | e | _
      · exact .inr rfl
      · rcases hothers with ⟨event, hevent, hexcuse⟩ | h
        · exact .inl ⟨event, Run.mem_events_orElse.2 (.inr ⟨e, rfl, .inr hevent⟩), hexcuse⟩
        · exact .inr h
      · exact .inr rfl
  enter := by
    rintro α v p _ body body' definition rfl hbody
    unfold Runner.enter
    split
    · exact .inr rfl
    · rcases hbody with ⟨event, hevent, hexcuse⟩ | h
      · exact .inl ⟨event, List.mem_cons_of_mem _ hevent, hexcuse⟩
      · exact .inr h

/-! ## Unbounded calls -/

section

variable {ι : Type} [Numbered ι] {τ : ι → Type}

namespace Definitions

/-- The least budget within which the call ends, if there is one. -/
noncomputable def need (defs : Definitions τ) (i : ι) (v : Json) (p : Place) : Nat :=
  sInf {b | (defs.call b i v p).Ends}

/-- What a definition does if any number of calls may be nested. -/
noncomputable def unbounded (defs : Definitions τ) (i : ι) : Runner (τ i) := fun v p =>
  defs.call (defs.need i v p) i v p

variable {defs : Definitions τ} {i : ι} {v : Json} {p : Place}

theorem unbounded_of_ends {b : Nat} (h : (defs.call b i v p).Ends) :
    defs.unbounded i v p = defs.call b i v p := by
  have hneed : defs.need i v p ∈ {b | (defs.call b i v p).Ends} := Nat.sInf_mem ⟨b, h⟩
  exact (call_eq_of_le (Nat.sInf_le h) hneed).symm

/-- A budget that is not less than what is needed makes no difference to the outcome. -/
theorem outcome_call_of_need_le {b : Nat} (h : defs.need i v p ≤ b) :
    (defs.unbounded i v p).outcome = (defs.call b i v p).outcome := by
  by_cases hb : (defs.call b i v p).Ends
  · rw [unbounded_of_ends hb]
  · have hneed : ¬ (defs.unbounded i v p).Ends := by
      intro hends
      rw [call_eq_of_le h hends] at hb
      exact hb hends
    rw [not_not.1 hneed, not_not.1 hb]

/-- The unbounded calls, each after an event of the budget that it needs. -/
noncomputable def telling (defs : Definitions τ) (i : ι) : Runner (τ i) := fun v p => do
  Run.emit (.entered (defs.need i v p))
  defs.unbounded i v p

end Definitions

namespace Decoder

variable {α : Type} {defs : Definitions τ} {d : Decoder τ α} {v : Json} {p : Place}

/-- A run that ends within some budget is the unbounded one. -/
theorem runner_unbounded_of_ends {b : Nat} (h : (d.runWithin defs b v p).Ends) :
    d.runner defs.unbounded v p = d.runWithin defs b v p := by
  have hrun : (Simulation.cutOff False).runs (d.runWithin defs b v p)
      (d.runner defs.unbounded v p) := by
    refine (Simulation.cutOff False).runner d d.builtFrom_all rfl ?_
    rintro i t w _ -
    by_cases hcall : (defs.call b i w (p.descend t)).Ends
    · exact .inl (Definitions.unbounded_of_ends hcall).symm
    · exact .inr ⟨hcall, False.elim⟩
  rcases hrun with hrun | ⟨hrun, -⟩
  · exact hrun.symm
  · exact absurd h hrun

/-- An unbounded run that ends does so within some budget. -/
theorem exists_runWithin_ends (h : (d.runner defs.unbounded v p).Ends) :
    ∃ b, (d.runWithin defs b v p).Ends := by
  have htelling : (d.runner defs.unbounded v p).outcome = (d.runner defs.telling v p).outcome := by
    have hrun : (Simulation.sameOutcome fun _ => False).runs (d.runner defs.unbounded v p)
        (d.runner defs.telling v p) := by
      refine (Simulation.sameOutcome _).runner d d.builtFrom_all rfl ?_
      exact fun i t w _ _ => .inr rfl
    exact hrun.resolve_left fun ⟨_, _, h⟩ => h
  have hfinite : {n | Event.entered n ∈ (d.runner defs.telling v p).events}.Finite :=
    (List.finite_toSet _).preimage (Set.injOn_of_injective fun m n h => by injection h)
  obtain ⟨b, hb⟩ := hfinite.bddAbove
  have hrun : (Simulation.sameOutcome fun event => ∃ n, event = .entered n ∧ b < n).runs
      (d.runner defs.telling v p) (d.runWithin defs b v p) := by
    refine (Simulation.sameOutcome _).runner d d.builtFrom_all rfl ?_
    rintro i t w _ -
    by_cases hneed : defs.need i w (p.descend t) ≤ b
    · exact .inr (Definitions.outcome_call_of_need_le hneed)
    · exact .inl ⟨_, List.mem_cons_self, _, rfl, Nat.lt_of_not_le hneed⟩
  rcases hrun with ⟨_, hn, n, rfl, hlt⟩ | hrun
  · exact absurd (hb hn) (Nat.not_le.2 hlt)
  · refine ⟨b, ?_⟩
    unfold Run.Ends
    rwa [← hrun, ← htelling]

/-- The runs of the decoder come to this one, if enough calls may be nested. -/
def RunsTo (defs : Definitions τ) (d : Decoder τ α) (v : Json) (p : Place) (r : Run α) : Prop :=
  r.Ends ∧ ∃ budget, d.runWithin defs budget v p = r

theorem runsTo_iff {r : Run α} :
    d.RunsTo defs v p r ↔ r.Ends ∧ d.runner defs.unbounded v p = r := by
  constructor
  · rintro ⟨hends, budget, rfl⟩
    exact ⟨hends, runner_unbounded_of_ends hends⟩
  · rintro ⟨hends, rfl⟩
    obtain ⟨b, hb⟩ := exists_runWithin_ends hends
    exact ⟨hends, b, (runner_unbounded_of_ends hb).symm⟩

end Decoder

/-- A call whose body ends does what its body does over the unbounded calls. -/
theorem Definitions.unbounded_eq {defs : Definitions τ} {i : ι} {v : Json} {p : Place}
    (h : ((defs i).runner defs.unbounded v p).Ends) :
    defs.unbounded i v p = (defs i).runner defs.unbounded v p := by
  obtain ⟨b, hb⟩ := Decoder.exists_runWithin_ends h
  have hcall : defs.unbounded i v p = defs.call (b + 1) i v p := unbounded_of_ends hb
  rw [hcall, Decoder.runner_unbounded_of_ends hb]
  rfl

/-! ## Decodes -/

namespace Decoder

variable {α : Type}

/-- The decodes come to this run, if enough calls may be nested. -/
def DecodesTo (defs : Definitions τ) (d : Decoder τ α) (options : Options) (v : Json)
    (r : Run α) : Prop :=
  r.Ends ∧ ∃ budget, d.decodeWithin defs budget options v = r

/-- A decode comes to what its run comes to, which tells last of an error. -/
theorem decodesTo_iff {defs : Definitions τ} {d : Decoder τ α} {options : Options} {v : Json}
    {r : Run α} :
    d.DecodesTo defs options v r ↔
      ∃ r', d.RunsTo defs v (Place.root options.maxDepth) r' ∧ r'.reportFailure = r := by
  constructor
  · rintro ⟨hends, budget, rfl⟩
    exact ⟨_, ⟨Run.ends_reportFailure.1 hends, budget, rfl⟩, rfl⟩
  · rintro ⟨_, ⟨hends, budget, rfl⟩, rfl⟩
    exact ⟨Run.ends_reportFailure.2 hends, budget, rfl⟩

/-- All decodes that end come to one run. -/
theorem DecodesTo.unique {defs : Definitions τ} {d : Decoder τ α} {options : Options} {v : Json}
    {r r' : Run α} (h : d.DecodesTo defs options v r) (h' : d.DecodesTo defs options v r') :
    r = r' := by
  obtain ⟨run, hrun, rfl⟩ := decodesTo_iff.1 h
  obtain ⟨run', hrun', rfl⟩ := decodesTo_iff.1 h'
  rw [← (runsTo_iff.1 hrun).2, ← (runsTo_iff.1 hrun').2]

/-- With finitely many definitions, `decode` is what the decodes come to. -/
theorem decodesTo_iff_decode {n : Nat} {τ : Fin n → Type} {defs : Definitions τ} {d : Decoder τ α}
    {options : Options} {v : Json} {r : Run α} :
    d.DecodesTo defs options v r ↔ r.Ends ∧ d.decode defs options v = r := by
  constructor
  · rintro ⟨hends, budget, rfl⟩
    exact ⟨hends, decode_eq_decodeWithin hends⟩
  · rintro ⟨hends, rfl⟩
    exact ⟨hends, defs.budget v, rfl⟩

end Decoder

end

end TypedJson
