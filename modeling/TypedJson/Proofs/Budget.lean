import Mathlib.Data.Fintype.Card
import TypedJson.Proofs.Simulation

/-!
# Budgets of nested calls

The budget of `runWithin` is a bound and nothing else: a run that ends within one budget is the same
within every greater one (`runWithin_eq_of_le`).  With finitely many definitions the budget of
`decode` is enough for every run that ends within any (`decode_eq_decodeWithin`), so `endless` says
of a decode that no budget is enough for it.

Why it is enough: take the least budget within which a call ends.  The call makes another one that
needs all of it but one.  If that stands further down, the value is lower.  If it stands at the same
place, fewer definitions end there within what it needs; and there are only so many definitions.
-/

namespace TypedJson

namespace Run

variable {α β : Type}

/-- Has the run a value or an error? -/
def Ends (r : Run α) : Prop := r.outcome ≠ .endless

theorem Ends.of_bind {r : Run α} {next : α → Run β} (h : (r >>= next).Ends) : r.Ends := by
  rcases r with ⟨a | e | _, events⟩
  · intro h'
    cases h'
  · intro h'
    cases h'
  · exact absurd rfl h

theorem Ends.of_orElse {r : Run α} {others : Unit → Run α} {branch : Nat}
    (h : (r.orElse branch others).Ends) : r.Ends := by
  rcases r with ⟨a | e | _, events⟩
  · intro h'
    cases h'
  · intro h'
    cases h'
  · exact absurd rfl h

end Run

/-! ## Greater budgets -/

/-- The first run is cut off; then, if `bothCut`, the second is cut off as well. -/
def Difference.cutOff (bothCut : Prop) : Difference fun _ => True where
  between r r' := ¬ r.Ends ∧ (bothCut → ¬ r'.Ends)
  bind := by
    rintro α β r r' next next' ⟨hr, hr'⟩
    exact ⟨fun h => hr h.of_bind, fun hcut h => hr' hcut h.of_bind⟩
  value_bind h := h
  orElse := by
    rintro _ α r r' others others' branch ⟨hr, hr'⟩
    exact ⟨fun h => hr h.of_orElse, fun hcut h => hr' hcut h.of_orElse⟩
  error_orElse := by
    intro _ α e events others others' branch h
    exact h

/-- Runs at one place that are the same unless they are cut off. -/
def Simulation.cutOff (bothCut : Prop) : Simulation :=
  (Difference.cutOff bothCut).simulation (fun _ p p' => p = p') (fun h _ => h ▸ rfl)
    (fun h => h ▸ rfl) fun h => .inl (h ▸ rfl)

section

variable {ι : Type} [Numbered ι] {τ : ι → Type} {α : Type}

/-- A run that ends is determined by the calls that end. -/
theorem Decoder.runner_eq_of_ends {d : Decoder τ α} {call call' : (i : ι) → Runner (τ i)}
    {v : Json} {p : Place} (hends : (d.runner call' v p).Ends)
    (h : ∀ i t w, d.Calls v i t w →
      (Simulation.cutOff True).runs (call i w (p.descend t)) (call' i w (p.descend t))) :
    d.runner call v p = d.runner call' v p := by
  have hrun : (Simulation.cutOff True).runs (d.runner call v p) (d.runner call' v p) :=
    (Simulation.cutOff True).runner d d.builtFrom_all rfl fun i t w hc _ => h i t w hc
  rcases hrun with hrun | ⟨_, hrun⟩
  · exact hrun
  · exact absurd hends (hrun trivial)

namespace Definitions

variable {defs : Definitions τ}

theorem call_cutOff {b b' : Nat} (h : b ≤ b') (i : ι) (v : Json) (p : Place) :
    (Simulation.cutOff False).runs (defs.call b i v p) (defs.call b' i v p) := by
  induction b generalizing b' i v p with
  | zero => exact .inr ⟨fun h => h rfl, False.elim⟩
  | succ b ih =>
    obtain ⟨c, rfl⟩ : ∃ c, b' = c + 1 := ⟨b' - 1, by omega⟩
    refine (Simulation.cutOff False).runner (defs i) (defs i).builtFrom_all rfl ?_
    intro j t w _ _
    exact ih (by omega) j w _

/-- A call that ends within a budget is the same within every greater one. -/
theorem call_eq_of_le {b b' : Nat} (h : b ≤ b') {i : ι} {v : Json} {p : Place}
    (hends : (defs.call b i v p).Ends) : defs.call b' i v p = defs.call b i v p := by
  rcases call_cutOff h i v p with h | ⟨h, _⟩
  · exact h.symm
  · exact absurd hends h

/-- A call that needs all of its budget makes another one that needs all but one of it. -/
theorem exists_call_of_not_ends {b : Nat} {i : ι} {v : Json} {p : Place}
    (hends : (defs.call (b + 2) i v p).Ends) (hnot : ¬ (defs.call (b + 1) i v p).Ends) :
    ∃ j t w, (defs i).Calls v j t w ∧ (defs.call (b + 1) j w (p.descend t)).Ends ∧
      ¬ (defs.call b j w (p.descend t)).Ends := by
  apply Classical.byContradiction
  intro hnone
  have hsame : defs.call (b + 1) i v p = defs.call (b + 2) i v p := by
    refine Decoder.runner_eq_of_ends hends fun j t w hc => ?_
    by_cases hj : (defs.call b j w (p.descend t)).Ends
    · exact .inl (call_eq_of_le (Nat.le_succ b) hj).symm
    · exact .inr ⟨hj, fun _ hj' => hnone ⟨j, t, w, hc, hj', hj⟩⟩
  rw [hsame] at hnot
  exact hnot hends

end Definitions

/-- A run that ends within a budget is the same within every greater one. -/
theorem Decoder.runWithin_eq_of_le {defs : Definitions τ} {b b' : Nat} (h : b ≤ b')
    {d : Decoder τ α} {v : Json} {p : Place} (hends : (d.runWithin defs b v p).Ends) :
    d.runWithin defs b' v p = d.runWithin defs b v p := by
  have hrun : (Simulation.cutOff False).runs (d.runWithin defs b v p) (d.runWithin defs b' v p) :=
    (Simulation.cutOff False).runner d d.builtFrom_all rfl
      fun i t w _ _ => Definitions.call_cutOff h i w _
  rcases hrun with h | ⟨h, _⟩
  · exact h.symm
  · exact absurd hends h

end

/-! ## Enough budget -/

section

variable {n : Nat} {τ : Fin n → Type} {α : Type}

open Classical in
/-- The definitions that end on the value within the budget. -/
noncomputable def Definitions.ending (defs : Definitions τ) (b : Nat) (v : Json) (p : Place) :
    Finset (Fin n) :=
  {i | (defs.call b i v p).Ends}

theorem Definitions.mem_ending {defs : Definitions τ} {b : Nat} {v : Json} {p : Place}
    {i : Fin n} : i ∈ defs.ending b v p ↔ (defs.call b i v p).Ends := by
  simp [Definitions.ending]

theorem Definitions.card_ending_le (defs : Definitions τ) (b : Nat) (v : Json) (p : Place) :
    (defs.ending b v p).card ≤ n := by
  have h := Finset.card_le_univ (defs.ending b v p)
  rwa [Fintype.card_fin] at h

/-- The least budget within which a call ends is at most `n` for each step further down, and one for
each definition that ends here within it. -/
theorem Definitions.least_budget_le {defs : Definitions τ} {b : Nat} {i : Fin n} {v : Json}
    {p : Place} (hends : (defs.call (b + 1) i v p).Ends) (hnot : ¬ (defs.call b i v p).Ends) :
    b + 1 ≤ n * v.height + (defs.ending (b + 1) v p).card := by
  induction b generalizing i v p with
  | zero =>
    have hcard : 0 < (defs.ending (0 + 1) v p).card := Finset.card_pos.2 ⟨i, mem_ending.2 hends⟩
    omega
  | succ b ih =>
    obtain ⟨j, t, w, hc, hj, hj'⟩ := exists_call_of_not_ends hends hnot
    have hle := ih hj hj'
    have hi : i ∈ defs.ending (b + 1 + 1) v p := mem_ending.2 hends
    by_cases ht : t = []
    · -- the call stands here, and `i` is one more that ends with one more call
      subst ht
      obtain ⟨-, rfl⟩ := hc.unguarded_of_nil
      have hcard : (defs.ending (b + 1) w p).card < (defs.ending (b + 1 + 1) w p).card := by
        refine Finset.card_lt_card (Finset.ssubset_iff_subset_ne.2 ⟨?_, ?_⟩)
        · intro k hk
          rw [mem_ending] at hk ⊢
          rwa [call_eq_of_le (Nat.le_succ _) hk]
        · intro heq
          rw [← heq, mem_ending] at hi
          exact hnot hi
      rw [Place.descend] at hle
      omega
    · have hlen : 0 < t.length := List.length_pos_iff.2 ht
      have hheight := hc.height_add_length_le
      have hcard := defs.card_ending_le (b + 1) w (p.descend t)
      have hmul : n * (w.height + 1) ≤ n * v.height := Nat.mul_le_mul_left n (by omega)
      have hself : 0 < (defs.ending (b + 1 + 1) v p).card := Finset.card_pos.2 ⟨i, hi⟩
      rw [Nat.mul_add, Nat.mul_one] at hmul
      omega

/-- A call that ends within any budget ends within `n` for each step on a longest way down. -/
theorem Definitions.call_ends_of_ends {defs : Definitions τ} {b : Nat} {i : Fin n} {v : Json}
    {p : Place} (hends : (defs.call b i v p).Ends) :
    (defs.call (n * (v.height + 1)) i v p).Ends := by
  induction b with
  | zero => exact absurd rfl hends
  | succ b ih =>
    by_cases hb : (defs.call b i v p).Ends
    · exact ih hb
    · have hle := least_budget_le hends hb
      have hcard := defs.card_ending_le (b + 1) v p
      have hbudget : b + 1 ≤ n * (v.height + 1) := by
        rw [Nat.mul_add, Nat.mul_one]
        omega
      rwa [call_eq_of_le hbudget hends]

/-- **The budget is enough.**  A run that ends within any budget is the run within that of the
table. -/
theorem Decoder.runWithin_budget_eq {defs : Definitions τ} {b : Nat} {d : Decoder τ α} {v : Json}
    {p : Place} (hends : (d.runWithin defs b v p).Ends) :
    d.runWithin defs (defs.budget v) v p = d.runWithin defs b v p := by
  rcases Nat.le_total b (defs.budget v) with hle | hle
  · exact Decoder.runWithin_eq_of_le hle hends
  · refine Decoder.runner_eq_of_ends hends fun i t w hc => ?_
    by_cases hi : (defs.call (defs.budget v) i w (p.descend t)).Ends
    · exact .inl (Definitions.call_eq_of_le hle hi).symm
    · refine .inr ⟨hi, fun _ hb => hi ?_⟩
      have hw := Definitions.call_ends_of_ends hb
      have hheight := hc.height_add_length_le
      have hbudget : n * (w.height + 1) ≤ defs.budget v := Nat.mul_le_mul_left n (by omega)
      rwa [Definitions.call_eq_of_le hbudget hw]

theorem Run.reportFailure_outcome (r : Run α) : r.reportFailure.outcome = r.outcome := by
  rcases r with ⟨_ | _ | _, events⟩
  · rfl
  · rfl
  · rfl

theorem Run.ends_reportFailure {r : Run α} : r.reportFailure.Ends ↔ r.Ends := by
  unfold Run.Ends
  rw [Run.reportFailure_outcome]

/-- A decode that ends within any budget is the decode. -/
theorem Decoder.decode_eq_decodeWithin {defs : Definitions τ} {b : Nat} {d : Decoder τ α}
    {options : Options} {v : Json} (hends : (d.decodeWithin defs b options v).Ends) :
    d.decode defs options v = d.decodeWithin defs b options v := by
  have hrun := Decoder.runWithin_budget_eq (Run.ends_reportFailure.1 hends)
  unfold Decoder.decode Decoder.decodeWithin
  rw [hrun]

end

end TypedJson
