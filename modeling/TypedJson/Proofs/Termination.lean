import Mathlib.Data.Fintype.Card
import Mathlib.Logic.Relation
import TypedJson.Proofs.Budget

/-!
# Guarded recursion ends

If unguarded references never lead from a definition back to itself, every decode ends.  The measure
is the height of the value, then the rank of the definition, which is the number of definitions that
unguarded references lead to from it:

    n * v.height + defs.rank i                                              (IsGuarded.measure_lt)

A call goes down, and the height sinks, or it is unguarded, and the rank does.
-/

namespace TypedJson

/-! ## Guarded tables -/

section

variable {ι : Type} {τ : ι → Type}

/-- The body of one definition has an unguarded reference to the other. -/
def Definitions.RefersUnguarded (defs : Definitions τ) (i j : ι) : Prop := (defs i).Unguarded j

/-- Unguarded references lead from no definition back to itself. -/
def Definitions.IsGuarded (defs : Definitions τ) : Prop :=
  ∀ i, ¬ Relation.TransGen defs.RefersUnguarded i i

end

/-! ## Ranks -/

section

variable {n : Nat} {τ : Fin n → Type} {α : Type} {defs : Definitions τ}

open Classical in
/-- How many definitions unguarded references lead to. -/
noncomputable def Definitions.rank (defs : Definitions τ) (i : Fin n) : Nat :=
  (Finset.univ.filter fun j => Relation.TransGen defs.RefersUnguarded i j).card

theorem Definitions.IsGuarded.rank_lt (hdefs : defs.IsGuarded) (i : Fin n) : defs.rank i < n := by
  classical
  have hlt : defs.rank i < (Finset.univ : Finset (Fin n)).card := by
    refine Finset.card_lt_card (Finset.filter_ssubset.2 ⟨i, Finset.mem_univ i, hdefs i⟩)
  rwa [Finset.card_fin] at hlt

theorem Definitions.IsGuarded.rank_lt_rank (hdefs : defs.IsGuarded) {i j : Fin n}
    (h : defs.RefersUnguarded i j) : defs.rank j < defs.rank i := by
  classical
  refine Finset.card_lt_card (Finset.ssubset_iff_subset_ne.2 ⟨?_, ?_⟩)
  · intro k hk
    rw [Finset.mem_filter] at hk ⊢
    exact ⟨hk.1, .head h hk.2⟩
  · intro heq
    have hj : j ∈ Finset.univ.filter fun k => Relation.TransGen defs.RefersUnguarded i k :=
      Finset.mem_filter.2 ⟨Finset.mem_univ j, .single h⟩
    rw [← heq, Finset.mem_filter] at hj
    exact hdefs j hj.2

/-- The measure sinks from a definition to what it calls. -/
theorem Definitions.IsGuarded.measure_lt (hdefs : defs.IsGuarded) {i j : Fin n} {v w : Json}
    {t : Path} (h : (defs i).Calls v j t w) :
    n * w.height + defs.rank j < n * v.height + defs.rank i := by
  rcases h.unguarded_or_lower with ⟨hj, rfl⟩ | hlower
  · have hrank := hdefs.rank_lt_rank hj
    omega
  · have hrank := hdefs.rank_lt j
    have hmul : n * (w.height + 1) ≤ n * v.height := Nat.mul_le_mul_left n hlower
    rw [Nat.mul_add, Nat.mul_one] at hmul
    omega

/-- What a decoder calls has a measure below the budget. -/
theorem Definitions.IsGuarded.measure_lt_budget (hdefs : defs.IsGuarded) {d : Decoder τ α}
    {j : Fin n} {v w : Json} {t : Path} (h : d.Calls v j t w) :
    n * w.height + defs.rank j < defs.budget v := by
  have hheight := h.height_add_length_le
  have hrank := hdefs.rank_lt j
  have hmul : n * w.height ≤ n * v.height := Nat.mul_le_mul_left n (by omega)
  show n * w.height + defs.rank j < n * (v.height + 1)
  rw [Nat.mul_add, Nat.mul_one]
  omega

/-! ## Runs end -/

/-- Runs that end, anywhere. -/
def Simulation.ends : Simulation where
  allowed _ := True
  places _ _ _ := True
  runs r _ := r.Ends
  child _ _ := trivial
  pure a := by
    intro h
    cases h
  bind := by
    intro α β r r' next next' hr hnext
    rcases r with ⟨a | e | _, events⟩
    · exact hnext a
    · intro h
      cases h
    · exact absurd rfl hr
  callback _ := by
    intro h
    cases h
  fail _ _ := by
    intro h
    cases h
  orElse := by
    intro _ α r r' others others' branch hr hothers
    rcases r with ⟨a | e | _, events⟩
    · exact hr
    · exact hothers
    · exact absurd rfl hr
  enter := by
    intro α v p p' body body' definition _ hbody
    unfold Runner.enter
    split
    · intro h
      cases h
    · exact hbody

/-- A run ends if the calls it makes do. -/
theorem Decoder.ends_of_calls {ι : Type} [Numbered ι] {τ : ι → Type} {call : (i : ι) → Runner (τ i)}
    {d : Decoder τ α} {v : Json} {p : Place}
    (h : ∀ i t w, d.Calls v i t w → (call i w (p.descend t)).Ends) : (d.runner call v p).Ends := by
  have hrun : Simulation.ends.runs (d.runner call v p) (d.runner call v p) :=
    Simulation.ends.runner d d.builtFrom_all trivial fun i t w hc _ => h i t w hc
  exact hrun

theorem Definitions.IsGuarded.call_ends (hdefs : defs.IsGuarded) {b : Nat} {i : Fin n} {v : Json}
    {p : Place} (hb : n * v.height + defs.rank i < b) : (defs.call b i v p).Ends := by
  induction b generalizing i v p with
  | zero => omega
  | succ b ih =>
    refine Decoder.ends_of_calls fun j t w hc => ih ?_
    have hlt := hdefs.measure_lt hc
    omega

/-! ## Chains of nested calls -/

/-- The definitions are nested calls of a run of the decoder: it may call the first, the body of the
first the second, and so on. -/
def Definitions.IsChain (defs : Definitions τ) :
    {α : Type} → Decoder τ α → Json → List (Fin n) → Prop
  | _, _, _, [] => True
  | _, d, v, i :: rest => ∃ t w, d.Calls v i t w ∧ defs.IsChain (defs i) w rest

theorem Definitions.IsGuarded.length_le_of_isChain (hdefs : defs.IsGuarded) {i : Fin n} {v : Json}
    {chain : List (Fin n)} (h : defs.IsChain (defs i) v chain) :
    chain.length ≤ n * v.height + defs.rank i := by
  induction chain generalizing i v with
  | nil => exact Nat.zero_le _
  | cons j rest ih =>
    obtain ⟨t, w, hc, hrest⟩ := h
    have hlt := hdefs.measure_lt hc
    have hle := ih hrest
    rw [List.length_cons]
    omega

/-- **Guarded recursion ends.**  If the definitions are guarded, every decode ends within its
budget, so calls of definitions nest at most `n` deep for each level of the input; and no chain of
calls is longer, not even one of calls that the decode does not come to. -/
theorem Decoder.decode_ends_of_isGuarded (defs : Definitions τ) (hdefs : defs.IsGuarded)
    (d : Decoder τ α) (options : Options) (v : Json) :
    (d.decode defs options v).Ends ∧
      ∀ chain, defs.IsChain d v chain → chain.length ≤ n * (v.height + 1) := by
  constructor
  · refine Run.ends_reportFailure.2 ?_
    refine Decoder.ends_of_calls fun i t w hc => ?_
    exact hdefs.call_ends (hdefs.measure_lt_budget hc)
  · intro chain hchain
    cases chain with
    | nil => exact Nat.zero_le _
    | cons i rest =>
      obtain ⟨t, w, hc, hrest⟩ := hchain
      have hlt : n * w.height + defs.rank i < n * (v.height + 1) := hdefs.measure_lt_budget hc
      have hle := hdefs.length_le_of_isChain hrest
      rw [List.length_cons]
      omega

end

theorem nestedArrays_isGuarded : nestedArrays.IsGuarded := by
  intro i h
  obtain ⟨j, hj, _⟩ := Relation.TransGen.head'_iff.1 h
  exact hj

/-- Under a limit that refuses the innermost array the decode ends too, and no chain of calls is
longer than the three arrays and their element need. -/
theorem nestedArrays_decode_ends :
    let d : Decoder (fun _ : Fin 1 => Nat) Nat := .ref 0
    let v : Json := .array [.array [.array [.null]]]
    nestedArrays.IsGuarded ∧
      (d.decode nestedArrays (Options.unlimited.withMaxDepth 1) v).Ends ∧
      ∀ chain, nestedArrays.IsChain d v chain → chain.length ≤ 4 := by
  intro d v
  exact ⟨nestedArrays_isGuarded,
    Decoder.decode_ends_of_isGuarded nestedArrays nestedArrays_isGuarded d _ v⟩

end TypedJson
