import TypedJson.Proofs.Termination
import TypedJson.Proofs.Unbounded

/-!
# Guarded recursion through any number of definitions

Among infinitely many definitions unguarded references may lead on for ever and never come back, so
a table has to be *well guarded*: they may not be followed for ever.  Of finitely many definitions
that says no more than that there is no cycle (`isWellGuarded_iff_isGuarded`).

By induction, on the height of the value and then along unguarded references, every call of a
well-guarded table ends if any number of calls may be nested (`unbounded_ends`), so every run does
within some budget.
-/

namespace TypedJson

section

variable {ι : Type} {τ : ι → Type}

/-! ## Well-guarded tables -/

/-- Unguarded references cannot be followed for ever. -/
def Definitions.IsWellGuarded (defs : Definitions τ) : Prop :=
  WellFounded fun j i => defs.RefersUnguarded i j

/-- Definitions without an unguarded reference are well guarded. -/
theorem Definitions.isWellGuarded_of_not_unguarded {defs : Definitions τ}
    (h : ∀ i j, ¬ (defs i).Unguarded j) : defs.IsWellGuarded :=
  ⟨fun i => ⟨i, fun j hj => absurd hj (h i j)⟩⟩

/-- Finitely many definitions are well guarded if unguarded references make no cycle. -/
theorem Definitions.isWellGuarded_iff_isGuarded [Finite ι] {defs : Definitions τ} :
    defs.IsWellGuarded ↔ defs.IsGuarded := by
  constructor
  · intro h i hcycle
    exact h.transGen.irrefl.irrefl i (Relation.transGen_swap.2 hcycle)
  · intro h
    have hirrefl : Std.Irrefl (Relation.TransGen fun j i => defs.RefersUnguarded i j) :=
      ⟨fun i hcycle => h i (Relation.transGen_swap.1 hcycle)⟩
    have hwf := Finite.wellFounded_of_trans_of_irrefl
      (Relation.TransGen fun j i => defs.RefersUnguarded i j)
    exact hwf.mono fun j i hij => .single hij

theorem Decoder.unguarded_union {α : Type} {branches : List (Decoder τ α)} {i : ι} :
    (union branches).Unguarded i ↔ ∃ d ∈ branches, d.Unguarded i := by
  rw [List.exists_mem_iff_get]
  rfl

end

/-! ## Every run ends within some budget -/

section

variable {ι : Type} [Numbered ι] {τ : ι → Type} {α : Type} {defs : Definitions τ}

/-- Every call of a well-guarded table ends. -/
theorem Definitions.IsWellGuarded.unbounded_ends (hguard : defs.IsWellGuarded) (i : ι) (v : Json)
    (p : Place) : (defs.unbounded i v p).Ends := by
  induction hn : v.height using Nat.strongRecOn generalizing i v p with
  | ind n ihHeight =>
    subst hn
    induction i using hguard.induction generalizing p with
    | h i ih =>
      have hbody : ((defs i).runner defs.unbounded v p).Ends := by
        refine Decoder.ends_of_calls fun j t w hc => ?_
        rcases hc.unguarded_or_lower with ⟨hj, rfl⟩ | hlower
        · exact ih j hj (p.descend t)
        · exact ihHeight w.height hlower j w (p.descend t) rfl
      rwa [Definitions.unbounded_eq hbody]

/-- Every run of a decoder over a well-guarded table ends. -/
theorem Definitions.IsWellGuarded.runner_ends (hguard : defs.IsWellGuarded) (d : Decoder τ α)
    (v : Json) (p : Place) : (d.runner defs.unbounded v p).Ends :=
  Decoder.ends_of_calls fun i t w _ => hguard.unbounded_ends i w (p.descend t)

/-- Every run of a decoder over a well-guarded table ends within some budget. -/
theorem Definitions.IsWellGuarded.exists_runWithin_ends (hguard : defs.IsWellGuarded)
    (d : Decoder τ α) (v : Json) (p : Place) : ∃ b, (d.runWithin defs b v p).Ends :=
  Decoder.exists_runWithin_ends (hguard.runner_ends d v p)

end

/-- With finitely many well-guarded definitions, `decode` is the unbounded run from the root. -/
theorem Definitions.IsWellGuarded.decode_eq {n : Nat} {τ : Fin n → Type} {α : Type}
    {defs : Definitions τ} (hguard : defs.IsWellGuarded) (d : Decoder τ α) (options : Options)
    (v : Json) :
    d.decode defs options v =
      (d.runner defs.unbounded v (Place.root options.maxDepth)).reportFailure := by
  have hends := hguard.runner_ends d v (Place.root options.maxDepth)
  have hdecodes := Decoder.decodesTo_iff.2 ⟨_, Decoder.runsTo_iff.2 ⟨hends, rfl⟩, rfl⟩
  exact (Decoder.decodesTo_iff_decode.1 hdecodes).2

end TypedJson
