import TypedJson.Proofs.Replacement
import TypedJson.Proofs.WellGuarded

/-!
# Unions regrouped

The outcome of a union is the first outcome of a branch that is not an error, and if there is none
an error that tells of the kind of the value and of nothing that a branch has found
(`outcome_union`).  So a union inside a union may be opened, a branch that repeats an earlier one
dropped, and branches of which at least one of any two fails permuted.

That no two branches succeed on a value is not enough for a permutation if definitions may go on for
ever: a branch that is not tried before another one succeeds may be one that does not end, and what
a branch refers to may be the union itself (`crossedFlags_permuted_differ`).
-/

namespace TypedJson

/-! ## Outcomes of unions -/

namespace Outcome

variable {α : Type}

/-- The first outcome, or the second one if the first is an error. -/
def orElse : Outcome α → Outcome α → Outcome α
  | .error _, o => o
  | o, _ => o

theorem orElse_assoc (o o' o'' : Outcome α) :
    (o.orElse o').orElse o'' = o.orElse (o'.orElse o'') := by
  cases o <;> rfl

/-- Of two outcomes one of which is an error the order does not matter. -/
theorem orElse_left_comm {o o' : Outcome α} (h : (∃ e, o = .error e) ∨ ∃ e, o' = .error e)
    (o'' : Outcome α) : o.orElse (o'.orElse o'') = o'.orElse (o.orElse o'') := by
  rcases h with ⟨e, rfl⟩ | ⟨e, rfl⟩ <;> rfl

/-- An outcome that is passed over once is passed over again. -/
theorem orElse_foldr_orElse (o : Outcome α) (between : List (Outcome α)) (last : Outcome α) :
    o.orElse (between.foldr orElse (o.orElse last)) = o.orElse (between.foldr orElse last) := by
  cases o <;> rfl

theorem orElse_eq_value_iff {o o' : Outcome α} {a : α} :
    o.orElse o' = .value a ↔ o = .value a ∨ (∃ e, o = .error e) ∧ o' = .value a := by
  cases o with
  | value b => simp [orElse]
  | error e => simp [orElse]
  | endless => simp [orElse]

/-- The error at the end of a choice is passed over if another choice follows. -/
theorem foldr_orElse (os : List (Outcome α)) (e : DecodeError) (last : Outcome α) :
    (os.foldr orElse (.error e)).orElse last = os.foldr orElse last := by
  induction os with
  | nil => rfl
  | cons o os ih => rw [List.foldr_cons, List.foldr_cons, orElse_assoc, ih]

/-- A choice with an error at its end has no other error. -/
theorem eq_of_foldr_orElse_eq_error {os : List (Outcome α)} {e e' : DecodeError}
    (h : os.foldr orElse (.error e) = .error e') : e' = e := by
  induction os with
  | nil =>
    cases h
    rfl
  | cons o os ih =>
    cases o with
    | value a => cases h
    | error f => exact ih h
    | endless => cases h

end Outcome

/-- What a union tells of a value that none of its branches accepts. -/
def Json.unexpected (v : Json) (p : Place) : DecodeError :=
  ⟨p.path, .message ("unexpected " ++ v.kind.name)⟩

theorem Run.outcome_orElse {α : Type} (r : Run α) (branch : Nat) (others : Unit → Run α) :
    (r.orElse branch others).outcome = r.outcome.orElse (others ()).outcome := by
  rcases r with ⟨a | e | _, events⟩ <;> rfl

theorem Runner.outcome_firstSuccess {α : Type} (v : Json) (p : Place) (i : Nat)
    (branches : List (Runner α)) :
    (firstSuccess v p i branches).outcome =
      (branches.map fun r => (r v p).outcome).foldr Outcome.orElse (.error (v.unexpected p)) := by
  induction branches generalizing i with
  | nil => rfl
  | cons r rest ih =>
    rw [firstSuccess, Run.outcome_orElse, ih, List.map_cons, List.foldr_cons]

theorem Decoder.outcome_union {ι : Type} [Numbered ι] {τ : ι → Type} {α : Type}
    (call : (i : ι) → Runner (τ i)) (branches : List (Decoder τ α)) (v : Json) (p : Place) :
    ((union branches).runner call v p).outcome =
      (branches.map fun d => (d.runner call v p).outcome).foldr Outcome.orElse
        (.error (v.unexpected p)) := by
  rw [Decoder.runner_union, Runner.alternatives, Runner.outcome_firstSuccess, List.map_map]
  rfl

/-- The only error of a union is that the value is unexpected. -/
theorem Decoder.eq_unexpected_of_union {ι : Type} [Numbered ι] {τ : ι → Type} {α : Type}
    {call : (i : ι) → Runner (τ i)} {branches : List (Decoder τ α)} {v : Json} {p : Place}
    {e : DecodeError} (h : ((union branches).runner call v p).outcome = .error e) :
    e = v.unexpected p := by
  rw [Decoder.outcome_union] at h
  exact Outcome.eq_of_foldr_orElse_eq_error h

/-! ## The laws -/

section

variable {ι : Type} {τ : ι → Type} {α : Type}

/-- One union is the other regrouped; which branches may be permuted is for `permutable` to say. -/
inductive Decoder.Regroups (permutable : {α : Type} → List (Decoder τ α) → Prop) :
    {α : Type} → Decoder τ α → Decoder τ α → Prop where
  | nested {α : Type} (before branches after : List (Decoder τ α)) :
      Regroups @permutable (union (before ++ [union branches] ++ after))
        (union (before ++ branches ++ after))
  | oneOf {α : Type} (first : Decoder τ α) (others : List (Decoder τ α)) :
      Regroups @permutable (oneOf first others) (union ([first] ++ others))
  | repeated {α : Type} (before between after : List (Decoder τ α)) (d : Decoder τ α) :
      Regroups @permutable (union (before ++ [d] ++ between ++ [d] ++ after))
        (union (before ++ [d] ++ between ++ after))
  | permuted {α : Type} {branches branches' : List (Decoder τ α)} (h : branches.Perm branches')
      (hbranches : permutable branches) : Regroups @permutable (union branches) (union branches')
  | symm {α : Type} {d d' : Decoder τ α} (h : Regroups @permutable d d') :
      Regroups @permutable d' d

/-- Regrouped unions refer to the same definitions. -/
theorem Decoder.Regroups.unguarded_iff {permutable : {α : Type} → List (Decoder τ α) → Prop}
    {d d' : Decoder τ α} {i : ι} (h : d.Regroups permutable d') : d.Unguarded i ↔ d'.Unguarded i := by
  induction h with
  | nested before branches after => simp [unguarded_union, or_and_right, exists_or]
  | oneOf first others => exact Iff.rfl
  | repeated before between after d =>
    rw [unguarded_union, unguarded_union]
    refine exists_congr fun b => and_congr_left fun _ => ?_
    simp only [List.mem_append]
    tauto
  | permuted h _ =>
    rw [unguarded_union, unguarded_union]
    exact exists_congr fun b => and_congr_left fun _ => h.mem_iff
  | symm _ ih => exact ih.symm

/-- A table stays well guarded where unions are regrouped. -/
theorem Definitions.IsWellGuarded.of_regroups {defs defs' : Definitions τ}
    {law : {α : Type} → Decoder τ α → Decoder τ α → Prop}
    {permutable : {α : Type} → List (Decoder τ α) → Prop} (hguard : defs.IsWellGuarded)
    (hlaw : ∀ {α : Type} {d d' : Decoder τ α}, law d d' → d.Regroups permutable d')
    (hdefs : ∀ i, (defs i).Replaced law (defs' i)) : defs'.IsWellGuarded := by
  have hsame : ∀ i j, defs'.RefersUnguarded i j → defs.RefersUnguarded i j := fun i j =>
    ((hdefs i).unguarded_iff fun h => (hlaw h).unguarded_iff).2
  exact hguard.mono fun j i => hsame i j

end

/-! ## Exclusive branches -/

section

variable {ι : Type} [Numbered ι] {τ : ι → Type} {α : Type}

/-- A run of the decoder ends with a value, if enough calls may be nested. -/
def Decoder.Succeeds (defs : Definitions τ) (d : Decoder τ α) (v : Json) (p : Place) : Prop :=
  ∃ budget a, (d.runWithin defs budget v p).outcome = .value a

/-- A run of the decoder ends with an error, if enough calls may be nested. -/
def Decoder.Fails (defs : Definitions τ) (d : Decoder τ α) (v : Json) (p : Place) : Prop :=
  ∃ budget e, (d.runWithin defs budget v p).outcome = .error e

/-- No two of the branches succeed on one value at one place. -/
def Definitions.Disjoint (defs : Definitions τ) (branches : List (Decoder τ α)) : Prop :=
  branches.Pairwise fun d d' => ∀ v p, ¬ (d.Succeeds defs v p ∧ d'.Succeeds defs v p)

/-- Of any two branches at least one fails, whatever the value and the place. -/
def Definitions.Exclusive (defs : Definitions τ) (branches : List (Decoder τ α)) : Prop :=
  branches.Pairwise fun d d' => ∀ v p, d.Fails defs v p ∨ d'.Fails defs v p

variable {defs defs' : Definitions τ}

theorem Decoder.Fails.outcome_unbounded {d : Decoder τ α} {v : Json} {p : Place}
    (h : d.Fails defs v p) : ∃ e, (d.runner defs.unbounded v p).outcome = .error e := by
  obtain ⟨budget, e, h⟩ := h
  have hends : (d.runWithin defs budget v p).Ends := by
    intro hnot
    rw [h] at hnot
    cases hnot
  exact ⟨e, by rw [Decoder.runner_unbounded_of_ends hends, h]⟩

/-- Over a well-guarded table every run ends, so two branches of which not both succeed are two of
which one fails. -/
theorem Definitions.IsWellGuarded.exclusive (hguard : defs.IsWellGuarded)
    {branches : List (Decoder τ α)} (h : defs.Disjoint branches) : defs.Exclusive branches := by
  have hends : ∀ (d : Decoder τ α) v p, d.Succeeds defs v p ∨ d.Fails defs v p := by
    intro d v p
    obtain ⟨budget, hends⟩ := hguard.exists_runWithin_ends d v p
    cases ho : (d.runWithin defs budget v p).outcome with
    | value a => exact .inl ⟨budget, a, ho⟩
    | error e => exact .inr ⟨budget, e, ho⟩
    | endless => exact absurd ho hends
  refine h.imp fun {d d'} hd v p => ?_
  rcases hends d v p with hsucceeds | hfails
  · exact .inr ((hends d' v p).resolve_left fun h' => hd v p ⟨hsucceeds, h'⟩)
  · exact .inl hfails

/-! ## Regrouped unions agree -/

/-- Branches of which one of any two fails have one first success in any order. -/
theorem Definitions.Exclusive.agree_of_perm {branches branches' : List (Decoder τ α)}
    (h : defs.Exclusive branches) (hperm : branches.Perm branches') :
    (Decoder.union branches).Agree defs (Decoder.union branches') := by
  intro v p
  rw [Decoder.outcome_union, Decoder.outcome_union, List.foldr_map, List.foldr_map]
  refine hperm.foldr_eq' (fun d hd d' hd' o => ?_) _
  by_cases hsame : d = d'
  · rw [hsame]
  · refine Outcome.orElse_left_comm ?_ o
    have hsymm : Std.Symm fun d d' : Decoder τ α => ∀ v p, d.Fails defs v p ∨ d'.Fails defs v p :=
      ⟨fun d d' h v p => (h v p).symm⟩
    rcases h.forall hd' hd (Ne.symm hsame) v p with hfails | hfails
    · exact .inl hfails.outcome_unbounded
    · exact .inr hfails.outcome_unbounded

/-- Regrouped unions agree, if branches are permuted only where of any two one fails. -/
theorem Decoder.Regroups.agree {permutable : {α : Type} → List (Decoder τ α) → Prop}
    (hpermutable : ∀ {α : Type} {branches : List (Decoder τ α)}, permutable branches →
      defs.Exclusive branches) {d d' : Decoder τ α} (h : d.Regroups permutable d') :
    d.Agree defs d' := by
  induction h with
  | nested before branches after =>
    intro v p
    simp only [outcome_union, List.map_append, List.map_cons, List.map_nil, List.foldr_append,
      List.foldr_cons, List.foldr_nil, Outcome.foldr_orElse]
  | oneOf first others => exact fun v p => rfl
  | repeated before between after d =>
    intro v p
    simp only [outcome_union, List.map_append, List.map_cons, List.map_nil, List.foldr_append,
      List.foldr_cons, List.foldr_nil, Outcome.orElse_foldr_orElse]
  | permuted h hbranches => exact (hpermutable hbranches).agree_of_perm h
  | symm _ ih => exact fun v p => (ih v p).symm

/-! ## Decodes -/

/-- Branches that may be permuted where the second table takes the place of the first: recursion is
guarded and no two succeed, or of any two one fails, over either table. -/
def Definitions.MayPermute (defs defs' : Definitions τ) (branches : List (Decoder τ α)) : Prop :=
  (defs.IsWellGuarded ∧ defs.Disjoint branches) ∨ (defs.Exclusive branches ∧ defs'.Exclusive branches)

section

variable {law : {α : Type} → Decoder τ α → Decoder τ α → Prop}

/-- The two sides of a regrouping agree over the first table, and over the second as well. -/
theorem Decoder.agree_of_regroups
    (hlaw : ∀ {α : Type} {d d' : Decoder τ α}, law d d' → d.Regroups (defs.MayPermute defs') d')
    (hdefs : ∀ i, (defs i).Replaced law (defs' i)) {d d' : Decoder τ α} (h : law d d') :
    d.Agree defs d' ∧ d.Agree defs' d' := by
  have hagree : ∀ {α : Type} {d d' : Decoder τ α}, law d d' → d.Agree defs d' := fun h =>
    (hlaw h).agree fun hmay => by
      rcases hmay with ⟨hguard, hdisjoint⟩ | ⟨hexclusive, -⟩
      · exact hguard.exclusive hdisjoint
      · exact hexclusive
  refine ⟨hagree h, ?_⟩
  by_cases hguard : defs.IsWellGuarded
  · have hguard' := hguard.of_regroups hlaw hdefs
    exact Replaced.agree_of_ends hagree hdefs hguard'.runner_ends (hagree h)
  · refine (hlaw h).agree fun hmay => ?_
    rcases hmay with ⟨hguard', -⟩ | ⟨-, hexclusive⟩
    · exact absurd hguard' hguard
    · exact hexclusive

end

end

/-- With finitely many definitions, `decode` is the same but for what the regrouped unions tell, and
does not end where it did not. -/
theorem Decoder.decode_of_regrouped {n : Nat} {τ : Fin n → Type} {α : Type}
    {law : {α : Type} → Decoder τ α → Decoder τ α → Prop} {defs defs' : Definitions τ}
    (hlaw : ∀ {α : Type} {d d' : Decoder τ α}, law d d' → d.Regroups (defs.MayPermute defs') d')
    (hdefs : ∀ i, (defs i).Replaced law (defs' i)) {d d' : Decoder τ α} (h : d.Replaced law d')
    (options : Options) (v : Json) :
    ((d.decode defs options v).Ends ↔ (d'.decode defs' options v).Ends) ∧
      ((d.decode defs options v).Ends →
        (d.decode defs options v).SameBut (ToldByParts law defs defs')
          (d'.decode defs' options v)) := by
  have hafter : (d.decode defs options v).Ends → (d.decode defs options v).SameBut
      (ToldByParts law defs defs') (d'.decode defs' options v) := by
    intro hends
    obtain ⟨r', hr', hsame⟩ := h.exists_decodesTo (fun h => (agree_of_regroups hlaw hdefs h).2) hdefs
      (decodesTo_iff_decode.2 ⟨hends, rfl⟩)
    rwa [(decodesTo_iff_decode.1 hr').2]
  refine ⟨⟨fun hends => (hafter hends).ends hends, fun hends => ?_⟩, hafter⟩
  obtain ⟨r, hr, -⟩ := h.exists_decodesTo_before (fun h => (agree_of_regroups hlaw hdefs h).1)
    (fun h => (agree_of_regroups hlaw hdefs h).2) hdefs (decodesTo_iff_decode.2 ⟨hends, rfl⟩)
  rw [(decodesTo_iff_decode.1 hr).2]
  exact hr.1

/-- A definition has the values of its body, where it may be entered. -/
theorem Runner.enter_outcome_eq_value_iff {α : Type} {definition : Nat} {body : Runner α} {v : Json}
    {p : Place} {a : α} :
    (Runner.enter definition body v p).outcome = .value a ↔
      ¬ p.isTooDeep ∧ (body v p).outcome = .value a := by
  unfold Runner.enter
  split
  · next hp =>
    constructor
    · intro h
      cases h
    · exact fun h => absurd hp h.1
  · next hp => exact ⟨fun h => ⟨hp, h⟩, fun h => h.2⟩

end TypedJson
