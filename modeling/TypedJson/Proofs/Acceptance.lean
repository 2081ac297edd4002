import Mathlib.Data.List.NodupEquivFin
import TypedJson.Proofs.BlindSimulation
import TypedJson.Proofs.DepthLimit
import TypedJson.Proofs.WellGuarded

/-!
# Acceptance is monotone

Without continuations no value decides how a run goes on, so a run that comes further on one branch
cannot lead to a failure elsewhere.  A decoder accepts at least as much under a greater limit or
none, and with further alternatives at its unions, as long as its runs end
(`Decoder.Widened.runners`).  Which branch accepts, and with it the value, may be another.

The definitions have to be well guarded, for else what a limit refuses, or a new alternative, could
be a run without end.
-/

namespace TypedJson

/-! ## Accepting runs -/

namespace Run

variable {α β : Type} {r r' : Run α}

/-- Has the run a value? -/
def Accepts (r : Run α) : Prop := ∃ a, r.outcome = .value a

/-- Has the second run a value if the first has one, unless it does not end? -/
def StillAccepts (r r' : Run α) : Prop := r'.Ends → r.Accepts → r'.Accepts

theorem not_accepts_fail {path : Path} {reason : Reason} :
    ¬ (fail path reason : Run α).Accepts := by
  rintro ⟨a, h⟩
  cases h

theorem accepts_reportFailure : r.reportFailure.Accepts ↔ r.Accepts := by
  unfold Accepts
  rw [reportFailure_outcome]

theorem Accepts.ends (h : r.Accepts) : r.Ends := by
  obtain ⟨a, h⟩ := h
  intro h'
  rw [h] at h'
  cases h'

/-- A choice accepts if its first branch does, or if that fails and the others accept. -/
theorem accepts_orElse_iff {branch : Nat} {others : Unit → Run α} :
    (r.orElse branch others).Accepts ↔
      r.Accepts ∨ (∃ e, r.outcome = .error e) ∧ (others ()).Accepts := by
  rcases r with ⟨a | e | _, events⟩
  · simp [Accepts]
  · simp [Accepts]
  · simp [Accepts]

/-- If a choice ends, its first branch has a value, or fails and the others end. -/
theorem Ends.orElse_cases {branch : Nat} {others : Unit → Run α}
    (h : (r.orElse branch others).Ends) :
    r.Accepts ∨ (∃ e, r.outcome = .error e) ∧ (others ()).Ends := by
  rcases r with ⟨a | e | _, events⟩
  · exact .inl ⟨a, rfl⟩
  · exact .inr ⟨⟨e, rfl⟩, h⟩
  · exact absurd rfl h

namespace StillAccepts

theorem bind {next next' : α → Run β} (h : StillAccepts r r')
    (hnext : ∀ a a', r.outcome = .value a → r'.outcome = .value a' →
      StillAccepts (next a) (next' a')) : StillAccepts (r >>= next) (r' >>= next') := by
  rintro hends ⟨b, hb⟩
  obtain ⟨a, ha, hb⟩ := Run.outcome_of_bind hb
  obtain ⟨a', ha'⟩ := h hends.of_bind ⟨a, ha⟩
  rcases r' with ⟨_ | _ | _, events⟩
  · cases ha'
    exact hnext a a' ha rfl hends ⟨b, hb⟩
  · cases ha'
  · cases ha'

theorem orElse {others others' : Unit → Run α} (branch : Nat) (h : StillAccepts r r')
    (hothers : StillAccepts (others ()) (others' ())) :
    StillAccepts (r.orElse branch others) (r'.orElse branch others') := by
  intro hends haccepts
  rcases hends.orElse_cases with hfirst | ⟨herror, hends'⟩
  · exact accepts_orElse_iff.2 (.inl hfirst)
  · refine accepts_orElse_iff.2 ?_
    rcases accepts_orElse_iff.1 haccepts with hfirst | ⟨_, hsecond⟩
    · exact .inl (h hends.of_orElse hfirst)
    · exact .inr ⟨herror, hothers hends' hsecond⟩

end StillAccepts

end Run

/-! ## Unions -/

namespace Runner

variable {α : Type} {v : Json} {p : Place}

/-- If a union accepts, one of its branches does. -/
theorem exists_accepts_of_firstSuccess {branches : List (Runner α)} {i : Nat}
    (h : (firstSuccess v p i branches).Accepts) : ∃ r ∈ branches, (r v p).Accepts := by
  induction branches generalizing i with
  | nil => exact absurd h Run.not_accepts_fail
  | cons r rest ih =>
    rcases Run.accepts_orElse_iff.1 h with hfirst | ⟨_, hrest⟩
    · exact ⟨r, List.mem_cons_self, hfirst⟩
    · obtain ⟨r', hr', haccepts⟩ := ih hrest
      exact ⟨r', List.mem_cons_of_mem r hr', haccepts⟩

/-- If a union ends and one of its branches accepts unless it does not end, the union accepts: that
branch is tried, or an earlier one accepts. -/
theorem accepts_firstSuccess_of_mem {branches : List (Runner α)} {i : Nat} {r : Runner α}
    (hends : (firstSuccess v p i branches).Ends) (hr : r ∈ branches)
    (h : (r v p).Ends → (r v p).Accepts) : (firstSuccess v p i branches).Accepts := by
  induction branches generalizing i with
  | nil => cases hr
  | cons first rest ih =>
    refine Run.accepts_orElse_iff.2 ?_
    rcases hends.orElse_cases with hfirst | ⟨herror, hrest⟩
    · exact .inl hfirst
    · rcases List.mem_cons.1 hr with rfl | hr
      · exact .inl (h hends.of_orElse)
      · exact .inr ⟨herror, ih hrest hr⟩

end Runner

/-! ## The simulation -/

theorem Json.Matches.refl (v : Json) : Json.Matches Eq v v := by
  cases v with
  | null => exact .null
  | boolean b => exact .boolean b b
  | number n => exact .number n n
  | string s => exact .string s s
  | array vs => exact .array (List.forall₂_same.2 fun w _ => rfl)
  | object ms => exact .object (List.forall₂_same.2 fun m _ => ⟨rfl, rfl⟩)

/-- A value at places of one depth, the second with a limit that allows as much; the second run
still accepts. -/
def BlindSimulation.acceptance : BlindSimulation where
  allowed c := c ≠ .andThen
  values := Eq
  places p p' := p.depth = p'.depth ∧ LimitLE p.limit p'.limit
  runs := Run.StillAccepts
  not_andThen h := h rfl
  eq_of_contents _ _ _ h := h
  matches_of_values := by
    rintro v _ rfl
    exact .refl v
  child a h := ⟨congrArg (· + 1) h.1, h.2⟩
  pure a a' _ _ := ⟨a', rfl⟩
  bind := Run.StillAccepts.bind
  callback _ _ _ := ⟨(), rfl⟩
  fail _ _ _ _ h := absurd h Run.not_accepts_fail
  orElse := Run.StillAccepts.orElse
  enter := by
    intro α v v' p p' body body' definition hp hbody
    unfold Runner.enter
    by_cases hdeep : p.isTooDeep
    · rw [if_pos hdeep]
      rintro _ ⟨a, h⟩
      cases h
    · rw [if_neg hdeep, if_neg fun h => hdeep (hp.2.isTooDeep hp.1 h)]
      exact .bind (fun _ _ => ⟨(), rfl⟩) fun _ _ _ _ => hbody

/-! ## Further alternatives -/

section

variable {ι : Type} {τ : ι → Type}

/-- The second decoder is the first with further alternatives at any of its unions.  Every branch of
the first has its place among those of the second, wherever that is. -/
inductive Decoder.Widened : {α : Type} → Decoder τ α → Decoder τ α → Prop where
  | same {α : Type} (d : Decoder τ α) : Widened d d
  | array {α : Type} {element element' : Decoder τ α} (h : Widened element element') :
      Widened (.array element) (.array element')
  | tuple {k : Nat} {σ : Fin k → Type} {positions positions' : (i : Fin k) → Decoder τ (σ i)}
      (h : ∀ i, Widened (positions i) (positions' i)) :
      Widened (.tuple positions) (.tuple positions')
  | object {k : Nat} {σ : Fin k → Type} {α : Type} {keys : Fin k → String}
      {fields fields' : (i : Fin k) → Decoder τ (σ i)} {construct : ((i : Fin k) → σ i) → α}
      (h : ∀ i, Widened (fields i) (fields' i)) :
      Widened (.object keys fields construct) (.object keys fields' construct)
  | dict {α : Type} {value value' : Decoder τ α} (h : Widened value value') :
      Widened (.dict value) (.dict value')
  | atPath {α : Type} {path : Path} {inner inner' : Decoder τ α} (h : Widened inner inner') :
      Widened (.atPath path inner) (.atPath path inner')
  | alternatives {α : Type} {k k' : Nat} {branches : Fin k → Decoder τ α}
      {branches' : Fin k' → Decoder τ α} (place : Fin k → Fin k')
      (h : ∀ j, Widened (branches j) (branches' (place j))) :
      Widened (.alternatives branches) (.alternatives branches')
  | transform {α β : Type} {label : Option String} {f : α → β} {inner inner' : Decoder τ α}
      (h : Widened inner inner') : Widened (.transform label f inner) (.transform label f inner')

/-- Alternatives that are put between the others of a union, or around them, widen it. -/
theorem Decoder.widened_union {α : Type} {branches branches' : List (Decoder τ α)}
    (h : branches.Sublist branches') : (union branches).Widened (union branches') := by
  obtain ⟨place, hplace⟩ := List.sublist_iff_exists_fin_orderEmbedding_get_eq.1 h
  refine .alternatives place fun j => ?_
  rw [← hplace j]
  exact .same (branches.get j)

variable [Numbered ι] {α : Type}

/-- A widened decoder still accepts if the definitions it calls do. -/
theorem Decoder.Widened.runners {call call' : (i : ι) → Runner (τ i)}
    (hcall : ∀ i, BlindSimulation.acceptance.runners (call i) (call' i)) {d d' : Decoder τ α}
    (h : d.Widened d') (hd : d.BuiltFrom (· ≠ .andThen)) :
    BlindSimulation.acceptance.runners (d.runner call) (d'.runner call') := by
  induction h with
  | same d => exact BlindSimulation.acceptance.runner hcall d hd
  | array _ ih => exact BlindSimulation.acceptance.array (ih hd.2)
  | tuple _ ih => exact BlindSimulation.acceptance.tuple fun i => ih i (hd.2 i)
  | object _ ih => exact BlindSimulation.acceptance.object fun i => ih i (hd.2 i)
  | dict _ ih => exact BlindSimulation.acceptance.dict (ih hd.2)
  | @atPath _ path _ _ _ ih => exact BlindSimulation.acceptance.atPath (ih hd.2) path
  | @alternatives α k k' branches branches' place _ ih =>
    intro v v' p p' hv hp hends haccepts
    obtain ⟨r, hr, haccepts⟩ := Runner.exists_accepts_of_firstSuccess haccepts
    obtain ⟨j, rfl⟩ := List.mem_ofFn.1 hr
    refine Runner.accepts_firstSuccess_of_mem hends (List.mem_ofFn.2 ⟨place j, rfl⟩) ?_
    exact fun hends => ih j (hd.2 j) hv hp hends haccepts
  | @transform _ _ label f _ _ _ ih => exact BlindSimulation.acceptance.transform label f (ih hd.2)

theorem Definitions.call_stillAccepts {defs defs' : Definitions τ}
    (hdefs : ∀ i, (defs i).BuiltFrom (· ≠ .andThen)) (h : ∀ i, (defs i).Widened (defs' i))
    (budget budget' : Nat) (i : ι) :
    BlindSimulation.acceptance.runners (defs.call budget i) (defs'.call budget' i) := by
  induction budget generalizing budget' i with
  | zero =>
    intro _ _ _ _ _ _ _ haccepts
    exact absurd rfl haccepts.ends
  | succ budget ih =>
    cases budget' with
    | zero =>
      intro _ _ _ _ _ _ hends
      exact absurd rfl hends
    | succ budget' => exact (h i).runners (fun j => ih budget' j) (hdefs i)

/-! ## Decodes -/

/-- The decode has a value, if enough calls may be nested. -/
def Decoder.Accepts (defs : Definitions τ) (d : Decoder τ α) (options : Options) (v : Json) :
    Prop :=
  ∃ budget, (d.decodeWithin defs budget options v).Accepts

/-- With finitely many definitions, the decode itself has a value if one with any budget has. -/
theorem Decoder.accepts_iff_decode {n : Nat} {τ : Fin n → Type} {defs : Definitions τ}
    {d : Decoder τ α} {options : Options} {v : Json} :
    d.Accepts defs options v ↔ (d.decode defs options v).Accepts := by
  constructor
  · rintro ⟨budget, h⟩
    rwa [Decoder.decode_eq_decodeWithin h.ends]
  · exact fun h => ⟨defs.budget v, h⟩

/-- A widened decoder accepts what the decoder does, also under options that limit it less. -/
theorem Decoder.accepts_of_widened {defs defs' : Definitions τ}
    (hdefs : ∀ i, (defs i).BuiltFrom (· ≠ .andThen)) (hguard : defs'.IsWellGuarded)
    (hwiden : ∀ i, (defs i).Widened (defs' i)) {d d' : Decoder τ α}
    (hd : d.BuiltFrom (· ≠ .andThen)) (h : d.Widened d')
    {options options' : Options} (hlimit : LimitLE options.maxDepth options'.maxDepth) {v : Json}
    (haccepts : d.Accepts defs options v) : d'.Accepts defs' options' v := by
  obtain ⟨budget, haccepts⟩ := haccepts
  obtain ⟨budget', hends⟩ := hguard.exists_runWithin_ends d' v (Place.root options'.maxDepth)
  have hrun := h.runners (Definitions.call_stillAccepts hdefs hwiden budget budget') hd
  have hplaces : BlindSimulation.acceptance.places (Place.root options.maxDepth)
      (Place.root options'.maxDepth) := ⟨rfl, hlimit⟩
  refine ⟨budget', Run.accepts_reportFailure.2 ?_⟩
  exact hrun rfl hplaces hends (Run.accepts_reportFailure.1 haccepts)

/-- **Acceptance is monotone without continuations.**  What a decoder over well-guarded definitions
accepts under a limit, it accepts under every greater one and under none; and with further
alternatives anywhere in it and in its definitions, as long as they stay well guarded and without
continuations, it accepts under all options what it accepted before. -/
theorem Decoder.accepts_mono (defs : Definitions τ) (hdefs : ∀ i, (defs i).BuiltFrom (· ≠ .andThen))
    (hguard : defs.IsWellGuarded) (d : Decoder τ α) (hd : d.BuiltFrom (· ≠ .andThen)) (v : Json) :
    (∀ n, d.Accepts defs (Options.unlimited.withMaxDepth n) v →
      d.Accepts defs .unlimited v ∧
        ∀ m, n ≤ m → d.Accepts defs (Options.unlimited.withMaxDepth m) v) ∧
    ∀ (defs' : Definitions τ) (d' : Decoder τ α), (∀ i, (defs i).Widened (defs' i)) →
      d.Widened d' → (∀ i, (defs' i).BuiltFrom (· ≠ .andThen)) → d'.BuiltFrom (· ≠ .andThen) →
      defs'.IsWellGuarded →
      ∀ options, d.Accepts defs options v → d'.Accepts defs' options v := by
  constructor
  · intro n haccepts
    have hrelax : ∀ limit, LimitLE (some n) limit → d.Accepts defs ⟨limit⟩ v := fun limit hlimit =>
      Decoder.accepts_of_widened hdefs hguard (fun i => .same (defs i)) hd (.same d) hlimit haccepts
    refine ⟨hrelax none ?_, fun m hm => hrelax (some m) ?_⟩
    · intro m hm
      cases hm
    · intro m' hm'
      cases hm'
      exact ⟨n, rfl, hm⟩
  · intro defs' d' hwiden h hdefs' hd' hguard' options haccepts
    refine Decoder.accepts_of_widened hdefs hguard' hwiden hd h ?_ haccepts
    intro m hm
    exact ⟨m, hm, Nat.le_refl m⟩

end

/-- How many booleans stand in arrays in each other, where a flag may also be one of `others`. -/
def countedFlags (others : List (Decoder (fun _ : Fin 1 => Nat) Nat)) :
    Definitions fun _ : Fin 1 => Nat := fun i =>
  .oneOf (Decoder.boolean.map fun _ => 1)
    (others ++ [(Decoder.array (.ref i)).map fun counts => counts.foldl (· + ·) 0])

theorem countedFlags_builtFrom {others : List (Decoder (fun _ : Fin 1 => Nat) Nat)}
    (h : ∀ d ∈ others, d.BuiltFrom (· ≠ .andThen)) (i : Fin 1) :
    (countedFlags others i).BuiltFrom (· ≠ .andThen) := by
  refine Decoder.builtFrom_union.2 ⟨nofun, fun d hd => ?_⟩
  simp only [List.mem_cons, List.mem_append, List.not_mem_nil, or_false] at hd
  rcases hd with rfl | hd | rfl
  · exact ⟨nofun, nofun⟩
  · exact h d hd
  · exact ⟨nofun, nofun, nofun⟩

theorem countedFlags_isWellGuarded {others : List (Decoder (fun _ : Fin 1 => Nat) Nat)}
    (h : ∀ d ∈ others, ∀ i, ¬ d.Unguarded i) : (countedFlags others).IsWellGuarded := by
  refine Definitions.isWellGuarded_of_not_unguarded fun i j hj => ?_
  obtain ⟨d, hd, hj⟩ := Decoder.unguarded_union.1 hj
  simp only [List.mem_cons, List.mem_append, List.not_mem_nil, or_false] at hd
  rcases hd with rfl | hd | rfl
  · exact hj
  · exact h d hd j hj
  · exact hj

/-- A boolean two arrays down, under the least limit that accepts it; then under a greater one,
under none, and with null as a further alternative between the two. -/
theorem countedFlags_accepts_more :
    let d : Decoder (fun _ : Fin 1 => Nat) Nat := .ref 0
    let v : Json := .array [.array [.boolean true]]
    let orNull := countedFlags [Decoder.null.map fun _ => 0]
    let limited := Options.unlimited.withMaxDepth 2
    ((∀ i, (countedFlags [] i).BuiltFrom (· ≠ .andThen)) ∧ (countedFlags []).IsWellGuarded ∧
      d.BuiltFrom (· ≠ .andThen) ∧ d.Accepts (countedFlags []) limited v) ∧
    (d.Accepts (countedFlags []) .unlimited v ∧
      2 ≤ 7 ∧ d.Accepts (countedFlags []) (Options.unlimited.withMaxDepth 7) v) ∧
    ((∀ i, (countedFlags [] i).Widened (orNull i)) ∧ d.Widened d ∧
      (∀ i, (orNull i).BuiltFrom (· ≠ .andThen)) ∧ orNull.IsWellGuarded) ∧
    d.Accepts orNull limited v := by
  intro d v orNull limited
  have hdefs : ∀ i, (countedFlags [] i).BuiltFrom (· ≠ .andThen) := countedFlags_builtFrom nofun
  have hguard : (countedFlags []).IsWellGuarded := countedFlags_isWellGuarded nofun
  have hd : d.BuiltFrom (· ≠ .andThen) := nofun
  have haccepts : d.Accepts (countedFlags []) limited v := ⟨3, 1, rfl⟩
  have hwiden : ∀ i, (countedFlags [] i).Widened (orNull i) := fun i =>
    Decoder.widened_union (.cons_cons _ (.cons _ (.refl _)))
  have hdefs' : ∀ i, (orNull i).BuiltFrom (· ≠ .andThen) := by
    refine countedFlags_builtFrom fun d hd => ?_
    obtain rfl := List.mem_singleton.1 hd
    exact ⟨nofun, nofun⟩
  have hguard' : orNull.IsWellGuarded := by
    refine countedFlags_isWellGuarded fun d hd i h => ?_
    obtain rfl := List.mem_singleton.1 hd
    exact h
  have hmono := Decoder.accepts_mono (countedFlags []) hdefs hguard d hd v
  have hrelaxed := hmono.1 2 haccepts
  exact ⟨⟨hdefs, hguard, hd, haccepts⟩, ⟨hrelaxed.1, by decide, hrelaxed.2 7 (by decide)⟩,
    ⟨hwiden, .same d, hdefs', hguard'⟩,
    hmono.2 orNull d hwiden (.same d) hdefs' hd hguard' limited haccepts⟩

end TypedJson
