import TypedJson.Proofs.Simulation

/-!
# What a depth limit changes

A limit is seen only where a definition is refused, because its place is too deep.  Where none is,
a greater limit or no limit makes no difference at all (`Simulation.relaxed`).  Without unions a
refusal cannot be swallowed either: the run has gone like the unlimited one, and ends with an error
that says that the depth is exceeded (`Simulation.cutShort`).

The event `refused` only marks the place of a refusal in a run; a decode does not tell of it.  The
budget of a decode does not depend on the limit, so the runs compared here have the same.
-/

namespace TypedJson

/-! ## Places under another limit -/

/-- The place with another limit. -/
def Place.withLimit (p : Place) (limit : Option Nat) : Place := { p with limit }

/-- The second limit allows what the first does. -/
def LimitLE (limit limit' : Option Nat) : Prop := ∀ m, limit' = some m → ∃ n, limit = some n ∧ n ≤ m

theorem LimitLE.isTooDeep {p p' : Place} (h : LimitLE p.limit p'.limit)
    (hdepth : p.depth = p'.depth) (hdeep : p'.isTooDeep) : p.isTooDeep := by
  unfold Place.isTooDeep at hdeep ⊢
  cases hlimit : p'.limit with
  | none =>
    rw [hlimit] at hdeep
    cases hdeep
  | some m =>
    obtain ⟨n, hn, hle⟩ := h m hlimit
    rw [hlimit] at hdeep
    have hlt : m < p'.depth := of_decide_eq_true hdeep
    rw [hn]
    exact decide_eq_true (by omega : n < p.depth)

theorem Place.lt_length_of_isTooDeep {p : Place} {n : Nat} (hp : p.limit = some n)
    (h : p.isTooDeep) : n < p.path.length := by
  unfold Place.isTooDeep at h
  rw [hp] at h
  rw [← p.depth_eq]
  exact of_decide_eq_true h

/-- A place with a limit and the same place with a greater one or none; runs that are the same
unless a refusal, which is deeper than the limit, makes the difference. -/
def Difference.underLimit {allowed : Combinator → Prop} (D : Difference allowed) (n : Nat)
    (limit : Option Nat) (hlimit : ∀ m, limit = some m → n ≤ m)
    (hrefused : ∀ {α : Type} {path : Path} (definition : Nat) (r' : Run α), n < path.length →
      D.between ⟨.error ⟨path, .message "max depth exceeded"⟩, [.refused definition]⟩ r') :
    Simulation :=
  D.simulation (fun _ p p' => p.limit = some n ∧ p' = p.withLimit limit)
    (by
      rintro v w p _ a ⟨hp, rfl⟩ _
      exact ⟨hp, rfl⟩)
    (by
      rintro v p _ ⟨_, rfl⟩
      rfl)
    (by
      rintro v p _ ⟨hp, rfl⟩
      by_cases hdeep : p.isTooDeep
      · right
        intro α definition body body'
        have henter : Runner.enter definition body v p =
            ⟨.error ⟨p.path, .message "max depth exceeded"⟩, [.refused definition]⟩ := by
          unfold Runner.enter
          rw [if_pos hdeep]
          rfl
        rw [henter]
        exact hrefused definition _ (Place.lt_length_of_isTooDeep hp hdeep)
      · left
        have hle : LimitLE p.limit (p.withLimit limit).limit := fun m hm => ⟨n, hp, hlimit m hm⟩
        have hfree : ¬ (p.withLimit limit).isTooDeep := fun h => hdeep (hle.isTooDeep rfl h)
        rw [Bool.eq_false_iff.2 hdeep, Bool.eq_false_iff.2 hfree])

/-! ## Without a refusal -/

/-- Has a definition been refused during the run? -/
def Run.Refuses {α : Type} (r : Run α) : Prop := ∃ definition, .refused definition ∈ r.events

/-- The first run refuses a definition. -/
def Difference.refused : Difference fun _ => True where
  between r _ := r.Refuses
  bind := by
    rintro α β r r' next next' ⟨definition, h⟩
    exact ⟨definition, Run.mem_events_bind.2 (.inl h)⟩
  value_bind := by
    rintro α β a events next next' ⟨definition, h⟩
    exact ⟨definition, Run.mem_events_bind.2 (.inr ⟨a, rfl, h⟩)⟩
  orElse := by
    rintro _ α r r' others others' branch ⟨definition, h⟩
    exact ⟨definition, Run.mem_events_orElse.2 (.inl h)⟩
  error_orElse := by
    rintro _ α e events others others' branch ⟨definition, h⟩
    exact ⟨definition, Run.mem_events_orElse.2 (.inr ⟨e, rfl, .inr h⟩)⟩

/-- Runs that are the same under a greater limit or none, unless the first refuses a definition. -/
def Simulation.relaxed (n : Nat) (limit : Option Nat) (hlimit : ∀ m, limit = some m → n ≤ m) :
    Simulation :=
  Difference.refused.underLimit n limit hlimit fun definition _ _ =>
    ⟨definition, List.mem_cons_self⟩

theorem Run.refuses_reportFailure {α : Type} {r : Run α} :
    r.reportFailure.Refuses ↔ r.Refuses := by
  rcases r with ⟨a | e | _, events⟩
  · rfl
  · simp [Run.Refuses, Run.reportFailure]
  · rfl

/-! ## Without unions -/

/-- The run stops where a definition is refused, deeper than `n`, and the other run has told the
same until then. -/
def Run.CutShort {α : Type} (n : Nat) (r r' : Run α) : Prop :=
  ∃ path definition before, n < path.length ∧ before <+: r'.events ∧
    r = ⟨.error ⟨path, .message "max depth exceeded"⟩, before ++ [.refused definition]⟩

/-- The first run is cut short.  Choice is excluded: a union would go on with another branch. -/
def Difference.cutShort (n : Nat) : Difference (· ≠ .alternatives) where
  between := Run.CutShort n
  bind := by
    rintro α β r r' next next' ⟨path, definition, before, hpath, hbefore, rfl⟩
    refine ⟨path, definition, before, hpath, hbefore.trans ?_, rfl⟩
    rcases r' with ⟨a | e | _, events⟩
    · exact List.prefix_append _ _
    · exact List.prefix_rfl
    · exact List.prefix_rfl
  value_bind := by
    rintro α β a events next next' ⟨path, definition, before, hpath, hbefore, heq⟩
    refine ⟨path, definition, events ++ before, hpath, ?_, ?_⟩
    · rw [Run.value_bind]
      exact (List.prefix_append_right_inj events).2 hbefore
    · rw [Run.value_bind, heq, List.append_assoc]
  orElse hallowed := absurd rfl hallowed
  error_orElse hallowed := absurd rfl hallowed

/-- Runs that are the same without the limit, unless the first is cut short by it. -/
def Simulation.cutShort (n : Nat) : Simulation :=
  (Difference.cutShort n).underLimit n none
    (by
      intro m hm
      cases hm)
    fun definition _ hpath => ⟨_, definition, [], hpath, List.nil_prefix, rfl⟩

/-! ## Decodes -/

section

variable {ι : Type} [Numbered ι] {τ : ι → Type} {α : Type}

theorem Decoder.decodeWithin_eq_or_refuses (defs : Definitions τ) (budget : Nat)
    (d : Decoder τ α) (v : Json) {n : Nat} {limit : Option Nat}
    (hlimit : ∀ m, limit = some m → n ≤ m) :
    (d.decodeWithin defs budget ⟨some n⟩ v).Refuses ∨
      d.decodeWithin defs budget ⟨some n⟩ v = d.decodeWithin defs budget ⟨limit⟩ v := by
  have hrun := (Simulation.relaxed n limit hlimit).runWithin (fun i => (defs i).builtFrom_all)
    (.inl rfl) budget d.builtFrom_all (v := v) (p := Place.root (some n)) ⟨rfl, rfl⟩
  rcases hrun with h | h
  · right
    exact congrArg Run.reportFailure h
  · exact .inl (Run.refuses_reportFailure.2 h)

theorem Run.prefix_reportFailure (r : Run α) : r.events <+: r.reportFailure.events := by
  rcases r with ⟨a | e | _, events⟩
  · exact List.prefix_rfl
  · exact List.prefix_append _ _
  · exact List.prefix_rfl

/-- What a decode under a limit is to the one without, if the limit is the only reason to differ:
the same, or cut short by an error that tells of a place deeper than the limit. -/
def Run.SameUpToLimit (n : Nat) (limited unlimited : Run α) : Prop :=
  limited = unlimited ∨
    ∃ path definition before, n < path.length ∧ before <+: unlimited.events ∧
      limited =
        ⟨.error ⟨path, .message "max depth exceeded"⟩,
          before ++ [.refused definition, .failed ⟨path, .message "max depth exceeded"⟩]⟩

theorem Decoder.decodeWithin_sameUpToLimit {defs : Definitions τ}
    (hdefs : ∀ i, (defs i).BuiltFrom (· ≠ .alternatives)) (budget : Nat) {d : Decoder τ α}
    (hd : d.BuiltFrom (· ≠ .alternatives)) (v : Json) (n : Nat) :
    (d.decodeWithin defs budget ⟨some n⟩ v).SameUpToLimit n
      (d.decodeWithin defs budget ⟨none⟩ v) := by
  have hrun := (Simulation.cutShort n).runWithin hdefs (.inl rfl) budget hd (v := v)
    (p := Place.root (some n)) ⟨rfl, rfl⟩
  rcases hrun with h | ⟨path, definition, before, hpath, hbefore, h⟩
  · left
    exact congrArg Run.reportFailure h
  · right
    refine ⟨path, definition, before, hpath, hbefore.trans (Run.prefix_reportFailure _), ?_⟩
    show (d.runWithin defs budget v (Place.root (some n))).reportFailure = _
    rw [h]
    exact congrArg (Run.mk _) (List.append_assoc before _ _)

/-- **A limit changes nothing until it refuses a definition, and then it is visible.**  A decode
that refuses nothing is the same with every greater limit and with none.  Without unions it is the
same without a limit, or the limit is what the error tells of, and until then it tells what the
unlimited decode tells first; so neither a value nor an error about shape is due to a limit. -/
theorem Decoder.decode_under_limit (defs : Definitions τ) (budget : Nat) (d : Decoder τ α)
    (v : Json) (n : Nat) :
    let limited := d.decodeWithin defs budget (Options.unlimited.withMaxDepth n) v
    let unlimited := d.decodeWithin defs budget Options.unlimited v
    ((∀ definition, .refused definition ∉ limited.events) →
      limited = unlimited ∧
        ∀ m, n ≤ m →
          d.decodeWithin defs budget (Options.unlimited.withMaxDepth m) v = limited) ∧
    (d.BuiltFrom (· ≠ .alternatives) → (∀ i, (defs i).BuiltFrom (· ≠ .alternatives)) →
      limited.SameUpToLimit n unlimited ∧
        (∀ a, limited.outcome = .value a → unlimited.outcome = .value a) ∧
        ∀ e, limited.outcome = .error e → e.reason.message? = none →
          unlimited.outcome = .error e) := by
  intro limited unlimited
  constructor
  · intro hnone
    have hsame : ∀ limit, (∀ m, limit = some m → n ≤ m) →
        limited = d.decodeWithin defs budget ⟨limit⟩ v := by
      intro limit hlimit
      rcases Decoder.decodeWithin_eq_or_refuses defs budget d v hlimit with h | h
      · obtain ⟨definition, h⟩ := h
        exact absurd h (hnone definition)
      · exact h
    refine ⟨hsame none ?_, fun m hm => (hsame (some m) ?_).symm⟩
    · intro m hm
      cases hm
    · intro m' hm'
      cases hm'
      exact hm
  · intro hd hdefs
    have hlimit : limited.SameUpToLimit n unlimited :=
      Decoder.decodeWithin_sameUpToLimit hdefs budget hd v n
    refine ⟨hlimit, ?_, ?_⟩
    · intro a ha
      rcases hlimit with h | ⟨path, definition, before, _, _, h⟩
      · rw [← h]
        exact ha
      · rw [h] at ha
        cases ha
    · intro e he hshape
      rcases hlimit with h | ⟨path, definition, before, _, _, h⟩
      · rw [← h]
        exact he
      · rw [h] at he
        cases he
        cases hshape

end

/-- Three arrays in each other, under a limit that refuses nothing and under one that refuses the
innermost. -/
theorem nestedArrays_decode_under_limit :
    let d : Decoder (fun _ : Fin 1 => Nat) Nat := .ref 0
    let v : Json := .array [.array [.array []]]
    let decode options := d.decodeWithin nestedArrays 3 options v
    ((∀ definition, .refused definition ∉ (decode (Options.unlimited.withMaxDepth 2)).events) ∧
      decode (Options.unlimited.withMaxDepth 2) = decode .unlimited ∧
      2 ≤ 5 ∧ decode (Options.unlimited.withMaxDepth 5) =
        decode (Options.unlimited.withMaxDepth 2)) ∧
    (d.BuiltFrom (· ≠ .alternatives) ∧ (∀ i, (nestedArrays i).BuiltFrom (· ≠ .alternatives)) ∧
      (decode (Options.unlimited.withMaxDepth 1)).SameUpToLimit 1 (decode .unlimited)) := by
  intro d v decode
  have hnone : ∀ definition,
      .refused definition ∉ (decode (Options.unlimited.withMaxDepth 2)).events := by
    intro definition h
    have hevents : (decode (Options.unlimited.withMaxDepth 2)).events =
        [.entered 0, .entered 0, .entered 0, .transformed none, .transformed none,
          .transformed none] := rfl
    rw [hevents] at h
    simp at h
  have hd : d.BuiltFrom (· ≠ .alternatives) := by
    intro h
    cases h
  have hdefs : ∀ i, (nestedArrays i).BuiltFrom (· ≠ .alternatives) := by
    intro i
    simp [nestedArrays, Decoder.map, Decoder.BuiltFrom]
  have hsame := (Decoder.decode_under_limit nestedArrays 3 d v 2).1 hnone
  have hcut := (Decoder.decode_under_limit nestedArrays 3 d v 1).2 hd hdefs
  exact ⟨⟨hnone, hsame.1, by decide, hsame.2 5 (by decide)⟩, hd, hdefs, hcut.1⟩

end TypedJson
