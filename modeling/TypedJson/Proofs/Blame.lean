import TypedJson.Proofs.Simulation

/-!
# Errors point into the input

Every error that a run reports, the one it fails with or the one of a rejected branch, stands at a
path that can be followed in the input.  What the error says of the value there is true: its kind is
the one found, and an object lacks the keys that are missing.  Only a tuple that is longer than its
array blames a place that is not there, at an index past the end.

The invariant is that the path of the place at hand leads from the root to the value at hand
(`blame`, field `places`); objects have to be well formed, for else a key may stand for two members.
-/

namespace TypedJson

/-! ## Statements about errors -/

/-- The run fails with the error, or one of its branches did and was rejected. -/
def Run.Reports {α : Type} (r : Run α) (e : DecodeError) : Prop :=
  r.outcome = .error e ∨ ∃ branch, .rejected branch e ∈ r.events

namespace DecodeError

/-- The path leads to a value of the kind found, and to an object without the missing keys. -/
def DescribesValue (e : DecodeError) (root : Json) (p : Path) : Prop :=
  ∃ w, root.resolve? p = some w ∧
    (∀ got, e.reason.got? = some got → got = w.kind.name) ∧
    ∀ keys, e.reason = .missingKeys keys →
      ∃ ms, w = .object ms ∧ ∀ key ∈ keys, Members.find? key ms = none

/-- The path leads to an index past the end of an array, and the error says so. -/
def DescribesMissingPosition (e : DecodeError) (root : Json) (p : Path) : Prop :=
  ∃ q i vs, p = q ++ [.index i] ∧ root.resolve? q = some (.array vs) ∧ vs.length ≤ i ∧
    e.reason.expected? = some ("array with index " ++ Nat.repr i) ∧
    e.reason.got? = some "array"

/-- The location is the text of a path that the error speaks truly about. -/
def PointsInto (e : DecodeError) (root : Json) : Prop :=
  ∃ p : Path, e.location = p.text ∧ (e.DescribesValue root p ∨ e.DescribesMissingPosition root p)

/-- What a combinator finds wrong with a value of the input points into the input. -/
theorem pointsInto_of_fault {root v : Json} {q t : Path} {reason : Reason}
    (hv : root.resolve? q = some v) (hfault : v.Fault t reason) :
    PointsInto ⟨q ++ t, reason⟩ root := by
  refine ⟨q ++ t, rfl, ?_⟩
  cases hfault with
  | mismatch expected =>
    rw [List.append_nil]
    refine .inl ⟨v, hv, ?_, ?_⟩
    · intro got hgot
      exact (Option.some.inj hgot).symm
    · intro keys hkeys
      cases hkeys
  | message text =>
    rw [List.append_nil]
    refine .inl ⟨v, hv, ?_, ?_⟩
    · intro got hgot
      cases hgot
    · intro keys hkeys
      cases hkeys
  | @missingKeys ms keys h =>
    rw [List.append_nil]
    refine .inl ⟨.object ms, hv, ?_, ?_⟩
    · intro got hgot
      cases hgot
    · intro keys' hkeys'
      cases hkeys'
      exact ⟨ms, rfl, h⟩
  | @missingPosition vs i h =>
    exact .inr ⟨q, i, vs, rfl, hv, List.getElem?_eq_none_iff.1 h, rfl, rfl⟩

end DecodeError

/-! ## Reports of runs -/

namespace Run

variable {α β : Type}

theorem not_reports_pure (a : α) (e : DecodeError) : ¬ (pure a : Run α).Reports e := by
  rintro (h | ⟨branch, h⟩)
  · cases h
  · cases h

theorem not_reports_endless (e : DecodeError) : ¬ (endless : Run α).Reports e := by
  rintro (h | ⟨branch, h⟩)
  · cases h
  · cases h

theorem reports_fail {path : Path} {reason : Reason} {e : DecodeError} :
    (fail path reason : Run α).Reports e ↔ e = ⟨path, reason⟩ := by
  constructor
  · rintro (h | ⟨branch, h⟩)
    · cases h
      rfl
    · cases h
  · rintro rfl
    exact .inl rfl

theorem not_reports_emit {event : Event} (h : ∀ branch e, event ≠ .rejected branch e)
    (e : DecodeError) : ¬ (emit event).Reports e := by
  rintro (h' | ⟨branch, h'⟩)
  · cases h'
  · exact h branch e (List.mem_singleton.1 h').symm

theorem Reports.of_bind {r : Run α} {next : α → Run β} {e : DecodeError}
    (h : (r >>= next).Reports e) : r.Reports e ∨ ∃ a, (next a).Reports e := by
  rcases r with ⟨a | f | _, events⟩
  · rcases h with h | ⟨branch, h⟩
    · exact .inr ⟨a, .inl h⟩
    · rcases List.mem_append.1 h with h | h
      · exact .inl (.inr ⟨branch, h⟩)
      · exact .inr ⟨a, .inr ⟨branch, h⟩⟩
  · left
    rcases h with h | h
    · left
      cases h
      rfl
    · exact .inr h
  · left
    rcases h with h | h
    · cases h
    · exact .inr h

theorem Reports.of_orElse {r : Run α} {others : Unit → Run α} {branch : Nat} {e : DecodeError}
    (h : (r.orElse branch others).Reports e) : r.Reports e ∨ (others ()).Reports e := by
  rcases r with ⟨a | f | _, events⟩
  · exact .inl h
  · rcases h with h | ⟨b, h⟩
    · exact .inr (.inl h)
    · rcases List.mem_append.1 h with h | h
      · exact .inl (.inr ⟨b, h⟩)
      · rcases List.mem_cons.1 h with h | h
        · cases h
          exact .inl (.inl rfl)
        · exact .inr (.inr ⟨b, h⟩)
  · exact .inl h

theorem reports_reportFailure {r : Run α} {e : DecodeError} :
    r.reportFailure.Reports e ↔ r.Reports e := by
  rcases r with ⟨a | f | _, events⟩
  · rfl
  · simp [Reports, reportFailure]
  · rfl

end Run

/-! ## The invariant -/

theorem Members.find?_eq_some_of_mem {ms : Members} (h : (Members.keys ms).Pairwise (· < ·))
    {key : String} {w : Json} (hw : (key, w) ∈ ms) : Members.find? key ms = some w := by
  induction ms with
  | nil => cases hw
  | cons m ms ih =>
    obtain ⟨k, v⟩ := m
    rw [Members.keys, List.map_cons, List.pairwise_cons] at h
    rw [Members.find?]
    rcases List.mem_cons.1 hw with hw | hw
    · cases hw
      rw [if_pos rfl]
    · have hlt := h.1 key (List.mem_map_of_mem hw)
      rw [if_neg (String.ne_of_lt hlt)]
      exact ih h.2 hw

theorem Json.ElementsWellFormed.of_mem {vs : List Json} (h : Json.ElementsWellFormed vs)
    {w : Json} (hw : w ∈ vs) : w.WellFormed := by
  induction vs with
  | nil => cases hw
  | cons v vs ih =>
    rcases List.mem_cons.1 hw with rfl | hw
    · exact h.1
    · exact ih h.2 hw

theorem Json.MembersWellFormed.of_mem {ms : Members} (h : Json.MembersWellFormed ms)
    {key : String} {w : Json} (hw : (key, w) ∈ ms) : w.WellFormed := by
  induction ms with
  | nil => cases hw
  | cons m ms ih =>
    rcases List.mem_cons.1 hw with hw | hw
    · cases hw
      exact h.1
    · exact ih h.2 hw

/-- In a well-formed value an accessor leads to one child only. -/
theorem Json.Child.get?_eq_some {v w : Json} {a : Accessor} (h : v.Child a w)
    (hv : v.WellFormed) : v.get? a = some w ∧ w.WellFormed := by
  cases h with
  | element h => exact ⟨h, Json.ElementsWellFormed.of_mem hv (List.mem_of_getElem? h)⟩
  | member h => exact ⟨Members.find?_eq_some_of_mem hv.1 h, Json.MembersWellFormed.of_mem hv.2 h⟩

theorem Json.WellFormed.resolve? {v w : Json} {t : Path} (hv : v.WellFormed)
    (h : v.resolve? t = some w) : w.WellFormed := by
  induction t generalizing v with
  | nil =>
    cases h
    exact hv
  | cons a t ih =>
    obtain ⟨u, hu, hw⟩ := Option.bind_eq_some_iff.1 h
    exact ih ((Json.child_of_get? hu).get?_eq_some hv).2 hw

namespace Simulation

/-- Places that can be followed from the root, and runs that report true errors only. -/
def blame (root : Json) : Simulation where
  allowed _ := True
  places v p _ := root.resolve? p.path = some v ∧ v.WellFormed
  runs r _ := ∀ e, r.Reports e → e.PointsInto root
  child := by
    intro v w p p' a hp hw
    obtain ⟨hget, hwf⟩ := hw.get?_eq_some hp.2
    refine ⟨?_, hwf⟩
    show root.resolve? (p.path ++ [a]) = some w
    rw [Json.resolve?_append, hp.1, Option.bind_some, Json.resolve?, hget]
    rfl
  pure := fun a e h => absurd h (Run.not_reports_pure a e)
  bind := by
    intro α β r r' next next' hr hnext e h
    rcases h.of_bind with h | ⟨a, h⟩
    · exact hr e h
    · exact hnext a e h
  callback := by
    intro event hevent e h
    refine absurd h (Run.not_reports_emit ?_ e)
    rintro branch e rfl
    cases hevent
  fail := by
    intro α v p p' t reason hp hfault e h
    rw [Run.reports_fail.1 h]
    exact DecodeError.pointsInto_of_fault hp.1 hfault
  orElse := by
    intro _ α r r' others others' branch hr hothers e h
    rcases h.of_orElse with h | h
    · exact hr e h
    · exact hothers e h
  enter := by
    intro α v p p' body body' definition hp hbody e h
    unfold Runner.enter at h
    split at h
    · rcases h.of_bind with h | ⟨_, h⟩
      · exact absurd h (Run.not_reports_emit (by simp) e)
      · have hfault := Json.Fault.message v "max depth exceeded"
        rw [Run.reports_fail.1 h, ← List.append_nil p.path]
        exact DecodeError.pointsInto_of_fault hp.1 hfault
    · rcases h.of_bind with h | ⟨_, h⟩
      · exact absurd h (Run.not_reports_emit (by simp) e)
      · exact hbody e h

end Simulation

/-! ## Errors of decodes -/

/-- **Errors point into the input.**  Every error that a decode ends with or rejects on its way is
located where the input has a value that the error describes, or past the end of a short array. -/
theorem Decoder.pointsInto_of_reports {ι : Type} [Numbered ι] {τ : ι → Type} {α : Type}
    (defs : Definitions τ) (budget : Nat) (d : Decoder τ α) (options : Options) (v : Json)
    (hv : v.WellFormed) (e : DecodeError)
    (he : (d.decodeWithin defs budget options v).Reports e) : e.PointsInto v := by
  have hplace : (Simulation.blame v).places v (Place.root options.maxDepth)
      (Place.root options.maxDepth) := ⟨rfl, hv⟩
  have hend : ∀ {β : Type}, (Simulation.blame v).runs (Run.endless : Run β) Run.endless :=
    fun e h => absurd h (Run.not_reports_endless e)
  have hrun := (Simulation.blame v).runWithin (fun i => (defs i).builtFrom_all) hend budget
    d.builtFrom_all hplace
  exact hrun e (Run.reports_reportFailure.1 he)

/-- Null, or two booleans at the start of the member `a`. -/
def twoFlags : Decoder (fun i : Fin 0 => i.elim0) (Option ((i : Fin 2) → Bool)) :=
  .nullable (.atPath [.key "a"] (.tuple fun _ => .boolean))

/-- The rejected branch of `twoFlags` misses the second position of an array of one element. -/
theorem twoFlags_reports_missing_position :
    let v : Json := .object [("a", .array [.boolean true])]
    let e : DecodeError :=
      ⟨[.key "a", .index 1], .mismatch ("array with index " ++ Nat.repr 1) .array⟩
    v.WellFormed ∧ (twoFlags.decodeWithin (fun i => i.elim0) 0 .unlimited v).Reports e ∧
      e.PointsInto v := by
  intro v e
  have hv : v.WellFormed := by
    simp [v, Json.WellFormed, Json.MembersWellFormed, Json.ElementsWellFormed, Members.keys]
  have he : (twoFlags.decodeWithin (fun i => i.elim0) 0 .unlimited v).Reports e :=
    .inr ⟨0, List.mem_cons_self⟩
  exact ⟨hv, he, Decoder.pointsInto_of_reports _ 0 twoFlags .unlimited v hv e he⟩

end TypedJson
