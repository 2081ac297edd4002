import TypedJson.Proofs.Fields

/-!
# What a log tells of errors

A decode tells of the error that it ends with, once and last, and nothing else tells of a failed
decode: no run inside, however it fails (`Decoder.failed_not_mem_events`).  A text that is not JSON
has no run and so an empty log.

A union tells of every branch that it tries, in order, and after each that fails of the error that
it discards; the first branch that does not fail is the last one it tries.
-/

namespace TypedJson

/-! ## Failed decodes -/

/-- Runs that do not tell of a failed decode. -/
def Simulation.inside : Simulation where
  allowed _ := True
  places _ _ _ := True
  runs r _ := ∀ e, .failed e ∉ r.events
  child _ _ := trivial
  pure _ _ := List.not_mem_nil
  bind := by
    intro α β r r' next next' hr hnext e h
    rcases Run.mem_events_bind.1 h with h | ⟨a, _, h⟩
    · exact hr e h
    · exact hnext a e h
  callback := by
    intro event hevent e h
    obtain rfl := List.mem_singleton.1 h
    cases hevent
  fail _ _ _ := List.not_mem_nil
  orElse := by
    intro _ α r r' others others' branch hr hothers e h
    rcases Run.mem_events_orElse.1 h with h | ⟨f, _, h | h⟩
    · exact hr e h
    · cases h
    · exact hothers e h
  enter := by
    intro α v p p' body body' definition _ hbody e h
    unfold Runner.enter at h
    split at h
    · simp [Run.emit, Run.fail] at h
    · rcases List.mem_cons.1 h with h | h
      · cases h
      · exact hbody e h

section

variable {ι : Type} [Numbered ι] {τ : ι → Type} {α : Type}

/-- No run inside a decode tells of a failed decode. -/
theorem Decoder.failed_not_mem_events (defs : Definitions τ) (budget : Nat) (d : Decoder τ α)
    (v : Json) (p : Place) (e : DecodeError) :
    .failed e ∉ (d.runWithin defs budget v p).events := by
  have hplaces : Simulation.inside.places v p p := trivial
  exact Simulation.inside.runWithin (fun i => (defs i).builtFrom_all) (fun _ => List.not_mem_nil)
    budget d.builtFrom_all hplaces e

end

namespace Run

variable {α : Type} {r : Run α}

theorem reportFailure_of_error {e : DecodeError} (h : r.outcome = .error e) :
    r.reportFailure = ⟨.error e, r.events ++ [.failed e]⟩ := by
  rw [reportFailure, h]

theorem reportFailure_of_not_error (h : ∀ e, r.outcome ≠ .error e) : r.reportFailure = r := by
  rcases r with ⟨a | e | _, events⟩
  · rfl
  · exact absurd rfl (h e)
  · rfl

/-- A decode whose run does not tell of a failed decode does so iff it ends with an error, which it
tells of last. -/
theorem reportFailure_events (h : ∀ e, .failed e ∉ r.events) :
    ((∃ e, .failed e ∈ r.reportFailure.events) ↔ ∃ e, r.reportFailure.outcome = .error e) ∧
    (∀ e, r.reportFailure.outcome = .error e → r.reportFailure.events = r.events ++ [.failed e]) := by
  by_cases herror : ∃ e, r.outcome = .error e
  · obtain ⟨e, he⟩ := herror
    rw [reportFailure_of_error he]
    refine ⟨⟨fun _ => ⟨e, rfl⟩, fun _ => ⟨e, List.mem_concat_self⟩⟩, ?_⟩
    rintro _ ⟨⟩
    rfl
  · rw [reportFailure_of_not_error fun e he => herror ⟨e, he⟩]
    refine ⟨⟨?_, fun hend => absurd hend herror⟩, fun e he => absurd ⟨e, he⟩ herror⟩
    rintro ⟨e, he⟩
    exact absurd he (h e)

end Run

/-! ## Rejected branches -/

namespace Run

variable {α : Type} {r : Run α}

theorem orElse_of_error {e : DecodeError} (h : r.outcome = .error e) (branch : Nat)
    (others : Unit → Run α) :
    r.orElse branch others =
      ⟨(others ()).outcome, r.events ++ .rejected branch e :: (others ()).events⟩ := by
  rw [orElse, h]

theorem orElse_of_not_error (h : ∀ e, r.outcome ≠ .error e) (branch : Nat)
    (others : Unit → Run α) : r.orElse branch others = r := by
  rcases r with ⟨a | e | _, events⟩
  · rfl
  · exact absurd rfl (h e)
  · rfl

end Run

namespace Runner

variable {α : Type} {v : Json} {p : Place}

/-- Branches that fail tell of their events and are then rejected, before the others are tried. -/
theorem firstSuccess_append {β : Type _} (branch : β → Runner α) (error : β → DecodeError)
    {failing : List β} (h : ∀ b ∈ failing, (branch b v p).outcome = .error (error b)) (i : Nat)
    (others : List (Runner α)) :
    firstSuccess v p i (failing.map branch ++ others) =
      ⟨(firstSuccess v p (i + failing.length) others).outcome,
        ((failing.zipIdx i).flatMap fun b =>
            (branch b.1 v p).events ++ [.rejected b.2 (error b.1)]) ++
          (firstSuccess v p (i + failing.length) others).events⟩ := by
  induction failing generalizing i with
  | nil => rfl
  | cons b failing ih =>
    have hfirst := h b List.mem_cons_self
    have hrest := ih (fun b hb => h b (List.mem_cons_of_mem _ hb)) (i + 1)
    rw [List.map_cons, List.cons_append, firstSuccess, Run.orElse_of_error hfirst, hrest,
      List.zipIdx_cons, List.flatMap_cons, List.length_cons, Nat.add_right_comm i 1, Nat.add_assoc i]
    simp

end Runner

/-! ## Logs -/

/-- What a decode of a text tells: the events of its run, and nothing if it has none. -/
def Decoder.textLog {α : Type} : Except SyntaxError (Run α) → List Event
  | .ok r => r.events
  | .error _ => []

section

variable {ι : Type} [Numbered ι] {τ : ι → Type} {α : Type}

/-- A union of branches of which the first ones fail. -/
theorem Decoder.runWithin_union_append (defs : Definitions τ) (budget : Nat)
    {failing : List (Decoder τ α × DecodeError)} {v : Json} {p : Place}
    (h : ∀ b ∈ failing, (b.1.runWithin defs budget v p).outcome = .error b.2)
    (others : List (Decoder τ α)) :
    let rest := Runner.firstSuccess v p failing.length
      (others.map fun d => d.runWithin defs budget)
    (Decoder.union (failing.map Prod.fst ++ others)).runWithin defs budget v p =
      ⟨rest.outcome,
        (failing.zipIdx.flatMap fun b =>
            (b.1.1.runWithin defs budget v p).events ++ [.rejected b.2 b.1.2]) ++ rest.events⟩ := by
  have hrun := Runner.firstSuccess_append (fun b : Decoder τ α × DecodeError =>
    b.1.runWithin defs budget) Prod.snd h 0 (others.map fun d => d.runWithin defs budget)
  rw [Nat.zero_add] at hrun
  rw [Decoder.runWithin, Decoder.runner_union, List.map_append, List.map_map]
  exact hrun

/-- **The log accounts for every error.**  A decode tells of a failure iff it ends with an error:
then once, last, and of that error.  A text that cannot be read tells of nothing, and no run inside
a decode tells of a failed one.

A union tells, for each branch up to the first that does not fail, of the events of the branch and
then of its number and error; then of the events of that first one, which says how the union ends,
and of nothing else, whatever the later branches are.  If all branches fail, it tells of all of them
in this way and fails at its own place, where only the kind of the value is named. -/
theorem Decoder.log_accounts_for_errors (defs : Definitions τ) (budget : Nat) :
    ((∀ (d : Decoder τ α) (options : Options) (v : Json),
      let decode := d.decodeWithin defs budget options v
      let inside := (d.runWithin defs budget v (Place.root options.maxDepth)).events
      ((∃ e, .failed e ∈ decode.events) ↔ ∃ e, decode.outcome = .error e) ∧
        ∀ e, decode.outcome = .error e →
          decode.events = inside ++ [.failed e] ∧ ∀ f, .failed f ∉ inside) ∧
      (∀ (d : Decoder τ α) (v : Json) (p : Place) (e : DecodeError),
        .failed e ∉ (d.runWithin defs budget v p).events) ∧
      ∀ {n : Nat} {τ : Fin n → Type} (defs : Definitions τ) (d : Decoder τ α) (options : Options)
        (text : String),
        (∀ e, Json.read text = .error e → Decoder.textLog (d.decodeText defs options text) = []) ∧
          ∀ v, Json.read text = .ok v →
            d.decodeText defs options text = .ok (d.decode defs options v)) ∧
    ∀ (v : Json) (p : Place),
      let run (d : Decoder τ α) := d.runWithin defs budget v p
      let rejected (failing : List (Decoder τ α × DecodeError)) :=
        failing.zipIdx.flatMap fun b => (run b.1.1).events ++ [.rejected b.2 b.1.2]
      (∀ failing : List (Decoder τ α × DecodeError), (∀ b ∈ failing, (run b.1).outcome = .error b.2) →
        (∀ d later, (∀ e, (run d).outcome ≠ .error e) →
          run (.union (failing.map Prod.fst ++ d :: later)) =
            ⟨(run d).outcome, rejected failing ++ (run d).events⟩) ∧
        run (.union (failing.map Prod.fst)) =
          ⟨.error ⟨p.path, .message ("unexpected " ++ v.kind.name)⟩, rejected failing⟩) ∧
      (∀ first others, Decoder.oneOf first others = (.union (first :: others) : Decoder τ α)) ∧
      ∀ d : Decoder τ α, d.nullable = .union [d.map some, Decoder.null.map fun _ => none] := by
  refine ⟨⟨?_, ?_, ?_⟩, fun v p => ⟨fun failing hfailing => ⟨?_, ?_⟩, ?_, ?_⟩⟩
  · intro d options v decode inside
    have hinside := d.failed_not_mem_events defs budget v (Place.root options.maxDepth)
    obtain ⟨hiff, hlast⟩ := Run.reportFailure_events hinside
    exact ⟨hiff, fun e he => ⟨hlast e he, hinside⟩⟩
  · exact Decoder.failed_not_mem_events defs budget
  · intro n τ defs d options text
    refine ⟨fun e he => ?_, fun v hv => ?_⟩
    · rw [Decoder.decodeText, he]
      rfl
    · rw [Decoder.decodeText, hv]
  · intro d later hd
    have hrun := Decoder.runWithin_union_append defs budget hfailing (d :: later)
    rwa [List.map_cons, Runner.firstSuccess, Run.orElse_of_not_error hd] at hrun
  · have hrun := Decoder.runWithin_union_append defs budget hfailing []
    rw [List.append_nil] at hrun
    exact hrun.trans (congrArg (Run.mk _) (List.append_nil _))
  · exact fun first others => rfl
  · exact fun d => rfl

end

/-- Null or a flag, of which the flag is taken and what comes after it is not tried; of a string, and
of a text that ends too early, what a failed decode and a failed reading tell. -/
theorem nullOrFlag_log_accounts_for_errors :
    let noFlag := (Decoder.null : Decoder (fun i : Fin 0 => i.elim0) Unit).map fun _ => true
    let run (d : Decoder (fun i : Fin 0 => i.elim0) Bool) (v : Json) :=
      d.runWithin (fun i => i.elim0) 0 v (Place.root none)
    let noNull (got : Kind) : DecodeError := ⟨[], .mismatch "null" got⟩
    let noBoolean : DecodeError := ⟨[], .mismatch "boolean" .string⟩
    let unexpected : DecodeError := ⟨[], .message "unexpected string"⟩
    let decode := (Decoder.union [noFlag, negatedFlag]).decodeWithin (fun i => i.elim0) 0 .unlimited
    run (.union [noFlag, negatedFlag, .succeed true]) (.boolean true) =
        ⟨.value false, [.rejected 0 (noNull .boolean), .transformed (some "not")]⟩ ∧
      run (.union [noFlag, negatedFlag]) (.string "é") =
        ⟨.error unexpected, [.rejected 0 (noNull .string), .rejected 1 noBoolean]⟩ ∧
      (decode (.string "é")).events =
        [.rejected 0 (noNull .string), .rejected 1 noBoolean, .failed unexpected] ∧
      Decoder.textLog (noFlag.decodeText (fun i => i.elim0) .unlimited "[1,") = [] := by
  intro noFlag run noNull noBoolean unexpected decode
  have hlog := Decoder.log_accounts_for_errors (τ := fun i : Fin 0 => i.elim0) (α := Bool)
    (fun i => i.elim0) 0
  have hfirst : ∀ b ∈ [(noFlag, noNull .boolean)],
      (run b.1 (.boolean true)).outcome = .error b.2 := by
    intro b hb
    obtain rfl := List.mem_singleton.1 hb
    rfl
  have hboth : ∀ b ∈ [(noFlag, noNull .string), (negatedFlag, noBoolean)],
      (run b.1 (.string "é")).outcome = .error b.2 := by
    intro b hb
    simp only [List.mem_cons, List.not_mem_nil, or_false] at hb
    rcases hb with rfl | rfl
    · rfl
    · rfl
  have hflag : ∀ e, (run negatedFlag (.boolean true)).outcome ≠ .error e := by
    rintro e ⟨⟩
  exact ⟨((hlog.2 _ _).1 _ hfirst).1 negatedFlag [.succeed true] hflag, ((hlog.2 _ _).1 _ hboth).2,
    ((hlog.1.1 _ .unlimited (.string "é")).2 unexpected rfl).1,
    (hlog.1.2.2 (fun i : Fin 0 => i.elim0) noFlag .unlimited "[1,").1 _ rfl⟩

end TypedJson
