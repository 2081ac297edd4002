import TypedJson.Proofs.Chain
import TypedJson.Proofs.InTurn
import TypedJson.Proofs.Locality

/-!
# Tuples decode their positions in order

A tuple takes the runs of its positions in turn, and a position past the end of the array counts as
a run that fails where the element would be (`Runner.tuple_takesInTurn`).  So a missing position
loses against one before it that fails, and wins over all after it; elements after the last position
are never looked at.

An array with as many elements as there are positions, all with one decoder, is decoded as the array
of that decoder is (`Runner.array_eq_tuple`).
-/

namespace TypedJson

namespace Runner

variable {α : Type}

/-! ## Single positions -/

section

variable {decoder : Runner α} {vs : List Json} {p : Place} {i : Nat}

theorem position_of_some {w : Json} (h : vs[i]? = some w) :
    position decoder vs p i = decoder w (p.child (.index i)) := by
  unfold position
  rw [h]

theorem position_of_none (h : vs[i]? = none) :
    position decoder vs p i =
      Run.fail (p.path ++ [.index i]) (.mismatch ("array with index " ++ Nat.repr i) .array) := by
  unfold position
  rw [h]
  rfl

theorem accepts_position : (position decoder vs p i).Accepts ↔
    ∃ w, vs[i]? = some w ∧ (decoder w (p.child (.index i))).Accepts := by
  unfold Run.Accepts
  simp only [position_outcome]
  constructor
  · rintro ⟨x, w, hw, hx⟩
    exact ⟨w, hw, x, hx⟩
  · rintro ⟨w, hw, x, hx⟩
    exact ⟨x, w, hw, hx⟩

theorem position_events : (position decoder vs p i).events =
    (vs[i]?).elim [] fun w => (decoder w (p.child (.index i))).events := by
  cases h : vs[i]? with
  | none =>
    rw [position_of_none h]
    rfl
  | some w =>
    rw [position_of_some h]
    rfl

end

/-! ## Tuples -/

section

variable {k : Nat} {σ : Fin k → Type}

theorem tuple_takesInTurn (positions : (i : Fin k) → Runner (σ i)) (vs : List Json) (p : Place) :
    (tuple positions (.array vs) p).TakesInTurn (fun i => position (positions i) vs p i) id := by
  have hturn := Run.takesInTurn_collect (fun i => position (positions i) vs p i) id
  rwa [Run.map_id] at hturn

/-- With one decoder for all positions, and as many elements, the tuple is the array. -/
theorem array_eq_tuple (element : Runner α) {vs : List Json} (h : vs.length = k) (p : Place) :
    array element (.array vs) p =
      (tuple (fun _ : Fin k => element) (.array vs) p).map List.ofFn := by
  subst h
  rw [array, elements_eq_collect, tuple]
  refine congrArg (Run.map List.ofFn) (congrArg Run.collect (funext fun i => ?_))
  rw [position_of_some (List.getElem?_eq_getElem i.isLt), Nat.zero_add]
  rfl

end

end Runner

/-! ## Decoders -/

section

variable {ι : Type} [Numbered ι] {τ : ι → Type}

/-- **Tuples decode their positions in order.**  What is no array is rejected at once.  A tuple has
a value iff every position is there and has one.  Else the first position that is missing or fails
ends the run: in its own way if the element is there, at the place where it would be if it is
missing.  The events are those of the positions up to that one.  Elements after the last position
make no difference, and on an array of as many elements a tuple of one decoder is the array of it. -/
theorem Decoder.tuple_run (defs : Definitions τ) (budget : Nat) {k : Nat} {σ : Fin k → Type}
    (positions : (i : Fin k) → Decoder τ (σ i)) (v : Json) (p : Place) :
    let tuple (v : Json) := (Decoder.tuple positions).runWithin defs budget v p
    let run (i : Fin k) (w : Json) := (positions i).runWithin defs budget w (p.child (.index i))
    ((∀ vs, v ≠ .array vs) → tuple v = Run.fail p.path (.mismatch "array" v.kind)) ∧
    ∀ vs, v = .array vs →
      let passes (i : Fin k) := ∃ w, vs[i.val]? = some w ∧ (run i w).Accepts
      let events (i : Fin k) := (vs[i.val]?).elim [] fun w => (run i w).events
      (∀ values, (tuple v).outcome = .value values ↔
        ∀ i, ∃ w, vs[i.val]? = some w ∧ (run i w).outcome = .value (values i)) ∧
      ((∀ i, passes i) → (tuple v).Accepts ∧ (tuple v).events = (List.ofFn events).flatten) ∧
      (∀ i, (∀ j < i, passes j) →
        (∀ w, vs[i.val]? = some w →
          (∀ e, (run i w).outcome = .error e →
            tuple v = ⟨.error e, ((List.ofFn events).take (i.val + 1)).flatten⟩) ∧
          ((run i w).outcome = .endless →
            tuple v = ⟨.endless, ((List.ofFn events).take (i.val + 1)).flatten⟩)) ∧
        (vs.length ≤ i.val →
          tuple v = ⟨.error ⟨p.path ++ [.index i],
              .mismatch ("array with index " ++ Nat.repr i) .array⟩,
            ((List.ofFn events).take i.val).flatten⟩)) ∧
      (∀ vs', vs'.take k = vs.take k → tuple (.array vs') = tuple v) ∧
      ∀ {α : Type} (d : Decoder τ α), vs.length = k →
        (Decoder.array d).runWithin defs budget v p =
          ((Decoder.tuple fun _ : Fin k => d).runWithin defs budget v p).map List.ofFn := by
  intro tuple run
  constructor
  · intro hv
    cases v with
    | array vs => exact absurd rfl (hv vs)
    | _ => rfl
  rintro vs rfl passes events
  let position (i : Fin k) := Runner.position ((positions i).runWithin defs budget) vs p i
  have hturn : (tuple (.array vs)).TakesInTurn position id := Runner.tuple_takesInTurn _ vs p
  have hrun : ∀ {i w}, vs[i.val]? = some w → position i = run i w := Runner.position_of_some
  have hpasses : ∀ i, passes i → (position i).Accepts := fun i h => Runner.accepts_position.2 h
  have hevents : (fun i => (position i).events) = events := funext fun i => Runner.position_events
  refine ⟨fun values => ?_, fun hall => ⟨?_, ?_⟩,
    fun i hbefore => ⟨fun w hw => ⟨fun e he => ?_, fun hendless => ?_⟩, fun hlength => ?_⟩,
    fun vs' htake => ?_, fun d hlength => Runner.array_eq_tuple _ hlength p⟩
  · refine Runner.tuple_outcome_eq_value_iff.trans ⟨?_, fun h => ⟨vs, rfl, h⟩⟩
    rintro ⟨_, ⟨⟩, h⟩
    exact h
  · exact hturn.accepts_iff.2 fun i => hpasses i (hall i)
  · rw [hturn.events_of_accepts fun i => hpasses i (hall i), hevents]
  · rw [← hrun hw] at he
    rw [hturn.eq_of_error (fun j hj => hpasses j (hbefore j hj)) he, hevents]
  · rw [← hrun hw] at hendless
    rw [hturn.eq_of_endless (fun j hj => hpasses j (hbefore j hj)) hendless, hevents]
  · have hnone : vs[i.val]? = none := List.getElem?_eq_none hlength
    have hmissing : position i = _ := Runner.position_of_none hnone
    -- a missing position has no events of its own
    have hlast : (List.ofFn events)[i.val]? = some [] := by
      simp [events, hnone]
    rw [hturn.eq_of_error (fun j hj => hpasses j (hbefore j hj)) (congrArg Run.outcome hmissing),
      hevents, List.take_add_one, hlast, List.flatten_append]
    simp
  · refine Runner.tuple_eq_of_getElem?_eq _ (fun i => ?_) p
    rw [← List.getElem?_take_of_lt i.isLt, htake, List.getElem?_take_of_lt i.isLt]

end

/-- Three flags: the first position is bad though the others are missing, the second is missing, and
an element to spare makes no difference, nor does it matter that the three are one array. -/
theorem flagPositions_tuple_run :
    let flags (_ : Fin 3) := negatedFlag
    let run {α : Type} (d : Decoder (fun i : Fin 0 => i.elim0) α) (v : Json) :=
      d.runWithin (fun i => i.elim0) 0 v (Place.root none)
    let told := Event.transformed (some "not")
    let three : List Json := [.boolean true, .boolean false, .boolean true]
    run (.tuple flags) .null = Run.fail [] (.mismatch "array" .null) ∧
      run (.tuple flags) (.array [.null]) =
        ⟨.error ⟨[.index 0], .mismatch "boolean" .null⟩, []⟩ ∧
      run (.tuple flags) (.array [.boolean true]) =
        ⟨.error ⟨[.index 1], .mismatch "array with index 1" .array⟩, [told]⟩ ∧
      run (.tuple flags) (.array (three ++ [.null])) = run (.tuple flags) (.array three) ∧
      run (.array negatedFlag) (.array three) = (run (.tuple flags) (.array three)).map List.ofFn := by
  intro flags run told three
  have hrun := fun v => Decoder.tuple_run (τ := fun i : Fin 0 => i.elim0) (fun i => i.elim0) 0
    flags v (Place.root none)
  have hstop := fun vs => ((hrun (.array vs)).2 vs rfl).2.2.1
  have hthree := ((hrun (.array three)).2 three rfl).2.2.2
  have hbefore : ∀ j < (0 : Fin 3), ∃ w, [Json.null][j.val]? = some w ∧
      ((flags j).runWithin (fun i => i.elim0) 0 w
        ((Place.root none).child (.index j))).Accepts :=
    fun j hj => absurd hj (Fin.not_lt_zero j)
  have hfirst : ∀ j < (1 : Fin 3), ∃ w, [Json.boolean true][j.val]? = some w ∧
      ((flags j).runWithin (fun i => i.elim0) 0 w
        ((Place.root none).child (.index j))).Accepts := by
    intro j hj
    obtain rfl : j = 0 := by omega
    exact ⟨_, rfl, _, rfl⟩
  exact ⟨(hrun .null).1 (by simp), ((hstop [.null] 0 hbefore).1 .null rfl).1 _ rfl,
    (hstop [.boolean true] 1 hfirst).2 (by decide), hthree.1 _ rfl, hthree.2 negatedFlag rfl⟩

end TypedJson
