import TypedJson.Proofs.Budget

/-!
# Decoding is position independent

A decoder does at a place what it does at the root: it yields the same value and makes the same
callbacks, and its errors are those of the root with the path of the place in front.  A limit counts
from the place, so the root has to be run with what the place leaves of it.

`under q` puts the path `q` in front: of the path of an error or a place, and of all paths that a
run tells of.

    run at (p.under q) = (run at p).under q                                  (runWithin_under)
-/

namespace TypedJson

/-! ## Putting a path in front -/

/-- The error of a value that stands at the end of the path `q`. -/
def DecodeError.under (q : Path) (e : DecodeError) : DecodeError := ⟨q ++ e.path, e.reason⟩

theorem DecodeError.location_under (q : Path) (e : DecodeError) :
    (e.under q).location = q.text ++ e.location := Path.text_append q e.path

theorem DecodeError.text_under (q : Path) (e : DecodeError) :
    (e.under q).text = "at input" ++ (q.text ++ e.location) ++ ": " ++ e.reason.text := by
  rw [← location_under]
  rfl

/-- The event, with its error under the path `q`. -/
def Event.under (q : Path) : Event → Event
  | .rejected branch e => .rejected branch (e.under q)
  | .failed e => .failed (e.under q)
  | event => event

/-- The outcome, with its error under the path `q`. -/
def Outcome.under {α : Type} (q : Path) : Outcome α → Outcome α
  | .error e => .error (e.under q)
  | outcome => outcome

/-- The run of a value that stands at the end of the path `q`. -/
def Run.under {α : Type} (q : Path) (r : Run α) : Run α :=
  ⟨r.outcome.under q, r.events.map (Event.under q)⟩

/-- The place under the path `q`, with a limit that leaves as much. -/
def Place.under (q : Path) (p : Place) : Place :=
  ⟨q ++ p.path, q.length + p.depth, p.limit.map (q.length + ·), by simp [p.depth_eq]⟩

theorem Place.ext {p p' : Place} (hpath : p.path = p'.path) (hlimit : p.limit = p'.limit) :
    p = p' := by
  obtain ⟨path, depth, limit, rfl⟩ := p
  obtain ⟨path', depth', limit', rfl⟩ := p'
  cases hpath
  cases hlimit
  rfl

theorem Place.child_under (q : Path) (p : Place) (a : Accessor) :
    (p.under q).child a = (p.child a).under q :=
  Place.ext (List.append_assoc q p.path [a]) rfl

theorem Place.isTooDeep_under (q : Path) (p : Place) : (p.under q).isTooDeep = p.isTooDeep := by
  unfold Place.isTooDeep Place.under
  cases p.limit with
  | none => rfl
  | some n =>
    show decide (q.length + n < q.length + p.depth) = decide (n < p.depth)
    simp

theorem Place.under_root (q : Path) (limit : Option Nat) :
    ((Place.root limit).under q).path = q := List.append_nil q

namespace Run

variable {α β : Type}

theorem bind_under (q : Path) (r : Run α) (next : α → Run β) :
    (r >>= next).under q = r.under q >>= fun a => (next a).under q := by
  rcases r with ⟨a | e | _, events⟩
  · simp [under, Outcome.under]
  · rfl
  · rfl

theorem orElse_under (q : Path) (branch : Nat) (r : Run α) (others : Unit → Run α) :
    (r.orElse branch others).under q =
      (r.under q).orElse branch fun _ => (others ()).under q := by
  rcases r with ⟨a | e | _, events⟩
  · rfl
  · simp [under, Outcome.under, Event.under]
  · rfl

theorem reportFailure_under (q : Path) (r : Run α) :
    (r.under q).reportFailure = r.reportFailure.under q := by
  rcases r with ⟨a | e | _, events⟩
  · rfl
  · simp [under, reportFailure, Outcome.under, Event.under]
  · rfl

end Run

theorem Run.ends_under {α : Type} {q : Path} {r : Run α} : (r.under q).Ends ↔ r.Ends := by
  rcases r with ⟨a | e | _, events⟩
  · simp [Run.Ends, Run.under, Outcome.under]
  · simp [Run.Ends, Run.under, Outcome.under]
  · rfl

theorem Event.under_of_isCallback {event : Event} (h : event.isCallback) (q : Path) :
    event.under q = event := by
  cases event with
  | rejected branch e => cases h
  | failed e => cases h
  | _ => rfl

/-! ## Runs under a path -/

theorem Runner.enter_under {α : Type} {q : Path} {definition : Nat} {body body' : Runner α}
    {v : Json} {p : Place} (h : body' v (p.under q) = (body v p).under q) :
    Runner.enter definition body' v (p.under q) = (Runner.enter definition body v p).under q := by
  unfold Runner.enter
  rw [Place.isTooDeep_under]
  split
  · rfl
  · rw [Run.bind_under, h]
    rfl

/-- A place and the same place under a path, a run and the same run under the path. -/
def Simulation.under (q : Path) : Simulation where
  allowed _ := True
  places _ p p' := p' = p.under q
  runs r r' := r' = r.under q
  child := by
    rintro v w p _ a rfl _
    exact Place.child_under q p a
  pure _ := rfl
  bind := by
    rintro α β r _ next next' rfl hnext
    rw [Run.bind_under, funext hnext]
  callback := by
    intro event hevent
    simp [Run.emit, Run.under, Outcome.under, Event.under_of_isCallback hevent]
  fail := by
    rintro α v p _ t reason rfl _
    exact congrArg (Run.fail · reason) (List.append_assoc q p.path t)
  orElse := by
    rintro _ α r _ others others' branch rfl hothers
    rw [Run.orElse_under, ← hothers]
  enter := by
    rintro α v p _ body body' definition rfl hbody
    exact Runner.enter_under hbody

section

variable {ι : Type} [Numbered ι] {τ : ι → Type} {α : Type}

theorem Decoder.runWithin_under (defs : Definitions τ) (budget : Nat) (d : Decoder τ α)
    (q : Path) (w : Json) (p : Place) :
    d.runWithin defs budget w (p.under q) = (d.runWithin defs budget w p).under q :=
  (Simulation.under q).runWithin (fun i => (defs i).builtFrom_all) rfl budget d.builtFrom_all rfl

/-! ## Following a path -/

theorem Runner.atPath_of_resolve? (inner : Runner α) {v w : Json} {path : Path}
    (h : v.resolve? path = some w) (p : Place) :
    Runner.atPath inner path v p = inner w (p.descend path) := by
  induction path generalizing v p with
  | nil =>
    cases h
    rfl
  | cons a path ih =>
    obtain ⟨u, hu, hw⟩ := Option.bind_eq_some_iff.1 h
    rw [Runner.atPath, hu]
    exact ih hw (p.child a)

theorem Place.descend_path (p : Place) (t : Path) : (p.descend t).path = p.path ++ t := by
  induction t generalizing p with
  | nil => exact (List.append_nil p.path).symm
  | cons a t ih =>
    rw [Place.descend, ih]
    exact List.append_assoc p.path [a] t

theorem Place.descend_limit (p : Place) (t : Path) : (p.descend t).limit = p.limit := by
  induction t generalizing p with
  | nil => rfl
  | cons a t ih => exact ih (p.child a)

/-! ## Anywhere and at the root -/

theorem Decoder.runWithin_eq_under_root (defs : Definitions τ) (budget : Nat) (d : Decoder τ α)
    (w : Json) (l : Place) (limit : Option Nat) (hl : l.limit = limit.map (l.path.length + ·)) :
    d.runWithin defs budget w l =
      (d.runWithin defs budget w (Place.root limit)).under l.path := by
  have hplace : l = (Place.root limit).under l.path :=
    Place.ext (Place.under_root l.path limit).symm hl
  rw [← Decoder.runWithin_under, ← hplace]

/-- A decoder at the end of a path does to a value what the decoder does to the value there. -/
theorem Decoder.decodeWithin_atPath (defs : Definitions τ) (budget : Nat) (d : Decoder τ α)
    {v w : Json} {p : Path} (h : v.resolve? p = some w) :
    (Decoder.atPath p d).decodeWithin defs budget .unlimited v =
      (d.decodeWithin defs budget .unlimited w).under p := by
  have hroot : d.runWithin defs budget w ((Place.root none).descend p) =
      (d.runWithin defs budget w (Place.root none)).under ((Place.root none).descend p).path :=
    Decoder.runWithin_eq_under_root defs budget d w _ none (Place.descend_limit _ p)
  show (Runner.atPath (d.runWithin defs budget) p v (Place.root none)).reportFailure = _
  rw [Runner.atPath_of_resolve? _ h, hroot, Place.descend_path, Run.reportFailure_under]
  rfl

/-- **Decoding is position independent.**  Without a limit, and with one that the place does not
exceed, a run at a place is the run at the root under its path; so a decoder at the end of a path
does to the whole value what the decoder does to the value there.  Its errors keep their reasons,
and their locations follow the text of the path. -/
theorem Decoder.run_eq_root_run_under (defs : Definitions τ) (budget : Nat) (d : Decoder τ α)
    (w : Json) :
    (∀ l : Place, l.limit = none →
      d.runWithin defs budget w l =
        (d.runWithin defs budget w (Place.root none)).under l.path) ∧
    (∀ (l : Place) (n : Nat), l.limit = some n → l.path.length ≤ n →
      d.runWithin defs budget w l =
        (d.runWithin defs budget w (Place.root (some (n - l.path.length)))).under l.path) ∧
    (∀ (v : Json) (p : Path), v.resolve? p = some w →
      (Decoder.atPath p d).decodeWithin defs budget .unlimited v =
        (d.decodeWithin defs budget .unlimited w).under p) ∧
    ∀ (q : Path) (e : DecodeError),
      (e.under q).reason = e.reason ∧ (e.under q).location = q.text ++ e.location ∧
        (e.under q).text = "at input" ++ (q.text ++ e.location) ++ ": " ++ e.reason.text := by
  refine ⟨?_, ?_, ?_, ?_⟩
  · intro l hl
    exact Decoder.runWithin_eq_under_root defs budget d w l none hl
  · intro l n hl hn
    refine Decoder.runWithin_eq_under_root defs budget d w l (some (n - l.path.length)) ?_
    show l.limit = some (l.path.length + (n - l.path.length))
    rw [hl, Nat.add_sub_cancel' hn]
  · intro v p hw
    exact Decoder.decodeWithin_atPath defs budget d hw
  · intro q e
    exact ⟨rfl, DecodeError.location_under q e, DecodeError.text_under q e⟩

end

/-- A decode that ends at the end of a path ends from the root, whose input has a greater budget. -/
theorem Decoder.decode_atPath {n : Nat} {τ : Fin n → Type} {α : Type} {defs : Definitions τ}
    {d : Decoder τ α} {v w : Json} {p : Path} (h : v.resolve? p = some w)
    (hends : (d.decode defs .unlimited w).Ends) :
    (Decoder.atPath p d).decode defs .unlimited v = (d.decode defs .unlimited w).under p := by
  have hat : (Decoder.atPath p d).decodeWithin defs (defs.budget w) .unlimited v =
      (d.decode defs .unlimited w).under p := Decoder.decodeWithin_atPath defs _ d h
  rw [← hat]
  apply Decoder.decode_eq_decodeWithin
  rw [hat]
  exact Run.ends_under.2 hends

/-- Two arrays in a member, under a limit of two: the inner one is still entered, its element is
not, as at the root under a limit of one. -/
theorem nestedArrays_run_under_member :
    let d : Decoder (fun _ : Fin 1 => Nat) Nat := .ref 0
    let w : Json := .array [.array [.array []]]
    let v : Json := .object [("a b", w)]
    let l := (Place.root (some 2)).child (.key "a b")
    (l.limit = some 2 ∧ l.path.length ≤ 2 ∧
      d.runWithin nestedArrays 4 w l =
        (d.runWithin nestedArrays 4 w (Place.root (some 1))).under l.path) ∧
    ((Place.root none).limit = none ∧
      d.runWithin nestedArrays 4 w (Place.root none) =
        (d.runWithin nestedArrays 4 w (Place.root none)).under []) ∧
    v.resolve? [.key "a b"] = some w ∧
      (Decoder.atPath [.key "a b"] d).decodeWithin nestedArrays 4 .unlimited v =
        (d.decodeWithin nestedArrays 4 .unlimited w).under [.key "a b"] := by
  intro d w v l
  have hrun := Decoder.run_eq_root_run_under nestedArrays 4 d w
  have hlength : l.path.length ≤ 2 := by decide
  have hresolve : v.resolve? [.key "a b"] = some w := rfl
  exact ⟨⟨rfl, hlength, hrun.2.1 l 2 rfl hlength⟩, ⟨rfl, hrun.1 (Place.root none) rfl⟩, hresolve,
    hrun.2.2.1 v _ hresolve⟩

end TypedJson
