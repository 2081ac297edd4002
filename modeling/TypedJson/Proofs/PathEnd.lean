import TypedJson.Proofs.Position

/-!
# The end of a path

A path leads to a value inside the value it starts from, or it *stops* (`Json.Stops`): its longest
prefix that resolves leads to some value, and the next accessor leads nowhere from there.

A decoder at the end of a path is run on the value there.  Where the path stops it is not run at
all; the value that was reached is to blame, at its own place and not at that of the accessor.  How
a path is split makes no difference, since the places of both halves add up.
-/

namespace TypedJson

/-! ## Single accessors -/

namespace Json

/-- A key leads on from an object that has it, whatever the member is. -/
theorem isSome_get?_key_iff {v : Json} {key : String} :
    (v.get? (.key key)).isSome ↔ ∃ ms, v = .object ms ∧ key ∈ Members.keys ms := by
  cases v with
  | object ms =>
    rw [← not_iff_not, Option.not_isSome_iff_eq_none]
    exact Members.find?_eq_none_iff.trans (by simp)
  | _ => simp [get?]

/-- An index leads on from an array that is longer than it. -/
theorem isSome_get?_index_iff {v : Json} {i : Nat} :
    (v.get? (.index i)).isSome ↔ ∃ vs, v = .array vs ∧ i < vs.length := by
  cases v with
  | array vs => simp [get?]
  | _ => simp [get?]

/-! ## Where a path stops -/

/-- The longest prefix of `p` that resolves in `v` is `q`, which leads to `c`, and the accessor after
it is `next`. -/
structure Stops (v : Json) (p q : Path) (c : Json) (next : Accessor) : Prop where
  leads : v.resolve? q = some c
  before : q ++ [next] <+: p
  longest : ∀ q', q' <+: p → (v.resolve? q').isSome → q' <+: q

variable {v c : Json} {p q : Path} {next : Accessor}

theorem resolve?_concat (h : v.resolve? q = some c) (a : Accessor) :
    v.resolve? (q ++ [a]) = c.get? a := by
  rw [resolve?_append, h]
  exact Option.bind_fun_some _

theorem Stops.get?_eq_none (h : v.Stops p q c next) : c.get? next = none := by
  cases hw : c.get? next with
  | none => rfl
  | some w =>
    have hlonger : q ++ [next] <+: q := by
      refine h.longest _ h.before ?_
      rw [resolve?_concat h.leads, hw]
      rfl
    have hlength := hlonger.length_le
    rw [List.length_append, List.length_singleton] at hlength
    omega

/-- The prefix is the longest one if the next accessor leads nowhere. -/
theorem stops_of_get?_eq_none (hleads : v.resolve? q = some c) (hbefore : q ++ [next] <+: p)
    (hnone : c.get? next = none) : v.Stops p q c next := by
  have hend : v.resolve? (q ++ [next]) = none := by rw [resolve?_concat hleads, hnone]
  refine ⟨hleads, hbefore, fun q' hq' hsome => ?_⟩
  rcases List.prefix_or_prefix_of_prefix hq' hbefore with hle | ⟨t, rfl⟩
  · rcases List.prefix_concat_iff.1 hle with rfl | hle
    · rw [hend] at hsome
      cases hsome
    · exact hle
  · rw [resolve?_append, hend] at hsome
    cases hsome

/-- A path that does not resolve stops somewhere. -/
theorem exists_stops (h : v.resolve? p = none) : ∃ q c next, v.Stops p q c next := by
  induction p generalizing v with
  | nil => cases h
  | cons a p ih =>
    cases hu : v.get? a with
    | none => exact ⟨[], v, a, stops_of_get?_eq_none rfl ⟨p, rfl⟩ hu⟩
    | some u =>
      rw [resolve?, hu] at h
      obtain ⟨q, c, next, hstops⟩ := ih h
      have hleads : v.resolve? (a :: q) = some c := by
        rw [resolve?, hu]
        exact hstops.leads
      have hbefore : a :: q ++ [next] <+: a :: p := List.cons_prefix_cons.2 ⟨rfl, hstops.before⟩
      exact ⟨a :: q, c, next, stops_of_get?_eq_none hleads hbefore hstops.get?_eq_none⟩

end Json

/-! ## Runs at the end of a path -/

namespace Runner

variable {α : Type}

theorem atPath_append (inner : Runner α) (p q : Path) :
    atPath inner (p ++ q) = atPath (atPath inner q) p := by
  induction p with
  | nil => rfl
  | cons a p ih =>
    funext v l
    rw [List.cons_append, atPath, atPath]
    cases v.get? a with
    | none => rfl
    | some w => rw [ih]

theorem expectedBy_index_of_ne {kind : Kind} (h : kind ≠ .array) (i : Nat) :
    expectedBy (.index i) kind = "array with index " ++ Nat.repr i := by
  cases kind with
  | array => exact absurd rfl h
  | _ => rfl

/-- Where the path stops, the value that was reached should have been another. -/
theorem atPath_of_stops (inner : Runner α) {v c : Json} {p q : Path} {next : Accessor}
    (h : v.Stops p q c next) (l : Place) :
    atPath inner p v l = Run.fail (l.path ++ q) (.mismatch (expectedBy next c.kind) c.kind) := by
  obtain ⟨rest, rfl⟩ := h.before
  rw [List.append_assoc, atPath_append, atPath_of_resolve? _ h.leads, List.singleton_append, atPath,
    h.get?_eq_none, ← Place.descend_path]
  rfl

end Runner

section

variable {ι : Type} [Numbered ι] {τ : ι → Type} {α : Type}

/-- **A path ends where it leads, or at its longest prefix that does.**  A key leads on from objects
that have it, an index from arrays that are longer.  If the whole path resolves, the decoder is run
on the value at its end, at the place below by the path.  Else the path stops somewhere; the decoder
is not run, and the value that was reached is told what it should have been for the next accessor.
A decoder at the end of two paths, one after the other, is the decoder at the end of both. -/
theorem Decoder.atPath_run (defs : Definitions τ) (budget : Nat) (d : Decoder τ α) (p : Path)
    (v : Json) (l : Place) :
    let run (p : Path) (d : Decoder τ α) := (Decoder.atPath p d).runWithin defs budget
    ((∀ key, (v.get? (.key key)).isSome ↔ ∃ ms, v = .object ms ∧ key ∈ Members.keys ms) ∧
      ∀ i, (v.get? (.index i)).isSome ↔ ∃ vs, v = .array vs ∧ i < vs.length) ∧
    (∀ w, v.resolve? p = some w →
      run p d v l = d.runWithin defs budget w (l.descend p) ∧
        (l.descend p).path = l.path ++ p ∧ (l.descend p).limit = l.limit) ∧
    (v.resolve? p = none → ∃ q c next, v.Stops p q c next) ∧
    (∀ q c next, v.Stops p q c next →
      (∀ i, next = .index i →
        (c.kind = .array →
          run p d v l = Run.fail (l.path ++ q) (.mismatch "array: index out of range" c.kind)) ∧
        (c.kind ≠ .array →
          run p d v l =
            Run.fail (l.path ++ q) (.mismatch ("array with index " ++ Nat.repr i) c.kind))) ∧
      ∀ key, next = .key key →
        run p d v l =
          Run.fail (l.path ++ q) (.mismatch ("object with key " ++ keyText key) c.kind)) ∧
    ∀ q, run (p ++ q) d = run p (.atPath q d) := by
  intro run
  refine ⟨⟨fun key => Json.isSome_get?_key_iff, fun i => Json.isSome_get?_index_iff⟩,
    fun w hw => ⟨Runner.atPath_of_resolve? _ hw l, l.descend_path p, l.descend_limit p⟩,
    Json.exists_stops, fun q c next hstops => ?_, fun q => Runner.atPath_append _ p q⟩
  have hrun : run p d v l = _ := Runner.atPath_of_stops (d.runWithin defs budget) hstops l
  rw [hrun]
  constructor
  · rintro i rfl
    refine ⟨fun harray => ?_, fun harray => ?_⟩
    · rw [harray]
      rfl
    · rw [Runner.expectedBy_index_of_ne harray]
  · rintro key rfl
    rfl

end

/-- A path to a null that is there; two that stop at the array, past its end and at a key; and one
that stops at the null, with a step to spare. -/
theorem listedNull_atPath_run :
    let v : Json := .object [("a", .array [.boolean true, .null])]
    let run (p : Path) := (Decoder.atPath p Decoder.null).runWithin
      (τ := fun i : Fin 0 => i.elim0) (fun i => i.elim0) 0 v (Place.root none)
    (v.resolve? [.key "a", .index 1] = some .null ∧
      run [.key "a", .index 1] = ⟨.value (), []⟩) ∧
    (v.Stops [.key "a", .index 2] [.key "a"] (.array [.boolean true, .null]) (.index 2) ∧
      run [.key "a", .index 2] =
        Run.fail [.key "a"] (.mismatch "array: index out of range" .array)) ∧
    (v.Stops [.key "a", .key "b c"] [.key "a"] (.array [.boolean true, .null]) (.key "b c") ∧
      run [.key "a", .key "b c"] =
        Run.fail [.key "a"] (.mismatch ("object with key " ++ keyText "b c") .array)) ∧
    v.resolve? [.key "a", .index 1, .index 0, .key ""] = none ∧
      ∃ q c next, v.Stops [.key "a", .index 1, .index 0, .key ""] q c next := by
  intro v run
  have hrun := fun p => Decoder.atPath_run (τ := fun i : Fin 0 => i.elim0) (fun i => i.elim0) 0
    Decoder.null p v (Place.root none)
  have hleads : v.resolve? [.key "a"] = some (.array [.boolean true, .null]) := rfl
  have hindex : v.Stops [.key "a", .index 2] [.key "a"] _ (.index 2) :=
    Json.stops_of_get?_eq_none hleads List.prefix_rfl rfl
  have hkey : v.Stops [.key "a", .key "b c"] [.key "a"] _ (.key "b c") :=
    Json.stops_of_get?_eq_none hleads List.prefix_rfl rfl
  exact ⟨⟨rfl, ((hrun _).2.1 .null rfl).1⟩,
    ⟨hindex, (((hrun _).2.2.2.1 _ _ _ hindex).1 2 rfl).1 rfl⟩,
    ⟨hkey, ((hrun _).2.2.2.1 _ _ _ hkey).2 _ rfl⟩, rfl, (hrun _).2.2.1 rfl⟩

end TypedJson
