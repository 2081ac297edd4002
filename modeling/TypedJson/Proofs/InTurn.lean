import TypedJson.Proofs.Fields

/-!
# All elements, or the first that fails

An array runs its decoder on one element after the other, a dictionary on one member after the
other.  Each of them *takes the runs of a family in turn* (`Run.TakesInTurn`): it has a value iff
all of them have one, and the first run without a value says how it ends and is the last to be
started.

The family of an array are the runs of its elements by their indices (`Runner.elements_eq_collect`),
that of a dictionary the runs of its members by their positions (`Runner.members_eq_collect`).  The
members stand in the order of the bytes of their keys, so of several bad ones the one with the least
key is reported.
-/

namespace TypedJson

/-! ## Families -/

theorem Outcome.SameStop.error_iff {α β : Type} {a : Outcome α} {b : Outcome β}
    (h : a.SameStop b) {e : DecodeError} : a = .error e ↔ b = .error e := by
  cases h with
  | error f => simp
  | endless => simp

theorem Outcome.SameStop.endless_iff {α β : Type} {a : Outcome α} {b : Outcome β}
    (h : a.SameStop b) : a = .endless ↔ b = .endless := by
  cases h with
  | error f => simp
  | endless => simp

namespace Run

variable {α β γ : Type}

theorem map_bind (r : Run α) (next : α → Run β) (f : β → γ) :
    (r >>= next).map f = r >>= fun a => (next a).map f := by
  rw [map_eq_bind, bind_assoc]
  exact congrArg (r >>= ·) (funext fun a => (map_eq_bind f (next a)).symm)

theorem map_map (r : Run α) (f : α → β) (g : β → γ) :
    (r.map f).map g = r.map fun a => g (f a) := by
  rcases r with ⟨_ | _ | _, events⟩
  · rfl
  · rfl
  · rfl

section

variable {k : Nat} {σ : Fin k → Type}

/-- The run starts the runs of the family in order.  It makes its value of all of theirs; the first
that has none ends it in its own way, and no later one is started. -/
structure TakesInTurn (r : Run β) (runs : (i : Fin k) → Run (σ i))
    (make : ((i : Fin k) → σ i) → β) : Prop where
  value_iff : ∀ b, r.outcome = .value b ↔
    ∃ values : (i : Fin k) → σ i, (∀ i, (runs i).outcome = .value (values i)) ∧ make values = b
  accepts_iff : r.Accepts ↔ ∀ i, (runs i).Accepts
  error_iff : ∀ e, r.outcome = .error e ↔
    ∃ i, (∀ j < i, (runs j).Accepts) ∧ (runs i).outcome = .error e
  endless_iff : r.outcome = .endless ↔
    ∃ i, (∀ j < i, (runs j).Accepts) ∧ (runs i).outcome = .endless
  events_of_accepts : (∀ i, (runs i).Accepts) →
    r.events = (List.ofFn fun i => (runs i).events).flatten
  events_of_stop : ∀ i, (∀ j < i, (runs j).Accepts) → ¬ (runs i).Accepts →
    r.events = ((List.ofFn fun i => (runs i).events).take (i.val + 1)).flatten

variable {runs : (i : Fin k) → Run (σ i)}

theorem TakesInTurn.eq_of_error {r : Run β} {make : ((i : Fin k) → σ i) → β}
    (h : r.TakesInTurn runs make) {i : Fin k} (hbefore : ∀ j < i, (runs j).Accepts)
    {e : DecodeError} (he : (runs i).outcome = .error e) :
    r = ⟨.error e, ((List.ofFn fun i => (runs i).events).take (i.val + 1)).flatten⟩ := by
  rw [← (h.error_iff e).2 ⟨i, hbefore, he⟩, ← h.events_of_stop i hbefore (not_accepts_of_error he)]

theorem TakesInTurn.eq_of_endless {r : Run β} {make : ((i : Fin k) → σ i) → β}
    (h : r.TakesInTurn runs make) {i : Fin k} (hbefore : ∀ j < i, (runs j).Accepts)
    (hendless : (runs i).outcome = .endless) :
    r = ⟨.endless, ((List.ofFn fun i => (runs i).events).take (i.val + 1)).flatten⟩ := by
  rw [← h.endless_iff.2 ⟨i, hbefore, hendless⟩,
    ← h.events_of_stop i hbefore (not_accepts_of_endless hendless)]

theorem exists_first_not_accepts (h : ¬ ∀ i, (runs i).Accepts) :
    ∃ i, (∀ j < i, (runs j).Accepts) ∧ ¬ (runs i).Accepts := by
  obtain ⟨i, hi⟩ := not_forall.1 h
  obtain ⟨first, hfirst, hleast⟩ := wellFounded_lt.has_min {i | ¬ (runs i).Accepts} ⟨i, hi⟩
  exact ⟨first, fun j hj => not_not.1 fun hj' => hleast j hj' hj, hfirst⟩

theorem accepts_collect : (collect runs).Accepts ↔ ∀ i, (runs i).Accepts := by
  constructor
  · rintro ⟨values, hvalues⟩ i
    exact ⟨values i, collect_outcome_eq_value_iff.1 hvalues i⟩
  · intro h
    choose values hvalues using h
    exact ⟨values, collect_outcome_eq_value_iff.2 hvalues⟩

/-- The first run without a value ends the family in its own way, with its events last. -/
theorem collect_map_of_stop {i : Fin k} (hbefore : ∀ j < i, (runs j).Accepts)
    (hstop : ¬ (runs i).Accepts) (make : ((i : Fin k) → σ i) → β) :
    (runs i).outcome.SameStop ((collect runs).map make).outcome ∧
      ((collect runs).map make).events =
        ((List.ofFn fun i => (runs i).events).take (i.val + 1)).flatten := by
  obtain ⟨hsame, hblocks⟩ := collect_of_stop hstop hbefore
  refine ⟨?_, ?_⟩
  · rw [map_eq_bind]
    exact (bind_of_sameStop hsame _).1
  · rw [map_events, collect_events, hblocks]

theorem takesInTurn_collect (runs : (i : Fin k) → Run (σ i)) (make : ((i : Fin k) → σ i) → β) :
    ((collect runs).map make).TakesInTurn runs make := by
  have haccepts : ((collect runs).map make).Accepts ↔ ∀ i, (runs i).Accepts :=
    accepts_map.trans accepts_collect
  -- a run that is no value stops at the first of the family that has none
  have hfirst : ¬ ((collect runs).map make).Accepts → ∃ i, (∀ j < i, (runs j).Accepts) ∧
      (runs i).outcome.SameStop ((collect runs).map make).outcome := by
    intro h
    obtain ⟨i, hbefore, hstop⟩ := exists_first_not_accepts fun hall => h (haccepts.2 hall)
    exact ⟨i, hbefore, (collect_map_of_stop hbefore hstop make).1⟩
  refine ⟨fun b => ⟨?_, ?_⟩, haccepts, fun e => ⟨?_, ?_⟩, ⟨?_, ?_⟩, ?_, ?_⟩
  · intro h
    obtain ⟨values, hvalues, rfl⟩ := outcome_of_map h
    exact ⟨values, collect_outcome_eq_value_iff.1 hvalues, rfl⟩
  · rintro ⟨values, hvalues, rfl⟩
    exact map_of_value (collect_outcome_eq_value_iff.2 hvalues) make
  · intro h
    obtain ⟨i, hbefore, hsame⟩ := hfirst (not_accepts_of_error h)
    exact ⟨i, hbefore, hsame.error_iff.2 h⟩
  · rintro ⟨i, hbefore, he⟩
    exact (collect_map_of_stop hbefore (not_accepts_of_error he) make).1.error_iff.1 he
  · intro h
    obtain ⟨i, hbefore, hsame⟩ := hfirst (not_accepts_of_endless h)
    exact ⟨i, hbefore, hsame.endless_iff.2 h⟩
  · rintro ⟨i, hbefore, hendless⟩
    exact (collect_map_of_stop hbefore (not_accepts_of_endless hendless) make).1.endless_iff.1
      hendless
  · intro hall
    choose values hvalues using hall
    rw [map_events, collect_events, (collect_of_values hvalues).2]
  · exact fun i hbefore hstop => (collect_map_of_stop hbefore hstop make).2

end

end Run

/-! ## Elements and members -/

namespace Runner

variable {α : Type}

/-- The elements from an index on are run as a family. -/
theorem elements_eq_collect (element : Runner α) (p : Place) (i : Nat) (vs : List Json) :
    elements element p i vs =
      (Run.collect fun j : Fin vs.length => element (vs.get j) (p.child (.index (i + j)))).map
        List.ofFn := by
  induction vs generalizing i with
  | nil => rfl
  | cons v vs ih =>
    show _ = Run.map List.ofFn (_ >>= fun first => Run.map _ (Run.collect _))
    rw [elements, ih, Run.map_bind]
    refine congrArg (_ >>= ·) (funext fun a => ?_)
    rw [Run.map_map, Run.map_map]
    simp only [List.ofFn_succ, Fin.cases_zero, Fin.cases_succ, Fin.val_succ, Nat.add_assoc,
      Nat.add_comm 1]
    rfl

/-- The members are run as a family. -/
theorem members_eq_collect (value : Runner α) (p : Place) (ms : Members) :
    members value p ms =
      (Run.collect fun i : Fin ms.length =>
          value (ms.get i).2 (p.child (.key (ms.get i).1))).map fun values =>
        List.ofFn fun i => ((ms.get i).1, values i) := by
  induction ms with
  | nil => rfl
  | cons m ms ih =>
    show _ = Run.map _ (_ >>= fun first => Run.map _ (Run.collect _))
    rw [members, ih, Run.map_bind]
    refine congrArg (_ >>= ·) (funext fun a => ?_)
    rw [Run.map_map, Run.map_map]
    simp only [List.ofFn_succ, Fin.cases_zero, Fin.cases_succ]
    rfl

end Runner

namespace Members

/-- Members in order stand by the bytes of their keys. -/
theorem lt_iff_utf8Bytes_get_lt {ms : Members} (h : (keys ms).Pairwise (· < ·))
    (i j : Fin ms.length) : i < j ↔ utf8Bytes (ms.get i).1 < utf8Bytes (ms.get j).1 := by
  have hmono : ∀ {i j : Fin ms.length}, i < j → (ms.get i).1 < (ms.get j).1 := fun {i j} hij =>
    List.pairwise_iff_get.1 (List.pairwise_map.1 h) i j hij
  rw [← lt_iff_utf8Bytes_lt]
  refine ⟨hmono, fun hkeys => ?_⟩
  rcases lt_trichotomy i j with hij | rfl | hji
  · exact hij
  · exact absurd hkeys (String.lt_irrefl _)
  · exact absurd (String.lt_trans hkeys (hmono hji)) (String.lt_irrefl _)

/-- Values listed by the keys of the members: a key has the value of the member found under it. -/
theorem mem_ofFn_iff {α : Type} {ms : Members} (h : (keys ms).Pairwise (· < ·))
    (values : Fin ms.length → α) {key : String} {x : α} :
    (key, x) ∈ List.ofFn (fun i => ((ms.get i).1, values i)) ↔
      ∃ i, (ms.get i).1 = key ∧ find? key ms = some (ms.get i).2 ∧ values i = x := by
  rw [List.mem_ofFn]
  constructor
  · rintro ⟨i, hi⟩
    obtain ⟨rfl, rfl⟩ := Prod.mk.inj hi
    exact ⟨i, rfl, find?_eq_some_of_mem h (List.get_mem ms i), rfl⟩
  · rintro ⟨i, rfl, -, rfl⟩
    exact ⟨i, rfl⟩

end Members

/-! ## Decoders -/

section

variable {ι : Type} [Numbered ι] {τ : ι → Type} {α : Type}

theorem Runner.array_takesInTurn (element : Runner α) (vs : List Json) (p : Place) :
    (Runner.array element (.array vs) p).TakesInTurn
      (fun i : Fin vs.length => element (vs.get i) (p.child (.index i))) List.ofFn := by
  have hrun := Runner.elements_eq_collect element p 0 vs
  simp only [Nat.zero_add] at hrun
  rw [Runner.array, hrun]
  exact Run.takesInTurn_collect _ _

theorem Runner.array_outcome_eq_value_iff {element : Runner α} {v : Json} {p : Place}
    {xs : List α} :
    (Runner.array element v p).outcome = .value xs ↔
      ∃ vs, v = .array vs ∧ ∃ values : Fin vs.length → α,
        (∀ i, (element (vs.get i) (p.child (.index i))).outcome = .value (values i)) ∧
          List.ofFn values = xs := by
  constructor
  · intro h
    cases v with
    | array vs => exact ⟨vs, rfl, ((array_takesInTurn element vs p).value_iff xs).1 h⟩
    | _ => cases h
  · rintro ⟨vs, rfl, h⟩
    exact ((array_takesInTurn element vs p).value_iff xs).2 h

theorem Runner.dict_takesInTurn (value : Runner α) (ms : Members) (p : Place) :
    (Runner.dict value (.object ms) p).TakesInTurn
      (fun i : Fin ms.length => value (ms.get i).2 (p.child (.key (ms.get i).1)))
      (fun values => List.ofFn fun i => ((ms.get i).1, values i)) := by
  rw [Runner.dict, Runner.members_eq_collect]
  exact Run.takesInTurn_collect _ _

/-- What a dictionary yields has the keys of the object, each with the value of its own member. -/
theorem Runner.dict_value {value : Runner α} {ms : Members} {p : Place} {xs : List (String × α)}
    (h : (Members.keys ms).Pairwise (· < ·))
    (hxs : (Runner.dict value (.object ms) p).outcome = .value xs) :
    xs.map Prod.fst = Members.keys ms ∧
      ∀ key x, (key, x) ∈ xs ↔
        ∃ w, Members.find? key ms = some w ∧ (value w (p.child (.key key))).outcome = .value x := by
  obtain ⟨values, hvalues, rfl⟩ := ((Runner.dict_takesInTurn value ms p).value_iff xs).1 hxs
  constructor
  · rw [List.map_ofFn]
    exact List.ofFn_getElem_eq_map ms Prod.fst
  · intro key x
    rw [Members.mem_ofFn_iff h]
    constructor
    · rintro ⟨i, rfl, hfind, rfl⟩
      exact ⟨_, hfind, hvalues i⟩
    · rintro ⟨w, hw, hx⟩
      obtain ⟨i, hi⟩ := List.get_of_mem (Members.mem_of_find? hw)
      have hvalue := hvalues i
      rw [hi] at hvalue
      refine ⟨i, ?_, ?_, ?_⟩
      · rw [hi]
      · rw [hi, hw]
      · rw [hvalue] at hx
        cases hx
        rfl

/-- **All elements, or the first that fails.**  What is no array, or no object, is rejected at once.
An array takes the runs of its elements in turn, each at its own index, and lists their values in
order; a dictionary takes those of its members, each at its own key, and gives every key of the
object the value of its own member.  The members stand in the order of the bytes of their keys,
which decides the first of several that fail. -/
theorem Decoder.array_dict_run (defs : Definitions τ) (budget : Nat) (d : Decoder τ α) (v : Json)
    (p : Place) :
    let array := (Decoder.array d).runWithin defs budget v p
    let dict := (Decoder.dict d).runWithin defs budget v p
    let run (w : Json) (a : Accessor) := d.runWithin defs budget w (p.child a)
    (((∀ vs, v ≠ .array vs) → array = Run.fail p.path (.mismatch "array" v.kind)) ∧
      ∀ vs, v = .array vs →
        array.TakesInTurn (fun i : Fin vs.length => run (vs.get i) (.index i)) List.ofFn) ∧
    ((∀ ms, v ≠ .object ms) → dict = Run.fail p.path (.mismatch "object" v.kind)) ∧
    ∀ ms, v = .object ms →
      dict.TakesInTurn (fun i : Fin ms.length => run (ms.get i).2 (.key (ms.get i).1))
        (fun values => List.ofFn fun i => ((ms.get i).1, values i)) ∧
      (v.WellFormed →
        (∀ i j : Fin ms.length, i < j ↔ utf8Bytes (ms.get i).1 < utf8Bytes (ms.get j).1) ∧
        ∀ xs, dict.outcome = .value xs →
          xs.map Prod.fst = Members.keys ms ∧
          ∀ key x, (key, x) ∈ xs ↔
            ∃ w, Members.find? key ms = some w ∧ (run w (.key key)).outcome = .value x) := by
  intro array dict run
  refine ⟨⟨fun hv => ?_, ?_⟩, fun hv => ?_, ?_⟩
  · cases v with
    | array vs => exact absurd rfl (hv vs)
    | _ => rfl
  · rintro vs rfl
    exact Runner.array_takesInTurn _ vs p
  · cases v with
    | object ms => exact absurd rfl (hv ms)
    | _ => rfl
  · rintro ms rfl
    refine ⟨Runner.dict_takesInTurn _ ms p, fun hwell => ?_⟩
    exact ⟨Members.lt_iff_utf8Bytes_get_lt hwell.1, fun xs hxs => Runner.dict_value hwell.1 hxs⟩

end

/-- An array whose third element is bad, and an object with two bad members: of these `a` comes
first, but after `B`, which is decoded before it.  Without them every key has its own flag,
negated. -/
theorem flagsByKey_array_dict_run :
    let flag (v : Json) (a : Accessor) :=
      negatedFlag.runWithin (fun i => i.elim0) 0 v ((Place.root none).child a)
    let array (v : Json) := (Decoder.array negatedFlag).runWithin
      (fun i => i.elim0) 0 v (Place.root none)
    let dict (ms : Members) := (Decoder.dict negatedFlag).runWithin
      (fun i => i.elim0) 0 (.object ms) (Place.root none)
    let told := Event.transformed (some "not")
    let listed : List Json := [.boolean true, .boolean false, .null, .null]
    let bad : Members := [("B", .boolean true), ("a", .null), ("é", .null)]
    let good : Members := [("B", .boolean true), ("a", .boolean false)]
    (array .null = Run.fail [] (.mismatch "array" .null) ∧
      (array (.array listed)).outcome = .error ⟨[.index 2], .mismatch "boolean" .null⟩ ∧
      (array (.array listed)).events = [told, told]) ∧
    ((dict bad).outcome = .error ⟨[.key "a"], .mismatch "boolean" .null⟩ ∧
      (dict bad).events = [told]) ∧
    (Json.object good).WellFormed ∧ (dict good).outcome = .value [("B", false), ("a", true)] ∧
      ∀ key x, (key, x) ∈ [("B", false), ("a", true)] ↔
        ∃ w, Members.find? key good = some w ∧ (flag w (.key key)).outcome = .value x := by
  intro flag array dict told listed bad good
  have hrun := fun v => Decoder.array_dict_run (τ := fun i : Fin 0 => i.elim0) (fun i => i.elim0) 0
    negatedFlag v (Place.root none)
  have hflag : ∀ b a, (flag (.boolean b) a).Accepts := fun b a => ⟨!b, rfl⟩
  have hnull : ∀ a, ¬ (flag .null a).Accepts := by
    rintro a ⟨x, ⟨⟩⟩
  have hgood : (Json.object good).WellFormed := by
    have hkeys : ["B", "a"].Pairwise (· < ·) := by decide
    exact ⟨hkeys, trivial, trivial, trivial⟩
  refine ⟨⟨(hrun .null).1.1 (by simp), ?_⟩, ?_, hgood, ?_⟩
  · have hturn := (hrun (.array listed)).1.2 listed rfl
    have hbefore : ∀ j < (2 : Fin 4), (flag (listed.get j) (.index j)).Accepts := by
      intro j hj
      obtain rfl | rfl : j = 0 ∨ j = 1 := by omega
      · exact hflag true _
      · exact hflag false _
    exact ⟨(hturn.error_iff _).2 ⟨(2 : Fin 4), hbefore, rfl⟩,
      hturn.events_of_stop (2 : Fin 4) hbefore (hnull _)⟩
  · have hturn := ((hrun (.object bad)).2.2 bad rfl).1
    have hbefore : ∀ j < (1 : Fin 3), (flag (bad.get j).2 (.key (bad.get j).1)).Accepts := by
      intro j hj
      obtain rfl : j = 0 := by omega
      exact hflag true _
    exact ⟨(hturn.error_iff _).2 ⟨(1 : Fin 3), hbefore, rfl⟩,
      hturn.events_of_stop (1 : Fin 3) hbefore (hnull _)⟩
  · obtain ⟨hturn, hkeyed⟩ := (hrun (.object good)).2.2 good rfl
    have hvalue : (dict good).outcome = .value [("B", false), ("a", true)] :=
      (hturn.value_iff _).2 ⟨Fin.cases false fun _ => true,
        Fin.cases rfl (Fin.cases rfl fun i => i.elim0), rfl⟩
    exact ⟨hvalue, ((hkeyed hgood).2 _ hvalue).2⟩

end TypedJson
