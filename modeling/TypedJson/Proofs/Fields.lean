import TypedJson.Proofs.KeyOrder
import TypedJson.Proofs.Sequence

/-!
# Objects fail at the first bad value, and at all absences together

The fields of an object are decoded in the order of their declaration, absent ones being passed
over.  So the first field that is present and fails ends the run, whatever is absent
(`Runner.object_of_stop`).  Only if none fails are the absent keys reported, all of them, in the
order of their bytes (`Runner.object_of_missing`), and only if none is absent is the constructor
applied (`Runner.object_of_values`).
-/

namespace TypedJson

namespace Runner

variable {α : Type}

/-! ## Single fields -/

section

variable {decoder : Runner α} {key : String} {ms : Members} {p : Place}

theorem field_of_some {w : Json} (h : Members.find? key ms = some w) :
    field decoder key ms p = (decoder w (p.child (.key key))).map some := by
  unfold field
  rw [h]

theorem field_of_none (h : Members.find? key ms = none) :
    field decoder key ms p = pure none := by
  unfold field
  rw [h]

/-- A field that is absent does not fail. -/
theorem accepts_field : (field decoder key ms p).Accepts ↔
    ∀ w, Members.find? key ms = some w → (decoder w (p.child (.key key))).Accepts := by
  cases h : Members.find? key ms with
  | none =>
    rw [field_of_none h]
    constructor
    · rintro _ w ⟨⟩
    · exact fun _ => ⟨none, rfl⟩
  | some w =>
    rw [field_of_some h, Run.accepts_map]
    constructor
    · rintro haccepts _ ⟨⟩
      exact haccepts
    · intro haccepts
      exact haccepts w rfl

theorem field_events : (field decoder key ms p).events =
    (Members.find? key ms).elim [] fun w => (decoder w (p.child (.key key))).events := by
  cases h : Members.find? key ms with
  | none =>
    rw [field_of_none h]
    rfl
  | some w =>
    rw [field_of_some h, Run.map_events]
    rfl

end

theorem allPresent?_eq_some_iff {k : Nat} {σ : Fin k → Type} {values : (i : Fin k) → Option (σ i)}
    {all : (i : Fin k) → σ i} :
    allPresent? values = some all ↔ ∀ i, values i = some (all i) := by
  induction k with
  | zero =>
    constructor
    · intro _ i
      exact i.elim0
    · intro _
      exact congrArg some (funext fun i => i.elim0)
  | succ k ih =>
    rw [allPresent?_succ, Fin.forall_fin_succ, ← ih]
    constructor
    · intro h
      obtain ⟨first, hfirst, h⟩ := Option.bind_eq_some_iff.1 h
      obtain ⟨others, hothers, rfl⟩ := Option.map_eq_some_iff.1 h
      exact ⟨hfirst, hothers⟩
    · rintro ⟨hfirst, hothers⟩
      rw [hfirst, hothers, Option.bind_some, Option.map_some]
      refine congrArg some (funext fun i => ?_)
      cases i using Fin.cases with
      | zero => rfl
      | succ i => rfl

/-! ## Missing keys -/

theorem missingKeys_perm (keys : List String) (ms : Members) :
    (missingKeys keys ms).Perm (keys.filter fun key => (Members.find? key ms).isNone) :=
  List.mergeSort_perm _ _

theorem missingKeys_sorted (keys : List String) (ms : Members) :
    (missingKeys keys ms).Pairwise fun a b => utf8Bytes a ≤ utf8Bytes b := by
  have hsorted := @List.pairwise_mergeSort String (fun a b => decide (a ≤ b))
    (fun a b c hab hbc => by
      rw [decide_eq_true_eq] at *
      exact String.le_trans hab hbc)
    (fun a b => by
      rw [Bool.or_eq_true, decide_eq_true_eq, decide_eq_true_eq]
      exact String.le_total a b)
    (keys.filter fun key => (Members.find? key ms).isNone)
  refine hsorted.imp fun {a b} hab => ?_
  rw [decide_eq_true_eq, ← String.not_lt, lt_iff_utf8Bytes_lt] at hab
  exact hab

/-! ## Objects -/

section

variable {k : Nat} {σ : Fin k → Type} {keys : Fin k → String}
  {fields : (i : Fin k) → Runner (σ i)} {ms : Members} {p : Place}

/-- The first field that is there and has no value ends the run, in its own way. -/
theorem object_of_stop {i : Fin k} {w : Json} (hw : Members.find? (keys i) ms = some w)
    (hstop : ¬ (fields i w (p.child (.key (keys i)))).Accepts)
    (hbefore : ∀ j < i, (field (fields j) (keys j) ms p).Accepts)
    (construct : ((i : Fin k) → σ i) → α) :
    (fields i w (p.child (.key (keys i)))).outcome.SameStop
        (object keys fields construct (.object ms) p).outcome ∧
      (object keys fields construct (.object ms) p).events =
        ((List.ofFn fun j => (field (fields j) (keys j) ms p).events).take (i.val + 1)).flatten := by
  have hfield : ¬ (field (fields i) (keys i) ms p).Accepts :=
    fun h => hstop (accepts_field.1 h w hw)
  obtain ⟨hcollect, hblocks⟩ := Run.collect_of_stop hfield hbefore
  rw [field_of_some hw, Run.map_eq_bind] at hcollect
  have hmap := (Run.bind_of_sameStop (Run.sameStop_self hstop) fun a => pure (some a)).1
  have hstops := hmap.trans hcollect
  rw [object]
  refine ⟨(Run.bind_of_sameStop hstops _).1, ?_⟩
  rw [(Run.bind_of_sameStop hstops _).2, Run.collect_events, hblocks]

theorem object_of_missing (h : ∀ i, (field (fields i) (keys i) ms p).Accepts)
    (hmissing : ∃ i, Members.find? (keys i) ms = none) (construct : ((i : Fin k) → σ i) → α) :
    object keys fields construct (.object ms) p =
      ⟨.error ⟨p.path, .missingKeys (missingKeys (List.ofFn keys) ms)⟩,
        (List.ofFn fun j => (field (fields j) (keys j) ms p).events).flatten⟩ := by
  choose values hvalues using h
  obtain ⟨houtcome, hblocks⟩ := Run.collect_of_values hvalues
  have hnone : allPresent? values = none := by
    rw [← Option.not_isSome_iff_eq_none, isSome_allPresent?_iff]
    intro hall
    obtain ⟨i, hi⟩ := hmissing
    have hsome := isSome_of_field (hvalues i)
    rw [hall i, hi] at hsome
    cases hsome
  rw [object, Run.bind_of_value houtcome, Run.collect_events, hblocks, hnone]
  exact congrArg (Run.mk _) (List.append_nil _)

theorem object_of_values {values : (i : Fin k) → σ i}
    (h : ∀ i, (field (fields i) (keys i) ms p).outcome = .value (some (values i)))
    (construct : ((i : Fin k) → σ i) → α) :
    object keys fields construct (.object ms) p =
      ⟨.value (construct values),
        (List.ofFn fun j => (field (fields j) (keys j) ms p).events).flatten ++
          [.constructed k]⟩ := by
  obtain ⟨houtcome, hblocks⟩ := Run.collect_of_values h
  rw [object, Run.bind_of_value houtcome, Run.collect_events, hblocks,
    allPresent?_eq_some_iff.2 fun i => rfl]
  rfl

end

end Runner

/-! ## Decoders -/

section

variable {ι : Type} [Numbered ι] {τ : ι → Type}

/-- **Objects fail at the first bad value, and at all absences together.**  What is no object is
rejected at once.  In an object the first declared field that is there and fails says how the run
ends.  If none fails, all absent keys are reported, as often as they are declared, in the order of
their bytes; and if none is absent, the constructor is applied, once, to the values in the order of
their declaration.  The events are those of the fields that were decoded, in that order. -/
theorem Decoder.object_run (defs : Definitions τ) (budget : Nat) {k : Nat} {σ : Fin k → Type}
    {α : Type} (keys : Fin k → String) (fields : (i : Fin k) → Decoder τ (σ i))
    (construct : ((i : Fin k) → σ i) → α) (v : Json) (p : Place) :
    let object := (Decoder.object keys fields construct).runWithin defs budget v p
    let run (i : Fin k) (w : Json) := (fields i).runWithin defs budget w (p.child (.key (keys i)))
    ((∀ ms, v ≠ .object ms) → object = Run.fail p.path (.mismatch "object" v.kind)) ∧
    ∀ ms : Members, v = .object ms →
      let events (i : Fin k) := (Members.find? (keys i) ms).elim [] fun w => (run i w).events
      let passes (i : Fin k) := ∀ w, Members.find? (keys i) ms = some w → (run i w).Accepts
      (∀ i w, Members.find? (keys i) ms = some w → (∀ j < i, passes j) →
        (∀ e, (run i w).outcome = .error e →
          object = ⟨.error e, ((List.ofFn events).take (i.val + 1)).flatten⟩) ∧
        ((run i w).outcome = .endless →
          object = ⟨.endless, ((List.ofFn events).take (i.val + 1)).flatten⟩)) ∧
      ((∀ i, passes i) → (∃ i, Members.find? (keys i) ms = none) →
        ∃ missing : List String,
          object = ⟨.error ⟨p.path, .missingKeys missing⟩, (List.ofFn events).flatten⟩ ∧
          missing.Perm ((List.ofFn keys).filter fun key => (Members.find? key ms).isNone) ∧
          missing.Pairwise (fun a b => utf8Bytes a ≤ utf8Bytes b) ∧
          (Reason.missingKeys missing).expected? =
            some ("object with keys: " ++ ", ".intercalate (missing.map keyText)) ∧
          (Reason.missingKeys missing).got? = none) ∧
      ∀ values : (i : Fin k) → σ i,
        (∀ i, ∃ w, Members.find? (keys i) ms = some w ∧ (run i w).outcome = .value (values i)) →
        object =
          ⟨.value (construct values), (List.ofFn events).flatten ++ [.constructed k]⟩ := by
  intro object run
  constructor
  · intro hv
    cases v with
    | object ms => exact absurd rfl (hv ms)
    | _ => rfl
  rintro ms rfl events passes
  let field (i : Fin k) := Runner.field ((fields i).runWithin defs budget) (keys i) ms p
  have hevents : (fun i => (field i).events) = events := funext fun i => Runner.field_events
  have hpasses : ∀ i, passes i → (field i).Accepts := fun i h => Runner.accepts_field.2 h
  refine ⟨?_, ?_, ?_⟩
  · intro i w hw hbefore
    have hstop := fun h : ¬ (run i w).Accepts =>
      Runner.object_of_stop hw h (fun j hj => hpasses j (hbefore j hj)) construct
    rw [show (fun j => (field j).events) = events from hevents] at hstop
    constructor
    · intro e he
      obtain ⟨hsame, hevents'⟩ := hstop (Run.not_accepts_of_error he)
      rw [← hevents']
      exact Run.eq_error_of_sameStop hsame he
    · intro hendless
      obtain ⟨hsame, hevents'⟩ := hstop (Run.not_accepts_of_endless hendless)
      rw [← hevents']
      exact Run.eq_endless_of_sameStop hsame hendless
  · intro hall hmissing
    refine ⟨Runner.missingKeys (List.ofFn keys) ms, ?_, Runner.missingKeys_perm _ ms,
      Runner.missingKeys_sorted _ ms, rfl, rfl⟩
    rw [← hevents]
    exact Runner.object_of_missing (fun i => hpasses i (hall i)) hmissing construct
  · intro values hvalues
    rw [← hevents]
    refine Runner.object_of_values (fun i => ?_) construct
    obtain ⟨w, hw, hvalue⟩ := hvalues i
    rw [Runner.field_of_some hw]
    exact Run.map_of_value hvalue some

end

/-- Three keys, not in the order of their bytes. -/
def flagKeys : Fin 3 → String
  | 0 => "zeta"
  | 1 => "a"
  | 2 => "é"

/-- A flag, negated. -/
def negatedFlag : Decoder (fun i : Fin 0 => i.elim0) Bool := .transform (some "not") not .boolean

/-- Three flags, negated. -/
def threeFlags : Decoder (fun i : Fin 0 => i.elim0) (List Bool) :=
  .object flagKeys (fun _ => negatedFlag) fun flags => [flags 0, flags 1, flags 2]

/-- A bad `a` is reported though `é` is absent as well, after the first field; two absent keys are
reported in the order of their bytes, `é` last; and all three make a value. -/
theorem threeFlags_object_run :
    let run (ms : Members) :=
      threeFlags.runWithin (fun i => i.elim0) 0 (.object ms) (Place.root none)
    let told := Event.transformed (some "not")
    run [("a", .null), ("zeta", .boolean true)] =
        ⟨.error ⟨[.key "a"], .mismatch "boolean" .null⟩, [told]⟩ ∧
      (∃ missing, run [("a", .boolean true)] = ⟨.error ⟨[], .missingKeys missing⟩, [told]⟩ ∧
        missing.Perm ["zeta", "é"] ∧
        missing.Pairwise fun a b => utf8Bytes a ≤ utf8Bytes b) ∧
      run [("a", .boolean true), ("zeta", .boolean true), ("é", .boolean false)] =
        ⟨.value [false, false, true], [told, told, told, .constructed 3]⟩ := by
  intro run told
  have hrun := fun ms : Members => (Decoder.object_run (τ := fun i : Fin 0 => i.elim0)
    (fun i => i.elim0) 0 flagKeys (fun _ => negatedFlag)
    (fun flags => [flags 0, flags 1, flags 2]) (.object ms) (Place.root none)).2 ms rfl
  have hflag : ∀ b p, (negatedFlag.runWithin (fun i => i.elim0) 0 (.boolean b) p).Accepts :=
    fun b p => ⟨!b, rfl⟩
  refine ⟨?_, ?_, ?_⟩
  · have hfirst : ∀ j < (1 : Fin 3), ∀ w,
        Members.find? (flagKeys j) [("a", .null), ("zeta", .boolean true)] = some w →
        (negatedFlag.runWithin (fun i => i.elim0) 0 w
          ((Place.root none).child (.key (flagKeys j)))).Accepts := by
      intro j hj w hw
      obtain rfl : j = 0 := by omega
      cases hw
      exact hflag true _
    exact ((hrun _).1 1 .null rfl hfirst).1 _ rfl
  · have hall : ∀ j w, Members.find? (flagKeys j) [("a", .boolean true)] = some w →
        (negatedFlag.runWithin (fun i => i.elim0) 0 w
          ((Place.root none).child (.key (flagKeys j)))).Accepts := by
      intro j w hw
      match j with
      | 0 => cases hw
      | 1 =>
        cases hw
        exact hflag true _
      | 2 => cases hw
    obtain ⟨missing, hmissing, hperm, hsorted, -⟩ := (hrun _).2.1 hall ⟨0, rfl⟩
    exact ⟨missing, hmissing, hperm, hsorted⟩
  · refine (hrun _).2.2 (fun | 0 => false | 1 => false | 2 => true) fun i => ?_
    match i with
    | 0 => exact ⟨_, rfl, rfl⟩
    | 1 => exact ⟨_, rfl, rfl⟩
    | 2 => exact ⟨_, rfl, rfl⟩

end TypedJson
