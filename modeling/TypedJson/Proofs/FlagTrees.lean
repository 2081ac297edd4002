import TypedJson.Proofs.AmpleLimit
import TypedJson.Proofs.InTurn
import TypedJson.Proofs.Position
import TypedJson.Proofs.Regrouping

/-!
# Flags in arrays in each other

A decoder that refers to itself: a boolean is a leaf, and an array is the list of the trees of its
elements.  Decoding is the inverse of `FlagTree.toJson`, as far as the limit on the depth allows:
entered at a place with a value, the definition yields

    a tree t  iff  t.toJson is the value and nothing inside is too deep
                                                      (flagTrees_outcome_eq_value_iff)

Whatever is wrong further down, the union at the root says only that the value is unexpected.
-/

namespace TypedJson

/-! ## Values of mapped decoders and of definitions -/

section

variable {ι : Type} [Numbered ι] {τ : ι → Type} {α β : Type} {call : (i : ι) → Runner (τ i)}
  {v : Json} {p : Place}

theorem Decoder.map_outcome_eq_value_iff {f : α → β} {d : Decoder τ α} {b : β} :
    ((d.map f).runner call v p).outcome = .value b ↔
      ∃ a, (d.runner call v p).outcome = .value a ∧ f a = b := by
  show (d.runner call v p >>= fun a => Run.emit _ >>= fun _ => pure (f a)).outcome = _ ↔ _
  rw [Run.bind_emit_outcome]
  constructor
  · exact Run.outcome_of_map
  · rintro ⟨a, ha, rfl⟩
    exact Run.map_of_value ha f

/-- A well-guarded definition has the values of its body, where it may be entered. -/
theorem Definitions.IsWellGuarded.ref_outcome_eq_value_iff {defs : Definitions τ}
    (hguard : defs.IsWellGuarded) {i : ι} {a : τ i} :
    ((Decoder.ref i).runner defs.unbounded v p).outcome = .value a ↔
      ¬ p.isTooDeep ∧ ((defs i).runner defs.unbounded v p).outcome = .value a := by
  rw [← Definitions.unbounded_eq (hguard.runner_ends (defs i) v p)]
  exact Runner.enter_outcome_eq_value_iff

end

/-! ## Values inside -/

/-- What is inside a boolean is the boolean. -/
theorem Json.forall_resolve?_boolean_iff {b : Bool} {P : Path → Json → Prop} :
    (∀ path w, (Json.boolean b).resolve? path = some w → P path w) ↔ P [] (.boolean b) := by
  constructor
  · exact fun h => h [] _ rfl
  · intro h path w hw
    cases path with
    | nil =>
      cases hw
      exact h
    | cons a rest =>
      cases a with
      | key k => cases hw
      | index i => cases hw

/-- What is inside an array is the array, or inside one of its elements. -/
theorem Json.forall_resolve?_array_iff {vs : List Json} {P : Path → Json → Prop} :
    (∀ path w, (Json.array vs).resolve? path = some w → P path w) ↔
      P [] (.array vs) ∧
        ∀ (i : Fin vs.length) path w, (vs.get i).resolve? path = some w →
          P (.index i :: path) w := by
  have hdown : ∀ (i : Fin vs.length) (path : Path),
      (Json.array vs).resolve? (.index i :: path) = (vs.get i).resolve? path := by
    intro i path
    rw [resolve?, get?, List.getElem?_eq_getElem i.isLt]
    rfl
  constructor
  · intro h
    refine ⟨h [] _ rfl, fun i path w hw => h _ _ ?_⟩
    rwa [hdown]
  · rintro ⟨hroot, helements⟩ path w hw
    cases path with
    | nil =>
      cases hw
      exact hroot
    | cons a rest =>
      cases a with
      | key k => cases hw
      | index j =>
        by_cases hj : j < vs.length
        · rw [hdown ⟨j, hj⟩] at hw
          exact helements ⟨j, hj⟩ rest w hw
        · rw [resolve?, get?, List.getElem?_eq_none (by omega)] at hw
          cases hw

namespace Place

/-- No value inside is too deep, where the outermost one stands at this place. -/
def Admits (p : Place) (v : Json) : Prop :=
  ∀ path w, v.resolve? path = some w → ¬ (p.descend path).isTooDeep

theorem admits_boolean_iff {p : Place} {b : Bool} : p.Admits (.boolean b) ↔ ¬ p.isTooDeep :=
  Json.forall_resolve?_boolean_iff

theorem admits_array_iff {p : Place} {vs : List Json} :
    p.Admits (.array vs) ↔
      ¬ p.isTooDeep ∧ ∀ i : Fin vs.length, (p.child (.index i)).Admits (vs.get i) :=
  Json.forall_resolve?_array_iff

theorem not_isTooDeep_iff {p : Place} : ¬ p.isTooDeep ↔ ∀ n, p.limit = some n → p.depth ≤ n := by
  unfold isTooDeep
  cases p.limit with
  | none => simp
  | some n => simp

theorem admits_root_iff {limit : Option Nat} {v : Json} :
    (root limit).Admits v ↔
      ∀ path w, v.resolve? path = some w → ∀ n, limit = some n → path.length ≤ n := by
  refine forall_congr' fun path => forall_congr' fun w => imp_congr_right fun _ => ?_
  rw [not_isTooDeep_iff, depth_descend, descend_limit]
  show (∀ n, limit = some n → 0 + path.length ≤ n) ↔ _
  rw [Nat.zero_add]

end Place

/-! ## Trees -/

/-- A flag, or a list of trees. -/
inductive FlagTree where
  | leaf (flag : Bool)
  | list (elements : List FlagTree)

namespace FlagTree

mutual
/-- The value that a tree is read from. -/
def toJson : FlagTree → Json
  | leaf flag => .boolean flag
  | list elements => .array (elementsToJson elements)

/-- The values that the elements of a list are read from. -/
def elementsToJson : List FlagTree → List Json
  | [] => []
  | t :: rest => t.toJson :: elementsToJson rest
end

theorem elementsToJson_eq_map (ts : List FlagTree) : elementsToJson ts = ts.map toJson := by
  induction ts with
  | nil => rfl
  | cons t ts ih => rw [elementsToJson, ih, List.map_cons]

theorem toJson_eq_boolean_iff {t : FlagTree} {b : Bool} : t.toJson = .boolean b ↔ .leaf b = t := by
  cases t with
  | leaf flag => simp [toJson, eq_comm]
  | list elements => simp [toJson]

theorem toJson_eq_array_iff {t : FlagTree} {vs : List Json} :
    t.toJson = .array vs ↔
      ∃ trees : Fin vs.length → FlagTree,
        (∀ i, (trees i).toJson = vs.get i) ∧ .list (List.ofFn trees) = t := by
  constructor
  · intro h
    cases t with
    | leaf flag => cases h
    | list elements =>
      rw [toJson, elementsToJson_eq_map] at h
      cases h
      refine ⟨fun i => elements.get (i.cast (List.length_map _)), fun i => ?_, ?_⟩
      · simp
      · exact congrArg list (List.ext_getElem (by simp) (by simp))
  · rintro ⟨trees, htrees, rfl⟩
    have hmap : (List.ofFn trees).map toJson = vs := by
      rw [List.map_ofFn, show toJson ∘ trees = vs.get from funext htrees, List.ofFn_get]
    rw [toJson, elementsToJson_eq_map, hmap]

/-- The values that trees are read from are those of booleans and arrays only. -/
theorem exists_toJson_eq_iff {v : Json} :
    (∃ t : FlagTree, t.toJson = v) ↔
      ∀ path w, v.resolve? path = some w → w.kind = .boolean ∨ w.kind = .array := by
  induction v using Json.induction with
  | boolean b =>
    rw [Json.forall_resolve?_boolean_iff]
    exact ⟨fun _ => .inl rfl, fun _ => ⟨.leaf b, rfl⟩⟩
  | array vs ih =>
    rw [Json.forall_resolve?_array_iff]
    constructor
    · rintro ⟨t, ht⟩
      obtain ⟨trees, htrees, -⟩ := toJson_eq_array_iff.1 ht
      exact ⟨.inr rfl, fun i => (ih _ (List.get_mem vs i)).1 ⟨trees i, htrees i⟩⟩
    · rintro ⟨-, helements⟩
      have hall : ∀ i : Fin vs.length, ∃ t : FlagTree, t.toJson = vs.get i := fun i =>
        (ih _ (List.get_mem vs i)).2 (helements i)
      choose trees htrees using hall
      exact ⟨_, toJson_eq_array_iff.2 ⟨trees, htrees, rfl⟩⟩
  | _ =>
    constructor
    · rintro ⟨t, ht⟩
      cases t with
      | leaf flag => cases ht
      | list elements => cases ht
    · intro h
      rcases h [] _ rfl with hkind | hkind
      · cases hkind
      · cases hkind

end FlagTree

/-! ## The decoder -/

/-- A boolean is a leaf, and an array the list of its trees, which the definition refers to itself
for. -/
def flagTrees : Definitions fun _ : Fin 1 => FlagTree := fun i =>
  .oneOf (Decoder.boolean.map .leaf) [(Decoder.array (.ref i)).map .list]

theorem flagTrees_isWellGuarded : flagTrees.IsWellGuarded := by
  refine Definitions.isWellGuarded_of_not_unguarded fun i j hj => ?_
  obtain ⟨d, hd, hj⟩ := Decoder.unguarded_union.1 hj
  rcases List.mem_pair.1 hd with rfl | rfl
  · exact hj
  · exact hj

/-- One step of decoding a tree: the elements of an array are left to the definition. -/
theorem flagTrees_runner_outcome {call : (i : Fin 1) → Runner FlagTree} {i : Fin 1} {v : Json}
    {p : Place} {t : FlagTree} :
    ((flagTrees i).runner call v p).outcome = .value t ↔
      (∃ b, v = .boolean b ∧ .leaf b = t) ∨
      ∃ vs, v = .array vs ∧ ∃ trees : Fin vs.length → FlagTree,
        (∀ j, ((Decoder.ref i).runner call (vs.get j) (p.child (.index j))).outcome =
            .value (trees j)) ∧
          .list (List.ofFn trees) = t := by
  rw [flagTrees, Decoder.oneOf, Decoder.outcome_union, List.map_cons, List.map_cons, List.map_nil,
    List.foldr_cons, List.foldr_cons, List.foldr_nil, Outcome.orElse_eq_value_iff,
    Outcome.orElse_eq_value_iff, Decoder.map_outcome_eq_value_iff, Decoder.map_outcome_eq_value_iff]
  constructor
  · rintro (⟨b, hb, rfl⟩ | ⟨-, ⟨ts, hts, rfl⟩ | ⟨-, hnone⟩⟩)
    · cases v with
      | boolean c =>
        cases hb
        exact .inl ⟨_, rfl, rfl⟩
      | _ => cases hb
    · obtain ⟨vs, rfl, trees, htrees, rfl⟩ := Runner.array_outcome_eq_value_iff.1 hts
      exact .inr ⟨vs, rfl, trees, htrees, rfl⟩
    · cases hnone
  · rintro (⟨b, rfl, rfl⟩ | ⟨vs, rfl, trees, htrees, rfl⟩)
    · exact .inl ⟨b, rfl, rfl⟩
    · have hvalue := Runner.array_outcome_eq_value_iff.2 ⟨vs, rfl, trees, htrees, rfl⟩
      exact .inr ⟨⟨_, rfl⟩, .inl ⟨_, hvalue, rfl⟩⟩

/-- Where the definition is entered, it yields the tree of a value of which nothing is too deep. -/
theorem flagTrees_outcome_eq_value_iff {i : Fin 1} {v : Json} {p : Place} {t : FlagTree} :
    ((Decoder.ref i).runner flagTrees.unbounded v p).outcome = .value t ↔
      t.toJson = v ∧ p.Admits v := by
  induction v using Json.induction generalizing p t with
  | boolean b =>
    rw [flagTrees_isWellGuarded.ref_outcome_eq_value_iff, flagTrees_runner_outcome,
      FlagTree.toJson_eq_boolean_iff, Place.admits_boolean_iff]
    constructor
    · rintro ⟨hp, ⟨_, ⟨⟩, rfl⟩ | ⟨_, ⟨⟩, -⟩⟩
      exact ⟨rfl, hp⟩
    · rintro ⟨rfl, hp⟩
      exact ⟨hp, .inl ⟨b, rfl, rfl⟩⟩
  | array vs ih =>
    have helements : ∀ (j : Fin vs.length) (t : FlagTree),
        ((Decoder.ref i).runner flagTrees.unbounded (vs.get j) (p.child (.index j))).outcome =
            .value t ↔
          t.toJson = vs.get j ∧ (p.child (.index j)).Admits (vs.get j) :=
      fun j _ => ih _ (List.get_mem vs j)
    rw [flagTrees_isWellGuarded.ref_outcome_eq_value_iff, flagTrees_runner_outcome,
      FlagTree.toJson_eq_array_iff, Place.admits_array_iff]
    constructor
    · rintro ⟨hp, ⟨_, ⟨⟩, -⟩ | ⟨_, ⟨⟩, trees, htrees, rfl⟩⟩
      have hall := fun j => (helements j _).1 (htrees j)
      exact ⟨⟨trees, fun j => (hall j).1, rfl⟩, hp, fun j => (hall j).2⟩
    · rintro ⟨⟨trees, htrees, rfl⟩, hp, hadmits⟩
      exact ⟨hp, .inr ⟨vs, rfl, trees, fun j => (helements j _).2 ⟨htrees j, hadmits j⟩, rfl⟩⟩
  | _ =>
    rw [flagTrees_isWellGuarded.ref_outcome_eq_value_iff, flagTrees_runner_outcome]
    constructor
    · rintro ⟨-, ⟨_, ⟨⟩, -⟩ | ⟨_, ⟨⟩, -⟩⟩
    · rintro ⟨ht, -⟩
      cases t with
      | leaf flag => cases ht
      | list elements => cases ht

/-- **A recursive decoder accepts its language under every limit.**  A decode succeeds iff only
booleans and arrays are inside the value and none of them has more accessors above it than the limit
allows; it yields the tree that the value is written from.  Else it fails at the root, and says of
what kind the whole value is, however deep the fault. -/
theorem flagTrees_decode (options : Options) (v : Json) :
    let decode := (flagTrees 0).decode flagTrees options v
    let accepted := ∀ path w, v.resolve? path = some w →
      (w.kind = .boolean ∨ w.kind = .array) ∧ ∀ n, options.maxDepth = some n → path.length ≤ n
    (∀ t, decode.outcome = .value t ↔ accepted ∧ t.toJson = v) ∧
    (decode.Accepts ↔ accepted) ∧
    (decode.outcome = .error ⟨[], .message ("unexpected " ++ v.kind.name)⟩ ↔ ¬ accepted) := by
  intro decode accepted
  let run := (flagTrees 0).runner flagTrees.unbounded v (Place.root options.maxDepth)
  have hdecode : decode = run.reportFailure := flagTrees_isWellGuarded.decode_eq _ options v
  have houtcome : decode.outcome = run.outcome := by rw [hdecode, Run.reportFailure_outcome]
  have hroot : ¬ (Place.root options.maxDepth).isTooDeep :=
    Place.not_isTooDeep_iff.2 fun n _ => Nat.zero_le n
  have hvalue : ∀ t, decode.outcome = .value t ↔
      t.toJson = v ∧ (Place.root options.maxDepth).Admits v := by
    intro t
    have hentered := flagTrees_isWellGuarded.ref_outcome_eq_value_iff (i := 0) (v := v) (a := t)
      (p := Place.root options.maxDepth)
    rw [flagTrees_outcome_eq_value_iff, and_iff_right hroot] at hentered
    rw [houtcome, hentered]
  have haccepted : accepted ↔
      (∃ t : FlagTree, t.toJson = v) ∧ (Place.root options.maxDepth).Admits v := by
    rw [FlagTree.exists_toJson_eq_iff, Place.admits_root_iff]
    simp only [accepted, imp_and, forall_and]
  have haccepts : decode.Accepts ↔ accepted := by
    rw [haccepted]
    exact (exists_congr hvalue).trans exists_and_right
  refine ⟨fun t => ?_, haccepts, ?_⟩
  · rw [hvalue, haccepted]
    exact ⟨fun ⟨ht, hp⟩ => ⟨⟨⟨t, ht⟩, hp⟩, ht⟩, fun ⟨⟨_, hp⟩, ht⟩ => ⟨ht, hp⟩⟩
  · rw [← haccepts]
    constructor
    · exact Run.not_accepts_of_error
    · -- a run that ends without a value has the error of the outermost union
      intro hnot
      have hends : run.Ends := flagTrees_isWellGuarded.runner_ends (flagTrees 0) v _
      cases ho : run.outcome with
      | value t => exact absurd ⟨t, houtcome.trans ho⟩ hnot
      | error e => rw [houtcome, ho, Decoder.eq_unexpected_of_union ho, Json.unexpected, Place.root]
      | endless => exact absurd ho hends

/-- A flag two arrays down is one too deep for a limit of one; the arrays around it hide that. -/
example : ((flagTrees 0).decode flagTrees (Options.unlimited.withMaxDepth 1)
    (.array [.array [.boolean true]])).outcome = .error ⟨[], .message "unexpected array"⟩ := by
  rfl

end TypedJson
