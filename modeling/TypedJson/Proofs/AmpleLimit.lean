import Mathlib.Logic.Relation
import TypedJson.Proofs.Blame
import TypedJson.Proofs.DepthLimit

/-!
# A limit as large as the height of the input is none

A decoder starts runs of its parts, on children of its value at the places of the children, or on
the value itself.  A step down adds one to the depth of the place and takes at least one from the
height of the value, so for every run that a decode starts

    place.depth + value.height ≤ input.height            (Job.Leads.depth_add_height_le)

and no place is deeper than the input is high.  Under a limit of that height no definition is
refused, and the decode is the one without a limit.
-/

namespace TypedJson

section

variable {ι : Type} {τ : ι → Type}

/-! ## The runs that a run starts -/

/-- A decoder that is run on a value at a place. -/
structure Job (τ : ι → Type) where
  {α : Type}
  decoder : Decoder τ α
  value : Json
  place : Place

/-- The first run starts the second, unless it has failed before. -/
inductive Job.Starts (defs : Definitions τ) : Job τ → Job τ → Prop where
  | element {α : Type} {element : Decoder τ α} {vs : List Json} {p : Place} {i : Nat} {w : Json}
      (h : vs[i]? = some w) :
      Starts defs ⟨.array element, .array vs, p⟩ ⟨element, w, p.child (.index i)⟩
  | position {k : Nat} {σ : Fin k → Type} {positions : (i : Fin k) → Decoder τ (σ i)}
      {vs : List Json} {p : Place} {i : Fin k} {w : Json} (h : vs[i.val]? = some w) :
      Starts defs ⟨.tuple positions, .array vs, p⟩ ⟨positions i, w, p.child (.index i)⟩
  | field {k : Nat} {σ : Fin k → Type} {α : Type} {keys : Fin k → String}
      {fields : (i : Fin k) → Decoder τ (σ i)} {construct : ((i : Fin k) → σ i) → α}
      {ms : Members} {p : Place} {i : Fin k} {w : Json}
      (h : Members.find? (keys i) ms = some w) :
      Starts defs ⟨.object keys fields construct, .object ms, p⟩
        ⟨fields i, w, p.child (.key (keys i))⟩
  | member {α : Type} {value : Decoder τ α} {ms : Members} {p : Place} {key : String} {w : Json}
      (h : (key, w) ∈ ms) :
      Starts defs ⟨.dict value, .object ms, p⟩ ⟨value, w, p.child (.key key)⟩
  | atEnd {α : Type} {path : Path} {inner : Decoder τ α} {v w : Json} {p : Place}
      (h : v.resolve? path = some w) :
      Starts defs ⟨.atPath path inner, v, p⟩ ⟨inner, w, p.descend path⟩
  | branch {α : Type} {k : Nat} {branches : Fin k → Decoder τ α} {v : Json} {p : Place}
      (j : Fin k) : Starts defs ⟨.alternatives branches, v, p⟩ ⟨branches j, v, p⟩
  | first {α β : Type} {first : Decoder τ α} {next : α → Decoder τ β} {v : Json} {p : Place} :
      Starts defs ⟨.andThen first next, v, p⟩ ⟨first, v, p⟩
  | next {α β : Type} {first : Decoder τ α} {next : α → Decoder τ β} {v : Json} {p : Place}
      (a : α) : Starts defs ⟨.andThen first next, v, p⟩ ⟨next a, v, p⟩
  | inner {α β : Type} {label : Option String} {f : α → β} {inner : Decoder τ α} {v : Json}
      {p : Place} : Starts defs ⟨.transform label f inner, v, p⟩ ⟨inner, v, p⟩
  | body {i : ι} {v : Json} {p : Place} (h : ¬ p.isTooDeep) :
      Starts defs ⟨.ref i, v, p⟩ ⟨defs i, v, p⟩

/-- The first run starts the second, or one that does. -/
def Job.Leads (defs : Definitions τ) : Job τ → Job τ → Prop :=
  Relation.ReflTransGen (Job.Starts defs)

variable {defs : Definitions τ}

/-- The calls of a decoder are among the runs that it leads to. -/
theorem Decoder.Calls.leads {α : Type} {d : Decoder τ α} {v w : Json} {i : ι} {t : Path}
    (h : d.Calls v i t w) (hv : v.WellFormed) (p : Place) :
    Job.Leads defs ⟨d, v, p⟩ ⟨.ref i, w, p.descend t⟩ := by
  induction d generalizing v t p with
  | array element ih =>
    obtain ⟨j, u, s, hu, rfl, hs⟩ := h
    obtain ⟨-, hwf⟩ := hu.get?_eq_some hv
    cases hu with
    | element hu => exact .head (.element hu) (ih hs hwf _)
  | tuple positions ih =>
    obtain ⟨j, u, s, hu, rfl, hs⟩ := h
    obtain ⟨-, hwf⟩ := hu.get?_eq_some hv
    cases hu with
    | element hu => exact .head (.position hu) (ih j hs hwf _)
  | object keys fields construct ih =>
    obtain ⟨j, u, s, hu, rfl, hs⟩ := h
    obtain ⟨hget, hwf⟩ := hu.get?_eq_some hv
    cases hu with
    | member hu => exact .head (.field hget) (ih j hs hwf _)
  | dict value ih =>
    obtain ⟨key, u, s, hu, rfl, hs⟩ := h
    obtain ⟨-, hwf⟩ := hu.get?_eq_some hv
    cases hu with
    | member hu => exact .head (.member hu) (ih hs hwf _)
  | atPath path inner ih =>
    obtain ⟨u, s, hu, rfl, hs⟩ := h
    rw [Place.descend_append]
    exact .head (.atEnd hu) (ih hs (hv.resolve? hu) _)
  | alternatives branches ih =>
    obtain ⟨j, hj⟩ := h
    exact .head (.branch j) (ih j hj hv p)
  | andThen first next ihFirst ihNext =>
    rcases h with h | ⟨a, h⟩
    · exact .head .first (ihFirst h hv p)
    · exact .head (.next a) (ihNext a h hv p)
  | transform label f inner ih => exact .head .inner (ih h hv p)
  | ref j =>
    obtain ⟨rfl, rfl, rfl⟩ := h
    exact .refl
  | _ => exact h.elim

/-! ## Depth and height -/

theorem Place.depth_descend (p : Place) (t : Path) : (p.descend t).depth = p.depth + t.length := by
  induction t generalizing p with
  | nil => rfl
  | cons a t ih =>
    rw [Place.descend, ih, List.length_cons]
    show p.depth + 1 + t.length = _
    omega

/-- A step down is at least one step less up to the top. -/
theorem Place.depth_child_add_height_le {v w : Json} {a : Accessor} (h : v.Child a w) (p : Place) :
    (p.child a).depth + w.height ≤ p.depth + v.height := by
  have hheight := h.height_lt
  show p.depth + 1 + w.height ≤ p.depth + v.height
  omega

/-- What the depth of a place takes from the height of the input is still there for the value. -/
theorem Job.Starts.depth_add_height_le {j j' : Job τ} (h : j.Starts defs j') :
    j'.place.depth + j'.value.height ≤ j.place.depth + j.value.height := by
  cases h with
  | element h => exact Place.depth_child_add_height_le (.element h) _
  | position h => exact Place.depth_child_add_height_le (.element h) _
  | field h => exact Place.depth_child_add_height_le (.member (Members.mem_of_find? h)) _
  | member h => exact Place.depth_child_add_height_le (.member h) _
  | @atEnd α path inner v w p h =>
    have hheight := Json.height_add_length_le h
    have hdepth := Place.depth_descend p path
    show (p.descend path).depth + w.height ≤ p.depth + v.height
    omega
  | branch j => exact Nat.le_refl _
  | first => exact Nat.le_refl _
  | next a => exact Nat.le_refl _
  | inner => exact Nat.le_refl _
  | body h => exact Nat.le_refl _

theorem Job.Leads.depth_add_height_le {j j' : Job τ} (h : j.Leads defs j') :
    j'.place.depth + j'.value.height ≤ j.place.depth + j.value.height := by
  induction h with
  | refl => exact Nat.le_refl _
  | tail _ hstep ih => exact Nat.le_trans hstep.depth_add_height_le ih

end

/-! ## Runs under an ample limit -/

/-- No difference at all. -/
def Difference.none : Difference fun _ => True where
  between _ _ := False
  bind := by
    intro α β r r' next next' h
    exact h
  value_bind h := h
  orElse := by
    intro _ α r r' others others' branch h
    exact h
  error_orElse := by
    intro _ α e events others others' branch h
    exact h

/-- Runs that are the same without the limit, at places that leave as much as the value is high. -/
def Simulation.ampleLimit (n : Nat) : Simulation :=
  Difference.none.simulation
    (fun v p p' => p.limit = some n ∧ p' = p.withLimit none ∧ p.depth + v.height ≤ n)
    (by
      rintro v w p _ a ⟨hlimit, rfl, hdepth⟩ hw
      exact ⟨hlimit, rfl, Nat.le_trans (Place.depth_child_add_height_le hw p) hdepth⟩)
    (by
      rintro v p _ ⟨_, rfl, _⟩
      rfl)
    (by
      rintro v p _ ⟨hlimit, rfl, hdepth⟩
      left
      have hfree : p.isTooDeep = false := by
        unfold Place.isTooDeep
        rw [hlimit]
        exact decide_eq_false (by omega : ¬ n < p.depth)
      rw [hfree]
      rfl)

section

variable {ι : Type} [Numbered ι] {τ : ι → Type} {α : Type}

/-- **A limit as large as the height of the input is none.**  No run that a decode starts stands at
a place deeper than the input is high; so under a limit of that height or more the decode has the
outcome and the events that it has without. -/
theorem Decoder.decodeWithin_of_height_le (defs : Definitions τ) (budget : Nat) (d : Decoder τ α)
    (v : Json) (n : Nat) (hn : v.height ≤ n) :
    d.decodeWithin defs budget (Options.unlimited.withMaxDepth n) v =
        d.decodeWithin defs budget .unlimited v ∧
      ∀ (options : Options) (job : Job τ),
        Job.Leads defs ⟨d, v, Place.root options.maxDepth⟩ job →
          job.place.depth = job.place.path.length ∧ job.place.path.length ≤ v.height := by
  constructor
  · have hplace : (Simulation.ampleLimit n).places v (Place.root (some n)) (Place.root none) :=
      ⟨rfl, rfl, (Nat.zero_add v.height).symm ▸ hn⟩
    have hrun := (Simulation.ampleLimit n).runWithin (fun i => (defs i).builtFrom_all)
      (.inl rfl) budget d.builtFrom_all hplace
    rcases hrun with h | h
    · exact congrArg Run.reportFailure h
    · exact h.elim
  · intro options job hjob
    have hle : job.place.depth + job.value.height ≤ 0 + v.height := hjob.depth_add_height_le
    have hdepth := job.place.depth_eq
    refine ⟨hdepth, ?_⟩
    omega

end

/-- Three arrays in each other: a limit of two is the height of the outermost, and the innermost is
entered two steps down.  One less refuses it. -/
theorem nestedArrays_decode_at_height :
    let d : Decoder (fun _ : Fin 1 => Nat) Nat := .ref 0
    let v : Json := .array [.array [.array []]]
    let decode options := d.decodeWithin nestedArrays 3 options v
    let innermost : Job fun _ : Fin 1 => Nat :=
      ⟨d, .array [], ((Place.root (some 2)).child (.index 0)).child (.index 0)⟩
    (v.height ≤ 2 ∧ decode (Options.unlimited.withMaxDepth 2) = decode .unlimited) ∧
      (Job.Leads nestedArrays ⟨d, v, Place.root (some 2)⟩ innermost ∧
        innermost.place.path.length ≤ v.height) ∧
      (decode (Options.unlimited.withMaxDepth 1)).outcome =
        .error ⟨[.index 0, .index 0], .message "max depth exceeded"⟩ := by
  intro d v decode innermost
  have hheight : v.height ≤ 2 := by decide
  have hdown : ∀ (w : Json) (p : Place), ¬ p.isTooDeep →
      Job.Leads nestedArrays ⟨d, .array [w], p⟩ ⟨d, w, p.child (.index 0)⟩ :=
    fun w p hp => .head (.body hp) (.head .inner (.single (.element rfl)))
  have hleads : Job.Leads nestedArrays ⟨d, v, Place.root (some 2)⟩ innermost :=
    (hdown (.array [.array []]) (Place.root (some 2)) (by decide)).trans
      (hdown (.array []) _ (by decide))
  have hlimit := Decoder.decodeWithin_of_height_le nestedArrays 3 d v 2 hheight
  exact ⟨⟨hheight, hlimit.1⟩, ⟨hleads, (hlimit.2 ⟨some 2⟩ innermost hleads).2⟩, rfl⟩

end TypedJson
