import Mathlib.Data.List.Perm.Subperm
import TypedJson.Decoder.Decode
import TypedJson.Proofs.Acceptance
import TypedJson.Proofs.KeyOrder

/-!
# Equivalence is equality of normal forms

Doubles have the same value iff they are the same once the sign of a zero is dropped, because the
units of a magnitude grow with its rank (`Binary64.sameValue_iff`).  Numbers are therefore
equivalent iff their normal forms are equal, whether they were compared exactly or as doubles.

Equivalence of objects looks up the keys of one side only.  As no key comes twice and both sides
have the same number of members, every key of the other side has been looked up
(`Members.keys_subset_of_length_eq`), and so the relation is an equivalence relation
(`Json.equivalent_iff_normal_eq`).
-/

namespace TypedJson

/-! ## Doubles -/

namespace Binary64

/-- In each binade the units grow by one power of two at every rank. -/
theorem unitsOfRank_binade (k : Nat) {m : Nat} (hm : m < perBinade) :
    unitsOfRank (perBinade * (k + 1) + m) = (perBinade + m) * 2 ^ k := by
  have hP : 0 < perBinade := by decide
  have hdiv : (perBinade * (k + 1) + m) / perBinade = k + 1 := by
    rw [Nat.mul_add_div hP, Nat.div_eq_of_lt hm, Nat.add_zero]
  have hge : ¬ perBinade * (k + 1) + m < perBinade := by
    rw [Nat.mul_succ]
    omega
  rw [unitsOfRank, if_neg hge, hdiv, Nat.mul_add_mod, Nat.mod_eq_of_lt hm, Nat.shiftLeft_eq,
    Nat.add_sub_cancel]

/-- Every rank that is not below the first binade is in some binade. -/
theorem exists_binade {rank : Nat} (h : ¬ rank < perBinade) :
    ∃ k m, m < perBinade ∧ rank = perBinade * (k + 1) + m := by
  have hP : 0 < perBinade := by decide
  obtain ⟨k, hk⟩ : ∃ k, rank / perBinade = k + 1 :=
    Nat.exists_eq_succ_of_ne_zero (Nat.div_pos (by omega) hP).ne'
  refine ⟨k, rank % perBinade, Nat.mod_lt rank hP, ?_⟩
  rw [← hk]
  exact (Nat.div_add_mod rank perBinade).symm

theorem unitsOfRank_lt_succ (rank : Nat) : unitsOfRank rank < unitsOfRank (rank + 1) := by
  have hP : 0 < perBinade := by decide
  have hfirst : unitsOfRank perBinade = perBinade := by decide
  by_cases hlow : rank < perBinade
  · have hunits : unitsOfRank rank = rank := if_pos hlow
    rcases Nat.lt_or_eq_of_le hlow with hnext | hnext
    · have hunits' : unitsOfRank (rank + 1) = rank + 1 := if_pos hnext
      omega
    · rw [hunits, show rank + 1 = perBinade from hnext, hfirst]
      exact hlow
  · obtain ⟨k, m, hm, rfl⟩ := exists_binade hlow
    have hpow : 0 < 2 ^ k := Nat.two_pow_pos k
    rcases Nat.lt_or_eq_of_le hm with hnext | hnext
    · rw [Nat.add_assoc, unitsOfRank_binade k hm, unitsOfRank_binade k hnext]
      exact Nat.mul_lt_mul_of_pos_right (by omega) hpow
    · have hbinade : perBinade * (k + 1) + m + 1 = perBinade * (k + 1 + 1) + 0 := by
        rw [Nat.mul_succ _ (k + 1)]
        omega
      rw [hbinade, unitsOfRank_binade k hm, unitsOfRank_binade (k + 1) hP, Nat.pow_succ]
      calc (perBinade + m) * 2 ^ k < (perBinade * 2) * 2 ^ k :=
            Nat.mul_lt_mul_of_pos_right (by omega) hpow
        _ = (perBinade + 0) * (2 ^ k * 2) := by rw [Nat.add_zero, Nat.mul_assoc, Nat.mul_comm 2]

/-- A greater rank has more units, so a magnitude has one rank. -/
theorem unitsOfRank_strictMono : StrictMono unitsOfRank :=
  strictMono_nat_of_lt_succ unitsOfRank_lt_succ

theorem unsignZero_eq_zero_iff {x : Binary64} : x.unsignZero = zero ↔ x.rank = 0 := by
  unfold unsignZero isZero
  constructor
  · intro h
    split at h
    · next hrank => exact beq_iff_eq.1 hrank
    · exact congrArg rank h
  · intro h
    rw [if_pos (beq_iff_eq.2 h)]

theorem signedUnits_eq_zero_iff {x : Binary64} : x.signedUnits = 0 ↔ x.rank = 0 := by
  have hunits : x.units = 0 ↔ x.rank = 0 := unitsOfRank_strictMono.injective.eq_iff' (by decide)
  rw [← hunits, signedUnits]
  split
  · omega
  · omega

/-- Doubles of one value are the same but for the sign of a zero. -/
theorem sameValue_iff {x y : Binary64} : x.sameValue y = true ↔ x.unsignZero = y.unsignZero := by
  rw [sameValue, beq_iff_eq]
  by_cases hy : y.rank = 0
  · rw [unsignZero_eq_zero_iff.2 hy, signedUnits_eq_zero_iff.2 hy, unsignZero_eq_zero_iff,
      signedUnits_eq_zero_iff]
  by_cases hx : x.rank = 0
  · rw [unsignZero_eq_zero_iff.2 hx, signedUnits_eq_zero_iff.2 hx, eq_comm, eq_comm (a := zero),
      unsignZero_eq_zero_iff, signedUnits_eq_zero_iff]
  have hx' : x.unsignZero = x := if_neg (by simpa [isZero] using hx)
  have hy' : y.unsignZero = y := if_neg (by simpa [isZero] using hy)
  rw [hx', hy']
  constructor
  · intro h
    have hxpos : x.signedUnits ≠ 0 := fun h0 => hx (signedUnits_eq_zero_iff.1 h0)
    have hboth : x.negative = y.negative ∧ x.units = y.units := by
      unfold signedUnits at h hxpos
      cases hxs : x.negative <;> cases hys : y.negative <;> simp [hxs, hys] at h hxpos ⊢ <;> omega
    have hrank : x.rank = y.rank := unitsOfRank_strictMono.injective hboth.2
    cases x
    cases y
    simp_all
  · rintro rfl
    rfl

end Binary64

/-! ## Numbers -/

namespace Number

theorem sameValue_of_identical {a b : Number} (h : a.identical b = true) :
    a.sameValue b = true := by
  cases a with
  | whole m hm =>
    cases b with
    | whole n hn =>
      cases (beq_iff_eq.1 h : m = n)
      exact Binary64.sameValue_iff.2 rfl
    | double y => cases h
  | double x =>
    cases b with
    | whole n hn => cases h
    | double y => exact h

theorem equivalent_iff {a b : Number} :
    (a.identical b || a.sameValue b) = true ↔
      a.toBinary64.unsignZero = b.toBinary64.unsignZero := by
  rw [Bool.or_eq_true, or_iff_right_of_imp sameValue_of_identical]
  exact Binary64.sameValue_iff

end Number

/-! ## Members -/

namespace Members

/-- If all keys of one side are on the other, and there are as many, those are all. -/
theorem keys_subset_of_length_eq {as bs : Members} (has : (keys as).Pairwise (· < ·))
    (hsub : keys as ⊆ keys bs) (hlength : as.length = bs.length) : keys bs ⊆ keys as := by
  have hnodup : (keys as).Nodup := has.imp fun h => String.ne_of_lt h
  have hperm := (List.subperm_of_subset hnodup hsub).perm_of_length_le
    (by simp [keys, hlength])
  exact hperm.symm.subset

end Members

/-! ## Values -/

namespace Json

theorem membersEquivalent_iff {as bs : Members} :
    membersEquivalent as bs = true ↔
      ∀ key a, (key, a) ∈ as → ∃ b, Members.find? key bs = some b ∧ a.equivalent b = true := by
  induction as with
  | nil => simp [membersEquivalent]
  | cons m as ih =>
    obtain ⟨key, a⟩ := m
    rw [membersEquivalent, Bool.and_eq_true, ih]
    constructor
    · rintro ⟨hfirst, hrest⟩ k w hw
      rcases List.mem_cons.1 hw with hw | hw
      · cases hw
        split at hfirst
        · next b hb => exact ⟨b, hb, hfirst⟩
        · cases hfirst
      · exact hrest k w hw
    · intro h
      refine ⟨?_, fun k w hw => h k w (List.mem_cons_of_mem _ hw)⟩
      obtain ⟨b, hb, hab⟩ := h key a List.mem_cons_self
      rw [hb]
      exact hab

/-- Arrays are equivalent iff their normal forms are equal, if that is so for their elements. -/
theorem elementsEquivalent_iff {as bs : List Json} (hbs : ElementsWellFormed bs)
    (h : ∀ a ∈ as, ∀ b : Json, b.WellFormed → (a.equivalent b = true ↔ a.normal = b.normal)) :
    (as.length == bs.length && elementsEquivalent as bs) = true ↔
      normalElements as = normalElements bs := by
  induction as generalizing bs with
  | nil =>
    cases bs with
    | nil => simp [elementsEquivalent]
    | cons b bs => simp [normalElements]
  | cons a as ih =>
    cases bs with
    | nil => simp [normalElements]
    | cons b bs =>
      have hfirst := h a List.mem_cons_self b hbs.1
      have hrest := ih hbs.2 fun a' ha' => h a' (List.mem_cons_of_mem _ ha')
      rw [normalElements, normalElements, List.cons.injEq, ← hfirst, ← hrest, elementsEquivalent]
      simp only [List.length_cons, Bool.and_eq_true, beq_iff_eq, Nat.add_right_cancel_iff]
      tauto

/-- Objects are equivalent iff their normal forms are equal, if that is so for their members. -/
theorem objectsEquivalent_iff {as bs : Members} (has : (Members.keys as).Pairwise (· < ·))
    (hbs : (Members.keys bs).Pairwise (· < ·)) (hwf : MembersWellFormed bs)
    (h : ∀ key a, (key, a) ∈ as →
      ∀ b : Json, b.WellFormed → (a.equivalent b = true ↔ a.normal = b.normal)) :
    (as.length == bs.length && membersEquivalent as bs) = true ↔
      normalMembers as = normalMembers bs := by
  have hpair : ∀ {key a b}, Members.find? key as = some a → Members.find? key bs = some b →
      (a.equivalent b = true ↔ a.normal = b.normal) := fun ha hb =>
    h _ _ (Members.mem_of_find? ha) _ (hwf.of_mem (Members.mem_of_find? hb))
  rw [normalMembers_eq_map, normalMembers_eq_map, Bool.and_eq_true, beq_iff_eq,
    membersEquivalent_iff]
  constructor
  · rintro ⟨hlength, hmembers⟩
    have hkeys : Members.keys bs ⊆ Members.keys as := by
      refine Members.keys_subset_of_length_eq has (fun key hkey => ?_) hlength
      obtain ⟨⟨k, a⟩, ha, rfl⟩ := List.mem_map.1 hkey
      obtain ⟨b, hb, -⟩ := hmembers k a ha
      exact List.mem_map.2 ⟨(k, b), Members.mem_of_find? hb, rfl⟩
    refine Members.ext_find? (by rwa [Members.keys_map]) (by rwa [Members.keys_map]) fun key => ?_
    rw [Members.find?_map, Members.find?_map]
    cases ha : Members.find? key as with
    | none =>
      have hb := Members.find?_eq_none_iff.2 fun hkey => Members.find?_eq_none_iff.1 ha (hkeys hkey)
      rw [hb]
    | some a =>
      obtain ⟨b, hb, hab⟩ := hmembers key a (Members.mem_of_find? ha)
      rw [hb, Option.map_some, Option.map_some, (hpair ha hb).1 hab]
  · intro hnormal
    refine ⟨by simpa using congrArg List.length hnormal, fun key a ha => ?_⟩
    have hfind := Members.find?_eq_some_of_mem has ha
    have hfind' := congrArg (Members.find? key) hnormal
    rw [Members.find?_map, Members.find?_map, hfind] at hfind'
    obtain ⟨b, hb, hab⟩ := Option.map_eq_some_iff.1 hfind'.symm
    exact ⟨b, hb, (hpair hfind hb).2 hab.symm⟩

theorem equivalent_iff_normal_eq {a b : Json} (ha : a.WellFormed) (hb : b.WellFormed) :
    a.equivalent b = true ↔ a.normal = b.normal := by
  induction a using Json.induction generalizing b with
  | null => cases b <;> simp [equivalent, identical, normal]
  | boolean x => cases b <;> simp [equivalent, identical, normal]
  | string s => cases b <;> simp [equivalent, identical, normal]
  | number n =>
    cases b with
    | number m =>
      rw [equivalent, Number.equivalent_iff]
      simp [normal]
    | _ => simp [equivalent, identical, normal]
  | array as ih =>
    cases b with
    | array bs =>
      rw [equivalent, normal, normal, Json.array.injEq]
      exact elementsEquivalent_iff hb fun a hmem b hb => ih a hmem (ha.of_mem hmem) hb
    | _ => simp [equivalent, identical, normal]
  | object as ih =>
    cases b with
    | object bs =>
      rw [equivalent, normal, normal, Json.object.injEq]
      exact objectsEquivalent_iff ha.1 hb.1 hb.2 fun key a hmem b hb =>
        ih key a hmem (ha.2.of_mem hmem) hb
    | _ => simp [equivalent, identical, normal]

theorem normalElements_eq_of_identical {as bs : List Json}
    (ih : ∀ a ∈ as, ∀ b : Json, a.identical b = true → a.normal = b.normal)
    (h : elementsIdentical as bs = true) : normalElements as = normalElements bs := by
  induction as generalizing bs with
  | nil =>
    cases bs with
    | nil => rfl
    | cons b bs => cases h
  | cons a as iha =>
    cases bs with
    | nil => cases h
    | cons b bs =>
      obtain ⟨hfirst, hrest⟩ := Bool.and_eq_true_iff.1 h
      rw [normalElements, normalElements, ih a List.mem_cons_self b hfirst,
        iha (fun a' ha' => ih a' (List.mem_cons_of_mem _ ha')) hrest]

theorem normalMembers_eq_of_identical {as bs : Members}
    (ih : ∀ key a, (key, a) ∈ as → ∀ b : Json, a.identical b = true → a.normal = b.normal)
    (h : membersIdentical as bs = true) : normalMembers as = normalMembers bs := by
  induction as generalizing bs with
  | nil =>
    cases bs with
    | nil => rfl
    | cons b bs => cases h
  | cons m as iha =>
    cases bs with
    | nil => cases h
    | cons m' bs =>
      obtain ⟨hfirst, hrest⟩ := Bool.and_eq_true_iff.1 h
      obtain ⟨hkey, hvalue⟩ := Bool.and_eq_true_iff.1 hfirst
      rw [normalMembers, normalMembers, beq_iff_eq.1 hkey,
        ih m.1 m.2 List.mem_cons_self m'.2 hvalue,
        iha (fun key a ha => ih key a (List.mem_cons_of_mem _ ha)) hrest]

theorem normal_eq_of_identical {a b : Json} (h : a.identical b = true) : a.normal = b.normal := by
  induction a using Json.induction generalizing b with
  | number n =>
    cases b with
    | number m =>
      have hnormal := Number.equivalent_iff.1 (Bool.or_eq_true_iff.2 (.inl h))
      rw [normal, normal, hnormal]
    | _ => cases h
  | array as ih =>
    cases b with
    | array bs => exact congrArg Json.array (normalElements_eq_of_identical (fun a ha _ => ih a ha) h)
    | _ => cases h
  | object as ih =>
    cases b with
    | object bs =>
      exact congrArg Json.object (normalMembers_eq_of_identical (fun key a ha _ => ih key a ha) h)
    | _ => cases h
  | _ => cases b <;> simp_all [identical, normal]

end Json

/-! ## Literals -/

theorem Runner.equal_outcome_eq_value_iff {literal v x : Json} {p : Place} :
    (Runner.equal literal v p).outcome = .value x ↔ x = literal ∧ literal.equivalent v = true := by
  unfold Runner.equal
  split
  · next h =>
    constructor
    · rintro ⟨⟩
      exact ⟨rfl, h⟩
    · rintro ⟨rfl, -⟩
      rfl
  · next h =>
    constructor
    · intro hx
      cases hx
    · rintro ⟨-, h'⟩
      exact absurd h' h

section

variable {ι : Type} [Numbered ι] {τ : ι → Type}

/-- **Equivalence is equality of normal forms.**  So it is an equivalence relation, it contains
identity, and the decoder of a literal accepts the values of its class and no others, always with
the literal itself. -/
theorem Decoder.equal_accepts_class (defs : Definitions τ) (budget : Nat) (p : Place)
    {a b c : Json} (ha : a.WellFormed) (hb : b.WellFormed) (hc : c.WellFormed) :
    (a.equivalent b = true ↔ a.normal = b.normal) ∧
    (a.equivalent a = true ∧ (a.equivalent b = true → b.equivalent a = true) ∧
      (a.equivalent b = true → b.equivalent c = true → a.equivalent c = true) ∧
      (a.identical b = true → a.equivalent b = true)) ∧
    (∀ x, ((Decoder.equal a).runWithin defs budget b p).outcome = .value x ↔
      x = a ∧ a.normal = b.normal) ∧
    (((Decoder.equal a).runWithin defs budget b p).Accepts ↔
      ((Decoder.equal b).runWithin defs budget a p).Accepts) := by
  have hab := Json.equivalent_iff_normal_eq ha hb
  have hba := Json.equivalent_iff_normal_eq hb ha
  have hrun : ∀ {v w x : Json}, ((Decoder.equal v).runWithin defs budget w p).outcome = .value x ↔
      x = v ∧ v.equivalent w = true := Runner.equal_outcome_eq_value_iff
  refine ⟨hab, ⟨?_, ?_, ?_, ?_⟩, fun x => ?_, ?_⟩
  · exact (Json.equivalent_iff_normal_eq ha ha).2 rfl
  · exact fun h => hba.2 (hab.1 h).symm
  · intro h h'
    have hbc := (Json.equivalent_iff_normal_eq hb hc).1 h'
    exact (Json.equivalent_iff_normal_eq ha hc).2 ((hab.1 h).trans hbc)
  · exact fun h => hab.2 (Json.normal_eq_of_identical h)
  · rw [hrun, hab]
  · constructor
    · rintro ⟨x, hx⟩
      exact ⟨b, hrun.2 ⟨rfl, hba.2 (hab.1 (hrun.1 hx).2).symm⟩⟩
    · rintro ⟨x, hx⟩
      exact ⟨a, hrun.2 ⟨rfl, hab.2 (hba.1 (hrun.1 hx).2).symm⟩⟩

end

/-- 2^53 + 1 is rounded to 2^53, so inside an object too it is in the class of the double 2^53.0,
which has another format.  The decoder of the one accepts the other, and yields its own literal. -/
theorem roundedWhole_equal_accepts_class :
    let a : Json := .object [("n", .array [.number (.whole 9007199254740993 (by decide)), .null])]
    let b : Json := .object [("n", .array
      [.number (.double ⟨false, 1076 * Binary64.perBinade, by decide⟩), .null])]
    let literal : Decoder (fun i : Fin 0 => i.elim0) Json := .equal a
    let run := literal.runWithin (fun i => i.elim0) 0 b (Place.root none)
    (a.WellFormed ∧ b.WellFormed) ∧ (a.equivalent b = true ∧ a.identical b = false) ∧
      run.outcome = .value a := by
  intro a b literal run
  have ha : a.WellFormed := by
    simp [a, Json.WellFormed, Json.MembersWellFormed, Json.ElementsWellFormed, Members.keys]
  have hb : b.WellFormed := by
    simp [b, Json.WellFormed, Json.MembersWellFormed, Json.ElementsWellFormed, Members.keys]
  have hround : (Number.whole 9007199254740993 (by decide)).toBinary64.unsignZero =
      (Number.double ⟨false, 1076 * Binary64.perBinade, by decide⟩).toBinary64.unsignZero := by
    decide +kernel
  have hnormal : a.normal = b.normal := by
    simp only [a, b, Json.normal, Json.normalMembers, Json.normalElements, hround]
  have hclass := Decoder.equal_accepts_class (τ := fun i : Fin 0 => i.elim0) (fun i => i.elim0) 0
    (Place.root none) ha hb ha
  exact ⟨⟨ha, hb⟩, ⟨hclass.1.2 hnormal, by decide⟩, (hclass.2.2.1 a).2 ⟨rfl, hnormal⟩⟩

end TypedJson
