import Mathlib.Algebra.Order.Field.Basic
import Mathlib.Algebra.Order.Field.Rat
import Mathlib.Tactic.NormNum
import TypedJson.Proofs.Rounding

/-!
# Numbers below 2^53 are compared exactly

A literal number is compared with a number by the nearest doubles.  Up to 2^53 a number is its
nearest double, and what is not below 2^53 is not rounded below it.  So a literal of magnitude less
than 2^53 accepts the numbers of its exact value and no others.
-/

namespace TypedJson

namespace Binary64

/-- The value; both zeros have the value 0. -/
def value (x : Binary64) : ℚ := x.signedUnits / unitsPerOne

theorem unitsPerOne_pos : (0 : ℚ) < unitsPerOne :=
  Nat.cast_pos.2 (by decide)

theorem sameValue_iff_value_eq {x y : Binary64} : x.sameValue y = true ↔ x.value = y.value := by
  rw [sameValue, beq_iff_eq, value, value, div_left_inj' unitsPerOne_pos.ne', Int.cast_inj]

theorem abs_signedUnits (x : Binary64) : |x.signedUnits| = x.units := by
  unfold signedUnits
  split
  · rw [abs_neg, Nat.abs_cast]
  · rw [Nat.abs_cast]

section

variable {m : Int} {h : m.natAbs < 0x10000000000000000}

theorem ofWhole_value (hm : |(m : ℚ)| ≤ 2 ^ 53) : (ofWhole m h).value = m := by
  have hbits : m.natAbs ≤ 2 * perBinade := by
    rw [← Int.cast_abs, Int.abs_eq_natAbs] at hm
    exact_mod_cast hm
  rw [value, ofWhole_signedUnits hbits, Int.cast_mul, Int.cast_natCast,
    mul_div_cancel_right₀ _ unitsPerOne_pos.ne']

theorem le_abs_ofWhole_value (hm : 2 ^ 53 ≤ |(m : ℚ)|) : 2 ^ 53 ≤ |(ofWhole m h).value| := by
  have hbits : 2 * perBinade ≤ m.natAbs := by
    rw [← Int.cast_abs, Int.abs_eq_natAbs] at hm
    exact_mod_cast hm
  have hunits : (2 ^ 53 * unitsPerOne : ℚ) ≤ (ofWhole m h).units := by
    exact_mod_cast le_units_ofWhole hbits
  rw [value, abs_div, abs_of_pos unitsPerOne_pos, le_div_iff₀ unitsPerOne_pos, ← Int.cast_abs,
    abs_signedUnits]
  exact hunits

end

end Binary64

namespace Number

/-- The value, exactly. -/
def exactValue : Number → ℚ
  | .whole value _ => value
  | .double x => x.value

/-- A number of magnitude up to 2^53 is its nearest double. -/
theorem value_toBinary64 {n : Number} (h : |n.exactValue| ≤ 2 ^ 53) :
    n.toBinary64.value = n.exactValue := by
  cases n with
  | whole m _ =>
    rw [toBinary64]
    exact Binary64.ofWhole_value h
  | double x => rfl

/-- A number that is not below 2^53 is not rounded below. -/
theorem le_abs_value_toBinary64 {n : Number} (h : 2 ^ 53 ≤ |n.exactValue|) :
    2 ^ 53 ≤ |n.toBinary64.value| := by
  cases n with
  | whole m _ =>
    rw [toBinary64]
    exact Binary64.le_abs_ofWhole_value h
  | double x => exact h

/-- Below 2^53 the nearest doubles have the same value iff the numbers have it. -/
theorem sameValue_iff_exactValue_eq {a b : Number} (ha : |a.exactValue| < 2 ^ 53) :
    a.sameValue b = true ↔ a.exactValue = b.exactValue := by
  rw [sameValue, Binary64.sameValue_iff_value_eq, value_toBinary64 ha.le]
  by_cases hb : |b.exactValue| < 2 ^ 53
  · rw [value_toBinary64 hb.le]
  · -- `b` is rounded to a double that is not below 2^53 either, so neither side holds
    have hrounded := le_abs_value_toBinary64 (not_lt.1 hb)
    constructor
    · intro h
      rw [← h] at hrounded
      exact absurd ha (not_lt.2 hrounded)
    · intro h
      rw [← h] at hb
      exact absurd ha hb

end Number

section

variable {ι : Type} [Numbered ι] {τ : ι → Type}

theorem Decoder.equal_accepts_iff_equivalent (defs : Definitions τ) (budget : Nat)
    (literal v : Json) (p : Place) :
    ((Decoder.equal literal).runWithin defs budget v p).Accepts ↔ literal.equivalent v = true := by
  constructor
  · rintro ⟨x, hx⟩
    exact (Runner.equal_outcome_eq_value_iff.1 hx).2
  · exact fun h => ⟨literal, Runner.equal_outcome_eq_value_iff.2 ⟨rfl, h⟩⟩

/-- **Numbers below 2^53 are compared exactly.**  The decoder of a literal number of magnitude less
than 2^53 accepts the numbers of the same exact value and no others, whether they are written as
whole numbers or as doubles, and however great they are. -/
theorem Decoder.equal_accepts_iff_exactValue_eq (defs : Definitions τ) (budget : Nat) (p : Place)
    {a : Number} (ha : |a.exactValue| < 2 ^ 53) (b : Number) :
    ((Decoder.equal (.number a)).runWithin defs budget (.number b) p).Accepts ↔
      a.exactValue = b.exactValue := by
  rw [Decoder.equal_accepts_iff_equivalent, ← Number.sameValue_iff_exactValue_eq ha,
    Json.equivalent, Bool.or_eq_true, or_iff_right_of_imp Number.sameValue_of_identical]

end

/-- The greatest whole number below 2^53 as a literal: the double of that value is accepted, so it
has the same exact value, and the greatest whole number of 64 bits has not, so it is rejected.  A
zero that shows its sign is accepted as 0. -/
theorem greatestExact_equal_accepts :
    let accepts (a b : Number) := ((Decoder.equal (.number a)).runWithin
      (τ := fun i : Fin 0 => i.elim0) (fun i => i.elim0) 0 (.number b) (Place.root none)).Accepts
    let a : Number := .whole 9007199254740991 (by decide)
    let b : Number :=
      .double ⟨false, 1075 * Binary64.perBinade + (Binary64.perBinade - 1), by decide⟩
    let c : Number := .whole 18446744073709551615 (by decide)
    let zero : Number := .whole 0 (by decide)
    let negativeZero : Number := .double ⟨true, 0, by decide⟩
    |a.exactValue| < 2 ^ 53 ∧ (accepts a b ∧ a.exactValue = b.exactValue) ∧
      (a.exactValue ≠ c.exactValue ∧ ¬ accepts a c) ∧
      |zero.exactValue| < 2 ^ 53 ∧ accepts zero negativeZero := by
  intro accepts a b c zero negativeZero
  have ha : |a.exactValue| < 2 ^ 53 := by norm_num [a, Number.exactValue]
  have hzero : |zero.exactValue| < 2 ^ 53 := by norm_num [zero, Number.exactValue]
  have haccepts : ∀ {a b : Number}, |a.exactValue| < 2 ^ 53 →
      (accepts a b ↔ a.exactValue = b.exactValue) := fun ha =>
    Decoder.equal_accepts_iff_exactValue_eq _ 0 (Place.root none) ha _
  have hequivalent : (Json.number a).equivalent (.number b) = true := by decide +kernel
  have hb : accepts a b := (Decoder.equal_accepts_iff_equivalent _ 0 _ _ _).2 hequivalent
  have hc : a.exactValue ≠ c.exactValue := by norm_num [a, c, Number.exactValue]
  have hsame : zero.exactValue = negativeZero.exactValue := by
    have hunits : Binary64.signedUnits ⟨true, 0, by decide⟩ = 0 := by decide
    simp [zero, negativeZero, Number.exactValue, Binary64.value, hunits]
  exact ⟨ha, ⟨hb, (haccepts ha).1 hb⟩, ⟨hc, fun h => hc ((haccepts ha).1 h)⟩, hzero,
    (haccepts hzero).2 hsame⟩

/-- From 2^53 on the comparison is not exact: the next whole number has the same nearest double. -/
example : (Number.whole 9007199254740992 (by decide)).sameValue
    (.whole 9007199254740993 (by decide)) = true := by
  decide +kernel

end TypedJson
