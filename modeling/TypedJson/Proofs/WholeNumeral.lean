import TypedJson.Json.Reader
import TypedJson.Proofs.PathText

/-!
# Whole numbers are read back

The text of a whole number is its decimal digits, after a minus if it is negative.  They have no
zero in front (`toDigits_eq_of_head_zero`) and their number fits 64 bits, so the reader takes all
of them up (`takeUp_toDigits`) and is left with what follows, if that does not go on as a numeral
(`Numeral.read_whole`).
-/

namespace TypedJson

namespace Numeral

/-- May the character go on a numeral? -/
def continues (c : Char) : Bool := c.isDigit || c == '.' || c == 'e' || c == 'E'

/-! ## Digits -/

theorem le_ofDigitChars (digits : List Char) (n : Nat) : n ≤ Nat.ofDigitChars 10 digits n := by
  induction digits generalizing n with
  | nil => exact Nat.le_refl n
  | cons c digits ih =>
    have hn := ih (10 * n + (c.toNat - '0'.toNat))
    rw [Nat.ofDigitChars_cons]
    omega

/-- Digits are taken up as long as the number of all of them is below the limit. -/
theorem takeUp_eq {limit : Nat} {digits : List Char} {n : Fin limit}
    (h : Nat.ofDigitChars 10 digits n.val < limit) :
    takeUp n digits = (⟨Nat.ofDigitChars 10 digits n.val, h⟩, []) := by
  induction digits generalizing n with
  | nil => rfl
  | cons c digits ih =>
    have hstep : Nat.ofDigitChars 10 (c :: digits) n.val =
        Nat.ofDigitChars 10 digits (n.val * 10 + digitValue c) := by
      rw [Nat.ofDigitChars_cons, Nat.mul_comm]
      rfl
    have hlt : n.val * 10 + digitValue c < limit :=
      Nat.lt_of_le_of_lt (le_ofDigitChars digits _) (hstep ▸ h)
    rw [takeUp, dif_pos hlt, ih (hstep ▸ h)]
    simp only [hstep]

theorem takeUp_toDigits {limit m : Nat} (h : m < limit) :
    takeUp ⟨0, Nat.zero_lt_of_lt h⟩ (Nat.toDigits 10 m) = (⟨m, h⟩, []) := by
  have hvalue : Nat.ofDigitChars 10 (Nat.toDigits 10 m) 0 = m := Nat.ofDigitChars_ten_toDigits
  rw [takeUp_eq (by rw [hvalue]; exact h)]
  simp only [hvalue]

theorem toDigits_eq_cons (m : Nat) : ∃ c digits, Nat.toDigits 10 m = c :: digits ∧ c.isDigit := by
  obtain ⟨c, digits, hdigits⟩ := List.exists_cons_of_ne_nil (@Nat.toDigits_ne_nil m 10)
  exact ⟨c, digits, hdigits, isDigit_of_mem_toDigits m c (hdigits ▸ List.mem_cons_self)⟩

/-- Only the digits of zero begin with a zero. -/
theorem eq_zero_of_toDigits {m : Nat} {digits : List Char}
    (h : Nat.toDigits 10 m = '0' :: digits) : m = 0 := by
  induction m using Nat.strongRecOn generalizing digits with
  | ind m ih =>
    rcases Nat.lt_or_ge m 10 with hm | hm
    · have hdigit : ∀ m < 10, Nat.digitChar m = '0' → m = 0 := by decide
      rw [Nat.toDigits_of_lt_base hm] at h
      exact hdigit m hm (List.cons.inj h).1
    · obtain ⟨c, front, hfront, -⟩ := toDigits_eq_cons (m / 10)
      rw [Nat.toDigits_of_base_le (by decide) hm, hfront, List.cons_append] at h
      obtain ⟨rfl, -⟩ := List.cons.inj h
      have hzero := ih (m / 10) (by omega) hfront
      omega

/-! ## Numerals -/

theorem not_continues {c : Char} (h : continues c = false) :
    c.isDigit = false ∧ c ≠ '.' ∧ c ≠ 'e' ∧ c ≠ 'E' := by
  simpa [continues, and_assoc] using h

/-- What follows a numeral is no part of its digits. -/
theorem span_digits {digits rest : List Char} (hdigits : ∀ c ∈ digits, c.isDigit)
    (hrest : StartsOutside continues rest) :
    (digits ++ rest).takeWhile Char.isDigit = digits ∧
      (digits ++ rest).dropWhile Char.isDigit = rest := by
  rw [List.takeWhile_append_of_pos hdigits, List.dropWhile_append_of_pos hdigits]
  cases rest with
  | nil => exact ⟨List.append_nil digits, rfl⟩
  | cons c rest =>
    have hc := (not_continues (hrest c rfl)).1
    rw [List.takeWhile_cons_of_neg (by simp [hc]), List.dropWhile_cons_of_neg (by simp [hc])]
    exact ⟨List.append_nil digits, rfl⟩

/-- After the sign, the digits of a number that 64 bits hold are read. -/
theorem unsigned_toDigits (negative : Bool) {m : Nat} (hm : m < 0x10000000000000000)
    {rest : List Char} (hrest : StartsOutside continues rest) :
    unsigned negative (Nat.toDigits 10 m ++ rest) = .ok (whole negative ⟨m, hm⟩, rest) := by
  obtain ⟨htake, hdrop⟩ := span_digits (isDigit_of_mem_toDigits m) hrest
  obtain ⟨c, digits, hdigits, hc⟩ := toDigits_eq_cons m
  have hlead : ¬ (c = '0' ∧ (digits ++ rest).head?.any Char.isDigit) := by
    rintro ⟨rfl, hnext⟩
    -- a zero in front is the only digit, and what follows it is none
    obtain rfl := eq_zero_of_toDigits hdigits
    obtain ⟨-, rfl⟩ := List.cons.inj hdigits
    cases rest with
    | nil => cases hnext
    | cons d rest => exact absurd hnext (by simp [(not_continues (hrest d rfl)).1])
  have hcons : Nat.toDigits 10 m ++ rest = c :: (digits ++ rest) := by rw [hdigits]; rfl
  rw [hcons] at htake hdrop ⊢
  rw [unsigned, if_neg (fun h => h hc), if_neg hlead, htake, hdrop, takeUp_toDigits hm]
  cases rest with
  | nil => rfl
  | cons d rest =>
    obtain ⟨-, hpoint, hlower, hupper⟩ := not_continues (hrest d rfl)
    dsimp only
    split
    · next h => exact absurd (List.cons.inj h).1 hpoint
    · next h => exact absurd (List.cons.inj h).1 hlower
    · next h => exact absurd (List.cons.inj h).1 hupper
    · rfl

theorem whole_natAbs_of_neg {value : Int} (hneg : value < 0)
    (inRange : -9223372036854775808 ≤ value ∧ value ≤ 18446744073709551615)
    (h : value.natAbs < 0x10000000000000000) :
    whole true ⟨value.natAbs, h⟩ = .whole value inRange := by
  have hpositive : 0 < value.natAbs ∧ value.natAbs ≤ 9223372036854775808 := by omega
  have hvalue : -(value.natAbs : Int) = value := by omega
  rw [whole, dif_pos rfl, dif_pos hpositive]
  simp only [hvalue]

theorem whole_natAbs_of_nonneg {value : Int} (hneg : ¬ value < 0)
    (inRange : -9223372036854775808 ≤ value ∧ value ≤ 18446744073709551615)
    (h : value.natAbs < 0x10000000000000000) :
    whole false ⟨value.natAbs, h⟩ = .whole value inRange := by
  have hvalue : (value.natAbs : Int) = value := by omega
  rw [whole, dif_neg Bool.false_ne_true]
  simp only [hvalue]

/-- The text of a whole number is read back, whatever follows that is no part of a numeral. -/
theorem read_whole (value : Int)
    (inRange : -9223372036854775808 ≤ value ∧ value ≤ 18446744073709551615)
    {rest : List Char} (hrest : StartsOutside continues rest) :
    read ((Number.whole value inRange).chars ++ rest) = .ok (.whole value inRange, rest) := by
  have hfits : value.natAbs < 0x10000000000000000 := by omega
  rw [Number.chars]
  split
  · next hneg =>
    rw [List.cons_append, read, unsigned_toDigits true hfits hrest,
      whole_natAbs_of_neg hneg inRange]
  · next hneg =>
    obtain ⟨c, digits, hdigits, hc⟩ := toDigits_eq_cons value.natAbs
    have hunsigned := unsigned_toDigits false hfits hrest
    rw [whole_natAbs_of_nonneg hneg inRange, hdigits, List.cons_append] at hunsigned
    rw [hdigits, List.cons_append, read]
    · exact hunsigned
    · rintro s h
      obtain ⟨rfl, -⟩ := List.cons.inj h
      cases hc

/-- A whole number is written with a minus or a digit in front. -/
theorem chars_whole_eq_cons (value : Int)
    (inRange : -9223372036854775808 ≤ value ∧ value ≤ 18446744073709551615) :
    ∃ c cs, (Number.whole value inRange).chars = c :: cs ∧ (c = '-' ∨ c.isDigit) := by
  rw [Number.chars]
  split
  · exact ⟨_, _, rfl, .inl rfl⟩
  · obtain ⟨c, digits, hdigits, hc⟩ := toDigits_eq_cons value.natAbs
    exact ⟨c, digits, hdigits, .inr hc⟩

end Numeral

end TypedJson
