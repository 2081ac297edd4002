import Mathlib.Data.Nat.Dist
import Mathlib.Tactic.Ring
import TypedJson.Proofs.NormalForm

/-!
# The nearest magnitude, the even one on a tie

`nearestRank num den` rounds `num / den` units to a multiple of a power of two, `2 ^ k` with `k` the
spacing there.  That multiple is the nearest one, and magnitudes that are no multiples are lower
than all that matter:

    num / den < 2 ^ 53 * 2 ^ k                                         (lt_mul_step)
    2 ^ 52 * 2 ^ k ≤ num / den, unless k = 0                           (mul_step_le)
    a magnitude is a multiple of 2 ^ k, or less than 2 ^ 52 * 2 ^ k    (dvd_unitsOfRank_or_lt)

So no magnitude is nearer (`dist_nearestRank_le`), and if another one is as near, the rank is even
(`nearestRank_even_of_tie`).  What is not above a magnitude is not rounded above it, and a whole
number of up to 53 bits is a magnitude.
-/

namespace TypedJson

namespace Binary64

/-! ## Nearest multiples -/

/-- The quotient or its successor, whichever is not the farther one. -/
theorem roundHalfEven_cases (num den : Nat) :
    roundHalfEven num den = num / den ∧ 2 * (num % den) ≤ den ∨
      roundHalfEven num den = num / den + 1 ∧ den ≤ 2 * (num % den) := by
  simp only [roundHalfEven]
  by_cases hbelow : 2 * (num % den) < den
  · rw [if_pos hbelow]
    omega
  · rw [if_neg hbelow]
    by_cases habove : den < 2 * (num % den)
    · rw [if_pos habove]
      omega
    · rw [if_neg habove]
      omega

theorem div_le_roundHalfEven (num den : Nat) : num / den ≤ roundHalfEven num den := by
  rcases roundHalfEven_cases num den with ⟨h, -⟩ | ⟨h, -⟩
  · omega
  · omega

/-- A multiple is not above the quotient's, or at least at the next one. -/
theorem mul_le_or_add_le_mul (m quotient den : Nat) :
    m * den ≤ quotient * den ∨ quotient * den + den ≤ m * den := by
  by_cases h : m ≤ quotient
  · exact .inl (Nat.mul_le_mul_right den h)
  · right
    rw [← Nat.succ_mul]
    exact Nat.mul_le_mul_right den (by omega)

/-- No multiple is nearer than the rounded quotient. -/
theorem dist_roundHalfEven_le (num : Nat) {den : Nat} (hden : 0 < den) (m : Nat) :
    Nat.dist num (roundHalfEven num den * den) ≤ Nat.dist num (m * den) := by
  have hdiv : num / den * den + num % den = num := Nat.div_add_mod' num den
  have hmod : num % den < den := Nat.mod_lt num hden
  have hside := mul_le_or_add_le_mul m (num / den) den
  unfold Nat.dist
  rcases roundHalfEven_cases num den with ⟨h, hhalf⟩ | ⟨h, hhalf⟩
  · rw [h]
    omega
  · rw [h, Nat.succ_mul]
    omega

/-- If another multiple is as near, the rounded quotient is even. -/
theorem roundHalfEven_even_of_tie {num den m : Nat} (hden : 0 < den)
    (hne : m ≠ roundHalfEven num den)
    (htie : Nat.dist num (roundHalfEven num den * den) = Nat.dist num (m * den)) :
    roundHalfEven num den % 2 = 0 := by
  have hdiv : num / den * den + num % den = num := Nat.div_add_mod' num den
  have hmod : num % den < den := Nat.mod_lt num hden
  have hside := mul_le_or_add_le_mul m (num / den) den
  have hmul : m * den ≠ roundHalfEven num den * den := fun h =>
    hne (Nat.eq_of_mul_eq_mul_right hden h)
  have hhalf : 2 * (num % den) = den := by
    unfold Nat.dist at htie
    rcases roundHalfEven_cases num den with ⟨h, hhalf⟩ | ⟨h, hhalf⟩
    · rw [h] at htie hmul
      omega
    · rw [h, Nat.succ_mul] at htie hmul
      omega
  have hround : roundHalfEven num den = num / den + num / den % 2 := by
    simp only [roundHalfEven]
    rw [if_neg (by omega), if_neg (by omega)]
  omega

/-! ## The spacing of magnitudes -/

/-- The distance from one magnitude to the next at `num / den` units, times `den`. -/
def step (num den : Nat) : Nat := den * 2 ^ spacing num den

theorem step_pos (num : Nat) {den : Nat} (hden : 0 < den) : 0 < step num den :=
  Nat.mul_pos hden (Nat.two_pow_pos _)

theorem lt_mul_step (num : Nat) {den : Nat} (hden : 0 < den) :
    num < 2 * perBinade * step num den := by
  have hlog : (num / den).log2 + 1 ≤ 53 + spacing num den := by
    unfold spacing
    omega
  calc num < den * (num / den + 1) := Nat.lt_mul_div_succ num hden
    _ ≤ den * 2 ^ ((num / den).log2 + 1) := Nat.mul_le_mul_left den Nat.lt_log2_self
    _ ≤ den * 2 ^ (53 + spacing num den) :=
      Nat.mul_le_mul_left den (Nat.pow_le_pow_right (by decide) hlog)
    _ = 2 * perBinade * step num den := by
      rw [Nat.pow_add, Nat.mul_left_comm]
      rfl

theorem mul_step_le {num den : Nat} (hk : spacing num den ≠ 0) :
    perBinade * step num den ≤ num := by
  have hlog : (num / den).log2 = 52 + spacing num den := by
    unfold spacing at *
    omega
  have hquotient : num / den ≠ 0 := by
    intro h
    rw [h, Nat.log2_zero] at hlog
    omega
  calc perBinade * step num den = den * 2 ^ (52 + spacing num den) := by
        rw [Nat.pow_add, Nat.mul_left_comm]
        rfl
    _ = den * 2 ^ (num / den).log2 := by rw [hlog]
    _ ≤ den * (num / den) := Nat.mul_le_mul_left den (Nat.log2_self_le hquotient)
    _ ≤ num := Nat.mul_div_le num den

theorem nearestRank_eq (num den : Nat) :
    nearestRank num den = perBinade * spacing num den + roundHalfEven num (step num den) := by
  rw [nearestRank, Nat.shiftLeft_eq, step]

/-- From the first magnitude of a binade to that of the next, the units are the multiples of one
power of two; with the least spacing they are from zero on. -/
theorem unitsOfRank_add {k n : Nat} (hn : n ≤ 2 * perBinade) (hk : k = 0 ∨ perBinade ≤ n) :
    unitsOfRank (perBinade * k + n) = n * 2 ^ k := by
  by_cases hlow : n < perBinade
  · obtain rfl : k = 0 := by omega
    rw [Nat.mul_zero, Nat.zero_add, Nat.pow_zero, Nat.mul_one]
    exact if_pos hlow
  · obtain ⟨m, rfl⟩ : ∃ m, n = perBinade + m := ⟨n - perBinade, by omega⟩
    have hrank : perBinade * k + (perBinade + m) = perBinade * (k + 1) + m := by
      rw [Nat.mul_succ, Nat.add_assoc]
    rw [hrank]
    by_cases hm : m < perBinade
    · exact unitsOfRank_binade k hm
    · -- the last one starts the next binade
      obtain rfl : m = perBinade := by omega
      have hnext : perBinade * (k + 1) + perBinade = perBinade * (k + 1 + 1) + 0 := by
        rw [Nat.mul_succ _ (k + 1)]
        omega
      rw [hnext, unitsOfRank_binade (k + 1) (by decide), Nat.pow_succ]
      ring

/-- A magnitude is a multiple of the power of two, or below the binade that has it for a spacing. -/
theorem dvd_unitsOfRank_or_lt (k rank : Nat) :
    2 ^ k ∣ unitsOfRank rank ∨ unitsOfRank rank < perBinade * 2 ^ k := by
  by_cases hlow : rank < perBinade
  · right
    have hunits : unitsOfRank rank = rank := if_pos hlow
    rw [hunits]
    exact Nat.lt_of_lt_of_le hlow (Nat.le_mul_of_pos_right perBinade (Nat.two_pow_pos k))
  · obtain ⟨e, m, hm, rfl⟩ := exists_binade hlow
    rw [unitsOfRank_binade e hm]
    by_cases hke : k ≤ e
    · exact .inl (Dvd.dvd.mul_left (Nat.pow_dvd_pow 2 hke) _)
    · right
      calc (perBinade + m) * 2 ^ e < perBinade * 2 * 2 ^ e :=
            Nat.mul_lt_mul_of_pos_right (by omega) (Nat.two_pow_pos e)
        _ = perBinade * 2 ^ (e + 1) := by rw [Nat.mul_assoc, Nat.pow_succ']
        _ ≤ perBinade * 2 ^ k :=
          Nat.mul_le_mul_left perBinade (Nat.pow_le_pow_right (by decide) (by omega))

/-! ## Nearest magnitudes -/

section

variable {num den : Nat}

/-- The multiple taken is at most the last one of the binade or the first of the next, and at least
the first of the binade unless the spacing is least. -/
theorem roundHalfEven_bounds (num : Nat) (hden : 0 < den) :
    roundHalfEven num (step num den) ≤ 2 * perBinade ∧
      (spacing num den = 0 ∨ perBinade ≤ roundHalfEven num (step num den)) := by
  have hstep := step_pos num hden
  constructor
  · have hquotient : num / step num den < 2 * perBinade :=
      (Nat.div_lt_iff_lt_mul hstep).2 (lt_mul_step num hden)
    have hround := roundHalfEven_le num (step num den)
    omega
  · by_cases hk : spacing num den = 0
    · exact .inl hk
    · have hquotient := (Nat.le_div_iff_mul_le hstep).2 (mul_step_le hk)
      exact .inr (Nat.le_trans hquotient (div_le_roundHalfEven _ _))

/-- The magnitude of the nearest rank is the rounded multiple. -/
theorem unitsOfRank_nearestRank (hden : 0 < den) :
    unitsOfRank (nearestRank num den) * den =
      roundHalfEven num (step num den) * step num den := by
  obtain ⟨hle, hge⟩ := roundHalfEven_bounds num hden
  rw [nearestRank_eq, unitsOfRank_add hle hge, step]
  ring

/-- A magnitude is one of the multiples, or less than one of them that is not above what is
rounded. -/
theorem multiple_or_lt (num : Nat) (hden : 0 < den) (rank : Nat) :
    (∃ m, unitsOfRank rank * den = m * step num den) ∨
      unitsOfRank rank * den < perBinade * step num den ∧
        perBinade * step num den ≤ num := by
  rcases dvd_unitsOfRank_or_lt (spacing num den) rank with ⟨m, hm⟩ | hlt
  · left
    refine ⟨m, ?_⟩
    rw [hm, step]
    ring
  · by_cases hk : spacing num den = 0
    · left
      refine ⟨unitsOfRank rank, ?_⟩
      rw [step, hk, Nat.pow_zero, Nat.mul_one]
    · right
      refine ⟨?_, mul_step_le hk⟩
      rw [step, Nat.mul_comm den, ← Nat.mul_assoc]
      exact Nat.mul_lt_mul_of_pos_right hlt hden

/-- No magnitude is nearer than that of the nearest rank. -/
theorem dist_nearestRank_le (num : Nat) (hden : 0 < den) (rank : Nat) :
    Nat.dist num (unitsOfRank (nearestRank num den) * den) ≤
      Nat.dist num (unitsOfRank rank * den) := by
  have hstep := step_pos num hden
  rw [unitsOfRank_nearestRank hden]
  rcases multiple_or_lt num hden rank with ⟨m, hm⟩ | ⟨hlt, hle⟩
  · rw [hm]
    exact dist_roundHalfEven_le num hstep m
  · -- the first multiple of the binade is nearer than what is below the binade
    refine Nat.le_trans (dist_roundHalfEven_le num hstep perBinade) ?_
    unfold Nat.dist
    omega

/-- If the magnitude of another rank is as near, the nearest rank is even. -/
theorem nearestRank_even_of_tie (hden : 0 < den) {rank : Nat} (hne : rank ≠ nearestRank num den)
    (htie : Nat.dist num (unitsOfRank (nearestRank num den) * den) =
      Nat.dist num (unitsOfRank rank * den)) : nearestRank num den % 2 = 0 := by
  have hstep := step_pos num hden
  have hunits : unitsOfRank rank * den ≠ unitsOfRank (nearestRank num den) * den := fun h =>
    hne (unitsOfRank_strictMono.injective (Nat.eq_of_mul_eq_mul_right hden h))
  rw [unitsOfRank_nearestRank hden] at htie hunits
  have heven : roundHalfEven num (step num den) % 2 = 0 := by
    rcases multiple_or_lt num hden rank with ⟨m, hm⟩ | ⟨hlt, hle⟩
    · rw [hm] at htie hunits
      exact roundHalfEven_even_of_tie hstep (fun h => hunits (by rw [h])) htie
    · have hnearest := dist_roundHalfEven_le num hstep perBinade
      unfold Nat.dist at htie hnearest
      omega
  have hbinades : perBinade * spacing num den % 2 = 0 := by
    rw [Nat.mul_mod]
    simp [perBinade]
  rw [nearestRank_eq]
  omega

/-- A magnitude that is not above what is rounded is not above the result. -/
theorem le_unitsOfRank_nearestRank (hden : 0 < den) {rank : Nat}
    (h : unitsOfRank rank * den ≤ num) :
    unitsOfRank rank ≤ unitsOfRank (nearestRank num den) := by
  by_contra hlt
  have hmul : unitsOfRank (nearestRank num den) * den < unitsOfRank rank * den :=
    Nat.mul_lt_mul_of_pos_right (by omega) hden
  have hnearest := dist_nearestRank_le num hden rank
  unfold Nat.dist at hnearest
  omega

/-- A magnitude that is not below what is rounded is not below the result. -/
theorem unitsOfRank_nearestRank_le (hden : 0 < den) {rank : Nat}
    (h : num ≤ unitsOfRank rank * den) :
    unitsOfRank (nearestRank num den) ≤ unitsOfRank rank := by
  by_contra hlt
  have hmul : unitsOfRank rank * den < unitsOfRank (nearestRank num den) * den :=
    Nat.mul_lt_mul_of_pos_right (by omega) hden
  have hnearest := dist_nearestRank_le num hden rank
  unfold Nat.dist at hnearest
  omega

end

/-! ## Whole numbers -/

/-- Whole multiples of a power of two, up to twice as many as a binade has ranks, are magnitudes. -/
theorem exists_unitsOfRank_eq (k : Nat) {n : Nat} (hn : n ≤ 2 * perBinade) :
    ∃ rank, unitsOfRank rank = n * 2 ^ k := by
  induction k generalizing n with
  | zero => exact ⟨_, unitsOfRank_add hn (.inl rfl)⟩
  | succ k ih =>
    by_cases hlow : perBinade ≤ n
    · exact ⟨_, unitsOfRank_add hn (.inr hlow)⟩
    · obtain ⟨rank, hrank⟩ := ih (n := 2 * n) (by omega)
      refine ⟨rank, ?_⟩
      rw [hrank, Nat.pow_succ]
      ring

theorem exists_unitsOfRank_eq_mul_unitsPerOne {n : Nat} (hn : n ≤ 2 * perBinade) :
    ∃ rank, unitsOfRank rank * 1 = n * unitsPerOne := by
  obtain ⟨rank, hrank⟩ := exists_unitsOfRank_eq unitPlaces hn
  refine ⟨rank, ?_⟩
  rw [hrank, unitsPerOne, Nat.one_shiftLeft, Nat.mul_one]

section

variable {value : Int} {h : value.natAbs < 0x10000000000000000}

/-- Whole numbers of up to 53 bits are doubles. -/
theorem ofWhole_signedUnits (hvalue : value.natAbs ≤ 2 * perBinade) :
    (ofWhole value h).signedUnits = value * unitsPerOne := by
  obtain ⟨rank, hrank⟩ := exists_unitsOfRank_eq_mul_unitsPerOne hvalue
  have hunits : (ofWhole value h).units = value.natAbs * unitsPerOne := by
    rw [← hrank, Nat.mul_one]
    exact Nat.le_antisymm (unitsOfRank_nearestRank_le Nat.one_pos hrank.ge)
      (le_unitsOfRank_nearestRank Nat.one_pos hrank.le)
  have hsign : (ofWhole value h).negative = decide (value < 0) := rfl
  rw [signedUnits, hunits, hsign, Nat.cast_mul]
  by_cases hneg : value < 0
  · have habs : (value.natAbs : Int) = -value := by omega
    rw [if_pos (decide_eq_true hneg), habs, Int.neg_mul, Int.neg_neg]
  · have habs : (value.natAbs : Int) = value := by omega
    rw [if_neg (by simpa using hneg), habs]

/-- Greater ones are not rounded below these. -/
theorem le_units_ofWhole (hvalue : 2 * perBinade ≤ value.natAbs) :
    2 * perBinade * unitsPerOne ≤ (ofWhole value h).units := by
  obtain ⟨rank, hrank⟩ := exists_unitsOfRank_eq_mul_unitsPerOne (Nat.le_refl (2 * perBinade))
  rw [← hrank, Nat.mul_one]
  refine le_unitsOfRank_nearestRank Nat.one_pos ?_
  rw [hrank]
  exact Nat.mul_le_mul_right unitsPerOne hvalue

end

end Binary64

end TypedJson
