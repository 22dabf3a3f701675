import Mathlib.Data.Nat.Cast.Order.Field
import Lindenmayer.Proofs.Arithmetic.Order

namespace Lindenmayer

namespace Binary64

section

variable {negative : Bool} {size : ℚ} {magnitude : Magnitude}

theorem rounds_self (negative : Bool) (magnitude : Magnitude) :
    Rounds negative magnitude.size (.finite negative magnitude) := by
  have rounds := rounds_ofRatio negative (magnitude.quanta * 1) Nat.one_pos
  rw [ofRatio_mul_right negative magnitude Nat.one_pos] at rounds
  have hsize : ratioSize (magnitude.quanta * 1) 1 = magnitude.size := by
    rw [ratioSize, Nat.mul_one, Nat.cast_one, div_one, Magnitude.size]
  rwa [hsize] at rounds

theorem Rounds.exists_finite {value : Binary64} (rounds : Rounds negative size value)
    (h : size < overflow) : ∃ magnitude, value = .finite negative magnitude := by
  cases rounds with
  | finite _ _ _ => exact ⟨_, rfl⟩
  | infinite beyond => exact absurd h (not_lt.mpr beyond)

theorem Rounds.isFinite_iff {value : Binary64} (rounds : Rounds negative size value) :
    value.isFinite = true ↔ size < overflow := by
  cases rounds with
  | finite bounded _ _ => exact iff_of_true rfl bounded
  | infinite beyond => exact iff_of_false (by simp) (not_lt.mpr beyond)

theorem spacing_dvd_succ {quanta : Nat} (h : spacing quanta ∣ quanta) :
    spacing (quanta + spacing quanta) ∣ quanta + spacing quanta := by
  have hsum : quanta + spacing quanta = (quanta / spacing quanta + 1) * 2 ^ (quanta.log2 - 52) := by
    rw [Nat.succ_mul]
    exact congrArg (· + spacing quanta) (Nat.div_mul_cancel h).symm
  rw [hsum]
  exact spacing_dvd_mul_pow _ (div_spacing_lt quanta)

theorem not_isEven_succ {quanta : Nat} (h : IsEven quanta) : ¬IsEven (quanta + spacing quanta) := by
  obtain ⟨half, hhalf⟩ := h
  have hquanta : quanta = 2 * half * spacing quanta := by
    rw [Nat.mul_right_comm]
    exact hhalf
  have hdiv : quanta / spacing quanta = 2 * half :=
    Nat.div_eq_of_eq_mul_left (spacing_pos quanta) hquanta
  have hsum : quanta + spacing quanta = (2 * half + 1) * spacing quanta := by
    rw [Nat.succ_mul, ← hquanta]
  rw [hsum]
  exact not_isEven_mul_spacing (by omega) (by omega)

theorem le_or_succ_le {quanta other : Nat} (h : spacing quanta ∣ quanta)
    (hother : spacing other ∣ other) : other ≤ quanta ∨ quanta + spacing quanta ≤ other := by
  by_cases hle : other ≤ quanta
  · exact .inl hle
  · have hlog : quanta.log2 ≤ other.log2 := by
      by_cases hzero : quanta = 0
      · simp [hzero]
      · exact (Nat.le_log2 (by omega)).mpr (by have := Nat.log2_self_le hzero; omega)
    have hdvd : spacing quanta ∣ other := Nat.dvd_trans (Nat.pow_dvd_pow 2 (by omega)) hother
    have hgap := Nat.le_of_dvd (by omega) (Nat.dvd_sub hdvd h)
    omega

def Magnitude.succ (magnitude : Magnitude)
    (h : magnitude.quanta + spacing magnitude.quanta < limit) : Magnitude :=
  ⟨_, spacing_dvd_succ magnitude.representable.1, h⟩

def Magnitude.middle (magnitude : Magnitude) : ℚ :=
  magnitude.size + spacing magnitude.quanta / 2 ^ (quantumExponent + 1)

theorem Magnitude.size_lt_middle (magnitude : Magnitude) : magnitude.size < magnitude.middle :=
  lt_add_of_pos_right _ (div_pos (Nat.cast_pos.mpr (spacing_pos _)) (by positivity))

theorem Magnitude.size_succ (magnitude : Magnitude)
    (h : magnitude.quanta + spacing magnitude.quanta < limit) :
    (magnitude.succ h).size = 2 * magnitude.middle - magnitude.size := by
  rw [middle, size, size, succ]
  push_cast
  rw [pow_succ]
  have hquantum := ne_of_gt quantum_pos
  field_simp
  ring

theorem Magnitude.le_or_succ_le (low magnitude : Magnitude)
    (h : low.quanta + spacing low.quanta < limit) :
    magnitude.size ≤ low.size ∨ (low.succ h).size ≤ magnitude.size := by
  rw [size_le_iff, size_le_iff]
  exact Binary64.le_or_succ_le low.representable.1 magnitude.representable.1

theorem Rounds.le_middle {low : Magnitude}
    (rounds : Rounds negative size (.finite negative magnitude))
    (hlimit : low.quanta + spacing low.quanta < limit) (hle : magnitude.size ≤ low.size) :
    size ≤ low.middle := by
  have hmiddle := low.size_lt_middle
  cases rounds with
  | finite _ nearest _ =>
      by_contra hgt
      have hnear := nearest (low.succ hlimit)
      rw [abs_of_nonpos (by linarith), low.size_succ hlimit] at hnear
      rcases abs_cases (2 * low.middle - low.size - size) with ⟨heq, _⟩ | ⟨heq, _⟩ <;> linarith

theorem Rounds.middle_lt {low : Magnitude}
    (rounds : Rounds negative size (.finite negative magnitude)) (heven : IsEven low.quanta)
    (hlimit : low.quanta + spacing low.quanta < limit) (hlt : low.size < magnitude.size) :
    low.middle < size := by
  have hmiddle := low.size_lt_middle
  have hsucc := low.size_succ hlimit
  have hbeyond := (low.le_or_succ_le magnitude hlimit).resolve_left (not_le.mpr hlt)
  cases rounds with
  | finite _ nearest even =>
      by_contra hle
      have hnear := nearest low
      rw [abs_of_nonneg (by linarith)] at hnear
      rcases abs_cases (low.size - size) with ⟨heq, _⟩ | ⟨heq, _⟩
      · linarith
      · -- Only the middle is left, from which the even count is as near as the next one.
        have hsize : magnitude.size = (low.succ hlimit).size := by linarith
        have hquanta : magnitude.quanta = (low.succ hlimit).quanta :=
          le_antisymm (Magnitude.size_le_iff.mp (le_of_eq hsize))
            (Magnitude.size_le_iff.mp (ge_of_eq hsize))
        have hne : low ≠ magnitude := fun heq => ne_of_lt hlt (congrArg Magnitude.size heq)
        have htie := even low hne (by rw [abs_of_nonneg (by linarith)]; linarith)
        rw [hquanta] at htie
        exact not_isEven_succ heven htie

/-- Numbers are rounded beyond a count with an even last place if they lie beyond the middle
between it and the next one; the middle itself is not. -/
theorem Rounds.size_le_iff {low : Magnitude}
    (rounds : Rounds negative size (.finite negative magnitude)) (heven : IsEven low.quanta)
    (hlimit : low.quanta + spacing low.quanta < limit) :
    magnitude.size ≤ low.size ↔ size ≤ low.middle := by
  refine ⟨rounds.le_middle hlimit, fun hle => ?_⟩
  by_contra hgt
  exact not_lt.mpr hle (rounds.middle_lt heven hlimit (not_le.mp hgt))

/-- The number of the format that is a power of two. -/
def Magnitude.twoPow (exponent : Nat) (h : exponent + quantumExponent < topExponent) : Magnitude :=
  ⟨_, representable_two_pow h⟩

theorem Magnitude.size_twoPow {exponent : Nat} (h : exponent + quantumExponent < topExponent) :
    (twoPow exponent h).size = 2 ^ exponent := by
  rw [size, twoPow]
  push_cast
  rw [pow_add, mul_div_cancel_right₀ _ (ne_of_gt quantum_pos)]

theorem spacing_two_pow (exponent : Nat) : spacing (2 ^ (exponent + 52)) = 2 ^ exponent := by
  rw [spacing, Nat.log2_two_pow, Nat.add_sub_cancel]

theorem two_pow_add_two_pow_lt_limit {small large : Nat} (hle : small ≤ large)
    (h : large + 1 < topExponent) : 2 ^ large + 2 ^ small < limit := by
  refine Nat.lt_of_le_of_lt ?_ (two_pow_lt_limit h)
  rw [Nat.pow_succ, Nat.mul_two]
  exact Nat.add_le_add_left (Nat.pow_le_pow_right Nat.two_pos hle) _

theorem Rounds.size_le_two_pow_iff
    (rounds : Rounds negative size (.finite negative magnitude)) (exponent : Nat)
    (h : exponent + 1 + quantumExponent < topExponent) :
    magnitude.size ≤ 2 ^ exponent ↔ size ≤ 2 ^ exponent + 2 ^ exponent / 2 ^ 53 := by
  have hlow : exponent + quantumExponent < topExponent := by omega
  obtain ⟨half, hhalf⟩ : ∃ half, exponent + quantumExponent = half + 54 :=
    ⟨exponent + (quantumExponent - 54), by simp only [quantumExponent]⟩
  have hquanta : (Magnitude.twoPow exponent hlow).quanta = 2 ^ (half + 54) := congrArg (2 ^ ·) hhalf
  have hspacing : spacing (2 ^ (half + 54)) = 2 ^ (half + 2) := spacing_two_pow (half + 2)
  have heven : IsEven (Magnitude.twoPow exponent hlow).quanta := hquanta ▸ isEven_two_pow half
  have hiff := rounds.size_le_iff heven (by
    rw [hquanta, hspacing]
    exact two_pow_add_two_pow_lt_limit (by omega) (by omega))
  have hstep : ((2 ^ (half + 2) : Nat) : ℚ) / 2 ^ (quantumExponent + 1) =
      2 ^ exponent / 2 ^ 53 := by
    have hexponents : half + 2 + 53 = exponent + (quantumExponent + 1) := by omega
    rw [div_eq_div_iff (by positivity) (by positivity)]
    push_cast
    rw [← pow_add, ← pow_add, hexponents]
  rw [Magnitude.middle, Magnitude.size_twoPow, hquanta, hspacing, hstep] at hiff
  exact hiff

theorem Rounds.size_pos_iff (rounds : Rounds negative size (.finite negative magnitude)) :
    0 < magnitude.size ↔ 1 / 2 ^ (quantumExponent + 1) < size := by
  have hzero : Magnitude.size ⟨0, representable_zero⟩ = 0 := by simp [Magnitude.size]
  have hlimit : 0 + spacing 0 < limit := @two_pow_lt_limit 0 (by decide)
  have hiff := @size_le_iff _ _ _ ⟨0, representable_zero⟩ rounds (Nat.dvd_zero _) hlimit
  rw [Magnitude.middle, hzero, zero_add] at hiff
  rw [← not_iff_not, not_lt, not_lt, hiff]
  simp [spacing]

theorem two_pow_lt_middle (half : Nat) :
    (2 : ℚ) ^ 53 + 2 ^ 53 / 2 ^ 53 < 2 ^ (half + 54) - 2 ^ half := by
  have hpower : (1 : ℚ) ≤ 2 ^ half := one_le_pow₀ (by norm_num)
  rw [pow_add]
  linarith

/-- The two thresholds are the middles below the least positive number and above one. -/
theorem Rounds.isProbability_iff {value : Binary64} (rounds : Rounds negative size value) :
    value.IsProbability ↔
      negative = false ∧ 1 / 2 ^ (quantumExponent + 1) < size ∧ size ≤ 1 + 1 / 2 ^ 53 := by
  rw [isProbability_iff_size]
  constructor
  · rintro ⟨magnitude, rfl, hpos, hle⟩
    obtain rfl : negative = false := by cases rounds; rfl
    have hone := rounds.size_le_two_pow_iff 0 (by decide)
    rw [pow_zero] at hone
    exact ⟨rfl, rounds.size_pos_iff.mp hpos, hone.mp hle⟩
  · rintro ⟨rfl, hpos, hle⟩
    have hfinite : size < overflow :=
      lt_of_le_of_lt hle (lt_of_le_of_lt (by norm_num) (two_pow_lt_middle 970))
    obtain ⟨magnitude, rfl⟩ := rounds.exists_finite hfinite
    have hone := rounds.size_le_two_pow_iff 0 (by decide)
    rw [pow_zero] at hone
    exact ⟨magnitude, rfl, rounds.size_pos_iff.mpr hpos, hone.mpr hle⟩

theorem two_mul_distance_roundDiv_le (numerator : Nat) {denominator : Nat} (h : 0 < denominator) :
    2 * distance numerator denominator (roundDiv numerator denominator) ≤ denominator := by
  have hcast : ((numerator % denominator : Nat) : Int) = (numerator : Int) % denominator :=
    Int.natCast_mod numerator denominator
  rcases roundDiv_cases numerator denominator with ⟨hround, hle, _⟩ | ⟨hround, hle, _⟩
  · rw [hround, distance_floor]
    omega
  · rw [hround, distance_floor_succ numerator h]
    omega

theorem two_mul_distance_nearest_le (numerator : Nat) {denominator : Nat} (h : 0 < denominator) :
    2 * distance numerator denominator (nearest numerator denominator) ≤
      (denominator * spacing (numerator / denominator) : Nat) := by
  simp only [nearest]
  rw [distance_mul]
  exact two_mul_distance_roundDiv_le numerator (Nat.mul_pos h (spacing_pos _))

theorem spacing_mul_le (quanta : Nat) : spacing quanta * 2 ^ 52 ≤ quanta + 2 ^ 52 := by
  by_cases hlog : 52 ≤ quanta.log2
  · have hne : quanta ≠ 0 := by
      rintro rfl
      simp at hlog
    have hpower := Nat.log2_self_le hne
    rw [two_pow_log2 hlog] at hpower
    omega
  · have hone : spacing quanta = 1 := by
      rw [spacing, Nat.sub_eq_zero_of_le (by omega), Nat.pow_zero]
    omega

theorem spacing_div_mul_le (numerator denominator : Nat) :
    (spacing (numerator / denominator) : ℚ) * 2 ^ 52 ≤ numerator / denominator + 2 ^ 52 := by
  have hle : ((spacing (numerator / denominator) * 2 ^ 52 : Nat) : ℚ) ≤
      (numerator / denominator + 2 ^ 52 : Nat) := Nat.cast_le.mpr (spacing_mul_le _)
  have hfloor : ((numerator / denominator : Nat) : ℚ) ≤ numerator / denominator :=
    Nat.cast_div_le
  push_cast at hle
  linarith

theorem exists_ratioSize_eq {size : ℚ} (h : 0 ≤ size) :
    ∃ numerator denominator : Nat, 0 < denominator ∧ ratioSize numerator denominator = size := by
  refine ⟨size.num.natAbs * 2 ^ quantumExponent, size.den, size.den_pos, ?_⟩
  have hnum : (size.num.natAbs : ℚ) = size.num := by
    rw [Nat.cast_natAbs, abs_of_nonneg (Rat.num_nonneg.mpr h)]
  rw [ratioSize]
  push_cast
  rw [hnum, mul_div_right_comm, Rat.num_div_den, mul_div_cancel_right₀ _ (ne_of_gt quantum_pos)]

theorem Rounds.quanta_eq {numerator denominator : Nat} (h : 0 < denominator)
    (rounds : Rounds negative (ratioSize numerator denominator) (.finite negative magnitude)) :
    magnitude.quanta = Binary64.nearest numerator denominator := by
  have heq := rounds.eq_ofRatio h
  unfold ofRatio at heq
  split at heq
  · cases heq
    rfl
  · contradiction

theorem half_quantum_le : (1 : ℚ) / 2 ^ (quantumExponent + 1) ≤ 1 / 2 ^ 200 :=
  one_div_pow_le_one_div_pow_of_le (by norm_num) (by decide)

theorem Rounds.abs_sub_le (rounds : Rounds negative size (.finite negative magnitude))
    (h : 0 ≤ size) :
    |magnitude.size - size| ≤ size / 2 ^ 53 + 1 / 2 ^ (quantumExponent + 1) := by
  obtain ⟨numerator, denominator, hpos, rfl⟩ := exists_ratioSize_eq h
  have hdenominator : (0 : ℚ) < denominator := by exact_mod_cast hpos
  have hdistance : (2 : ℚ) * distance numerator denominator magnitude.quanta ≤
      denominator * spacing (numerator / denominator) := by
    rw [rounds.quanta_eq hpos]
    exact_mod_cast two_mul_distance_nearest_le numerator hpos
  have hspacing := spacing_div_mul_le numerator denominator
  have hmoved := abs_size_sub_ratioSize magnitude numerator hpos
  rw [ratioSize] at hmoved ⊢
  rw [pow_succ (2 : ℚ) quantumExponent]
  have hquantum := quantum_pos
  generalize (2 : ℚ) ^ quantumExponent = quantum at *
  generalize |magnitude.size - numerator / denominator / quantum| = moved at *
  have hquanta : 2 * (moved * quantum) ≤ spacing (numerator / denominator) := by
    rw [← mul_le_mul_iff_of_pos_left hdenominator]
    linarith
  calc
    moved = 2 * (moved * quantum) / (2 * quantum) := by field_simp
    _ ≤ (numerator / denominator / 2 ^ 52 + 1) / (2 * quantum) := by
      refine div_le_div_of_nonneg_right ?_ (by positivity)
      linarith
    _ = numerator / denominator / quantum / 2 ^ 53 + 1 / (quantum * 2) := by
      field_simp

end

end Binary64

end Lindenmayer
