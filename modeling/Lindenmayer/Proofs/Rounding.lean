import Lindenmayer.Binary64.Rounding
import Mathlib.Tactic.FieldSimp
import Mathlib.Tactic.Linarith
import Mathlib.Tactic.NormNum
import Mathlib.Tactic.Positivity
import Mathlib.Tactic.Ring
import Mathlib.Tactic.Zify

/-! Rounding on the rational numbers, with an infinity from behind the last finite number on. -/

namespace Lindenmayer

namespace Binary64

/-- How far a multiple of the denominator lies from the numerator. -/
def distance (numerator denominator multiple : Nat) : Int :=
  |(multiple * denominator - numerator : Int)|

theorem floor_add_mod (numerator denominator : Nat) :
    (numerator : Int) =
      denominator * (numerator / denominator) + numerator % denominator := by
  exact_mod_cast (Nat.div_add_mod numerator denominator).symm

theorem mod_nonneg (numerator denominator : Nat) : (0 : Int) ≤ numerator % denominator := by
  exact_mod_cast Nat.zero_le _

theorem mod_lt {numerator denominator : Nat} (h : 0 < denominator) :
    (numerator : Int) % denominator < denominator := by
  exact_mod_cast Nat.mod_lt numerator h

theorem distance_floor (numerator denominator : Nat) :
    distance numerator denominator (numerator / denominator) = numerator % denominator := by
  have hfloor := floor_add_mod numerator denominator
  have hnonneg := mod_nonneg numerator denominator
  rw [distance, abs_of_nonpos (by push_cast; linarith)]
  push_cast
  linarith

theorem distance_floor_succ (numerator : Nat) {denominator : Nat} (h : 0 < denominator) :
    distance numerator denominator (numerator / denominator + 1) =
      denominator - numerator % denominator := by
  have hfloor := floor_add_mod numerator denominator
  have hlt : (numerator : Int) % denominator < denominator := mod_lt h
  rw [distance, abs_of_nonneg (by push_cast; linarith)]
  push_cast
  linarith

theorem le_distance {numerator denominator other : Nat} (h : 0 < denominator)
    (hfloor : other ≠ numerator / denominator) (hsucc : other ≠ numerator / denominator + 1) :
    (denominator : Int) ≤ distance numerator denominator other := by
  have heq := floor_add_mod numerator denominator
  have hnonneg := mod_nonneg numerator denominator
  have hlt : (numerator : Int) % denominator < denominator := mod_lt h
  have hpos : (0 : Int) < denominator := by exact_mod_cast h
  rcases Nat.lt_or_gt_of_ne hfloor with hbelow | habove
  · have hle : (other : Int) + 1 ≤ numerator / denominator := by exact_mod_cast hbelow
    rw [distance, abs_sub_comm]
    refine le_trans ?_ (le_abs_self _)
    nlinarith
  · have hle : (numerator : Int) / denominator + 2 ≤ other := by
      have : numerator / denominator + 2 ≤ other := by omega
      exact_mod_cast this
    rw [distance]
    refine le_trans ?_ (le_abs_self _)
    nlinarith

theorem roundDiv_cases (numerator denominator : Nat) :
    (roundDiv numerator denominator = numerator / denominator ∧
        2 * (numerator % denominator) ≤ denominator ∧
        (2 * (numerator % denominator) = denominator → numerator / denominator % 2 = 0)) ∨
      (roundDiv numerator denominator = numerator / denominator + 1 ∧
        denominator ≤ 2 * (numerator % denominator) ∧
        (2 * (numerator % denominator) = denominator → numerator / denominator % 2 = 1)) := by
  simp only [roundDiv]
  split
  · left
    omega
  · split
    · right
      omega
    · rcases Nat.mod_two_eq_zero_or_one (numerator / denominator) with heven | hodd
      · left
        omega
      · right
        omega

/-- No multiple is nearer than the rounded one, and of two equally near ones that is the even. -/
theorem distance_roundDiv {numerator denominator other : Nat} (h : 0 < denominator)
    (hne : other ≠ roundDiv numerator denominator) :
    distance numerator denominator (roundDiv numerator denominator) <
        distance numerator denominator other ∨
      distance numerator denominator (roundDiv numerator denominator) =
          distance numerator denominator other ∧
        roundDiv numerator denominator % 2 = 0 ∧ other % 2 = 1 ∧
        numerator / denominator ≤ other := by
  have hfloor := distance_floor numerator denominator
  have hsucc := distance_floor_succ numerator h
  have hlt : numerator % denominator < denominator := Nat.mod_lt _ h
  have hcast : ((numerator % denominator : Nat) : Int) = (numerator : Int) % denominator :=
    Int.natCast_mod numerator denominator
  by_cases hother : other = numerator / denominator ∨ other = numerator / denominator + 1
  · rcases roundDiv_cases numerator denominator with ⟨hround, hle, heven⟩ | ⟨hround, hle, hodd⟩
    · rw [hround] at hne ⊢
      obtain rfl := hother.resolve_left hne
      rw [hfloor, hsucc]
      omega
    · rw [hround] at hne ⊢
      obtain rfl := hother.resolve_right hne
      rw [hfloor, hsucc]
      omega
  · left
    have hfar := le_distance h (fun heq => hother (.inl heq)) (fun heq => hother (.inr heq))
    rcases roundDiv_cases numerator denominator with ⟨hround, hle, _⟩ | ⟨hround, hle, _⟩
    · rw [hround, hfloor]
      omega
    · rw [hround, hsucc]
      omega

def IsEven (quanta : Nat) : Prop :=
  2 * spacing quanta ∣ quanta

theorem spacing_pos (quanta : Nat) : 0 < spacing quanta :=
  Nat.two_pow_pos _

theorem spacing_dvd_spacing {left right : Nat} (h : spacing left ≤ spacing right) :
    spacing left ∣ spacing right :=
  Nat.pow_dvd_pow 2 ((Nat.pow_le_pow_iff_right (by decide)).mp h)

theorem two_pow_log2 {quanta : Nat} (h : 52 ≤ quanta.log2) :
    2 ^ quanta.log2 = 2 ^ 52 * spacing quanta := by
  rw [spacing, ← Nat.pow_add]
  congr 1
  omega

theorem lt_of_not_spacing_dvd {quanta other : Nat} (hgrid : spacing other ∣ other)
    (hnot : ¬spacing quanta ∣ other) :
    other < 2 ^ 52 * spacing quanta ∧ 2 ^ 52 * spacing quanta ≤ quanta := by
  have hlt : spacing other < spacing quanta := by
    by_contra hle
    exact hnot (Nat.dvd_trans (spacing_dvd_spacing (by omega)) hgrid)
  have hlog : other.log2 - 52 < quanta.log2 - 52 := (Nat.pow_lt_pow_iff_right (by decide)).mp hlt
  rw [← two_pow_log2 (by omega)]
  constructor
  · exact Nat.lt_of_lt_of_le Nat.lt_log2_self (Nat.pow_le_pow_right (by decide) (by omega))
  · apply Nat.log2_self_le
    rintro rfl
    simp at hlog

theorem isEven_mul_pow {significand : Nat} (exponent : Nat) (hle : significand ≤ 2 ^ 53)
    (heven : significand % 2 = 0) : IsEven (significand * 2 ^ exponent) := by
  rcases Nat.lt_or_eq_of_le hle with hlt | rfl
  · have hlog : (significand * 2 ^ exponent).log2 - 52 ≤ exponent := by
      rcases Nat.eq_zero_or_pos significand with rfl | hpos
      · simp
      · have hne : significand * 2 ^ exponent ≠ 0 := Nat.mul_ne_zero (by omega) (by simp)
        have : (significand * 2 ^ exponent).log2 < 53 + exponent := by
          rw [Nat.log2_lt hne, Nat.pow_add]
          exact Nat.mul_lt_mul_of_pos_right hlt (Nat.two_pow_pos exponent)
        omega
    exact Nat.mul_dvd_mul (Nat.dvd_of_mod_eq_zero heven) (Nat.pow_dvd_pow 2 hlog)
  · rw [IsEven, spacing, ← Nat.pow_add, Nat.log2_two_pow, ← Nat.pow_succ']
    exact Nat.pow_dvd_pow 2 (by omega)

theorem not_isEven_mul_spacing {quanta multiple : Nat} (hodd : multiple % 2 = 1)
    (hle : quanta / spacing quanta ≤ multiple) : ¬IsEven (multiple * spacing quanta) := by
  intro heven
  have hpos := spacing_pos quanta
  by_cases hdvd : spacing quanta ∣ spacing (multiple * spacing quanta)
  · have htwo : 2 * spacing quanta ∣ multiple * spacing quanta :=
      Nat.dvd_trans (Nat.mul_dvd_mul_left 2 hdvd) heven
    have : 2 ∣ multiple := Nat.dvd_of_mul_dvd_mul_right hpos htwo
    omega
  · have hlt : spacing (multiple * spacing quanta) < spacing quanta := by
      by_contra hle
      exact hdvd (spacing_dvd_spacing (by omega))
    have hlog : (multiple * spacing quanta).log2 - 52 < quanta.log2 - 52 :=
      (Nat.pow_lt_pow_iff_right (by decide)).mp hlt
    have hbelow : multiple * spacing quanta < 2 ^ quanta.log2 :=
      Nat.lt_of_lt_of_le Nat.lt_log2_self (Nat.pow_le_pow_right (by decide) (by omega))
    have hbinade : 2 ^ quanta.log2 = 2 ^ 52 * spacing quanta := two_pow_log2 (by omega)
    have hquanta : 2 ^ 52 ≤ quanta / spacing quanta := by
      rw [Nat.le_div_iff_mul_le hpos, ← hbinade]
      apply Nat.log2_self_le
      rintro rfl
      simp at hlog
    rw [hbinade] at hbelow
    have := Nat.lt_of_mul_lt_mul_right hbelow
    omega

theorem distance_mul (numerator denominator step multiple : Nat) :
    distance numerator denominator (multiple * step) =
      distance numerator (denominator * step) multiple := by
  rw [distance, distance]
  push_cast
  ring_nf

theorem distance_lt_of_lt {numerator denominator low high : Nat} (h : 0 < denominator)
    (hlt : low < high) (hle : high * denominator ≤ numerator) :
    distance numerator denominator high < distance numerator denominator low := by
  have hproduct := Nat.mul_lt_mul_of_pos_right hlt h
  zify at hproduct hle
  have hhigh : (high * denominator - numerator : Int) ≤ 0 := by linarith
  have hlow : (low * denominator - numerator : Int) ≤ 0 := by linarith
  rw [distance, distance, abs_of_nonpos hhigh, abs_of_nonpos hlow]
  linarith

theorem distance_nearest_le (numerator : Nat) {denominator : Nat} (h : 0 < denominator)
    (multiple : Nat) :
    distance numerator denominator (nearest numerator denominator) ≤
      distance numerator denominator (multiple * spacing (numerator / denominator)) := by
  have hunit : 0 < denominator * spacing (numerator / denominator) :=
    Nat.mul_pos h (spacing_pos _)
  simp only [nearest]
  rw [distance_mul, distance_mul]
  by_cases heq : multiple = roundDiv numerator (denominator * spacing (numerator / denominator))
  · rw [heq]
  · rcases distance_roundDiv hunit heq with hlt | ⟨heq, _⟩
    · exact le_of_lt hlt
    · exact le_of_eq heq

/-- No count of the format is nearer than the rounded one, and of two equally near ones that is the
even. -/
theorem distance_nearest {numerator denominator other : Nat} (h : 0 < denominator)
    (hgrid : spacing other ∣ other) (hne : other ≠ nearest numerator denominator) :
    distance numerator denominator (nearest numerator denominator) <
        distance numerator denominator other ∨
      distance numerator denominator (nearest numerator denominator) =
          distance numerator denominator other ∧
        IsEven (nearest numerator denominator) ∧ ¬IsEven other := by
  have hstep := spacing_pos (numerator / denominator)
  have hunit : 0 < denominator * spacing (numerator / denominator) := Nat.mul_pos h hstep
  have hdiv : numerator / (denominator * spacing (numerator / denominator)) =
      numerator / denominator / spacing (numerator / denominator) :=
    (Nat.div_div_eq_div_mul ..).symm
  have hround := Nat.le_trans (roundDiv_le numerator
    (denominator * spacing (numerator / denominator))) (hdiv ▸ div_spacing_lt _)
  by_cases hmultiple : spacing (numerator / denominator) ∣ other
  · obtain ⟨multiple, rfl⟩ := hmultiple
    rw [Nat.mul_comm] at hne ⊢
    simp only [nearest] at hne ⊢
    rw [distance_mul, distance_mul]
    have hother : multiple ≠ roundDiv numerator
        (denominator * spacing (numerator / denominator)) := fun heq => hne (by rw [heq])
    rcases distance_roundDiv hunit hother with hlt | ⟨heq, heven, hodd, hle⟩
    · exact .inl hlt
    · refine .inr ⟨heq, isEven_mul_pow _ hround heven, ?_⟩
      exact not_isEven_mul_spacing hodd (hdiv ▸ hle)
  · -- The binade of the quotient starts between the other count and the quotient.
    obtain ⟨hbelow, habove⟩ := lt_of_not_spacing_dvd hgrid hmultiple
    have hquotient : 2 ^ 52 * spacing (numerator / denominator) * denominator ≤ numerator :=
      (Nat.le_div_iff_mul_le h).mp habove
    exact .inl (lt_of_le_of_lt (distance_nearest_le numerator h _)
      (distance_lt_of_lt h hbelow hquotient))

/-! Two halves of its distance to the power of two part the last count below it from the power. -/

theorem spacing_dvd_two_pow (exponent : Nat) : spacing (2 ^ exponent) ∣ 2 ^ exponent := by
  rw [spacing, Nat.log2_two_pow]
  exact Nat.pow_dvd_pow 2 (by omega)

theorem isEven_two_pow (half : Nat) : IsEven (2 ^ (half + 54)) := by
  have heq : 2 ^ (half + 54) = 2 ^ 53 * 2 ^ (half + 1) := by
    rw [← Nat.pow_add]
    congr 1
    omega
  rw [heq]
  exact isEven_mul_pow _ (Nat.le_refl _) rfl

theorem spacing_dvd_last (half : Nat) :
    spacing (2 ^ (half + 54) - 2 * 2 ^ half) ∣ 2 ^ (half + 54) - 2 * 2 ^ half := by
  have heq : 2 ^ (half + 54) - 2 * 2 ^ half = (2 ^ 53 - 1) * 2 ^ (half + 1) := by
    rw [Nat.pow_add, Nat.pow_succ 2 half]
    omega
  rw [heq]
  exact spacing_dvd_mul_pow (half + 1) (by omega)

theorem le_last {quanta half : Nat} (hgrid : spacing quanta ∣ quanta)
    (hlt : quanta < 2 ^ (half + 54)) : quanta ≤ 2 ^ (half + 54) - 2 * 2 ^ half := by
  have hpos : 0 < 2 ^ half := Nat.two_pow_pos half
  rcases Nat.lt_or_ge quanta (2 ^ (half + 53)) with hsmall | hlarge
  · rw [Nat.pow_add] at hsmall ⊢
    omega
  · have hne : quanta ≠ 0 := Nat.ne_of_gt (Nat.lt_of_lt_of_le (Nat.two_pow_pos _) hlarge)
    have hlog : quanta.log2 = half + 53 := by
      have hge := (Nat.le_log2 hne).mpr hlarge
      have hlt := (Nat.log2_lt hne).mpr hlt
      omega
    have hspacing : spacing quanta = 2 ^ half * 2 := by
      rw [spacing, hlog, ← Nat.pow_succ]
      congr 1
    obtain ⟨significand, hquanta⟩ := hgrid
    rw [hspacing] at hquanta
    rw [Nat.pow_add] at hlt ⊢
    rw [hquanta] at hlt ⊢
    have hsignificand : significand < 2 ^ 53 := by
      by_contra hge
      have := Nat.mul_le_mul_left (2 ^ half * 2) (Nat.le_of_not_lt hge)
      omega
    have := Nat.mul_le_mul_left (2 ^ half * 2) (Nat.le_sub_one_of_lt hsignificand)
    omega

theorem distance_power_le {numerator denominator multiple power step : Nat}
    (hmultiple : multiple + 2 * step ≤ power) (hmiddle : (power - step) * denominator ≤ numerator) :
    distance numerator denominator power ≤ distance numerator denominator multiple := by
  have hstep : step ≤ power := by omega
  have hproduct := Nat.mul_le_mul_right denominator hmultiple
  zify [hstep] at hproduct hmiddle
  have hmargin : (0 : Int) ≤ step * denominator := by positivity
  have hnonpos : (multiple * denominator - numerator : Int) ≤ 0 := by linarith
  rw [distance, distance, abs_of_nonpos hnonpos, abs_le]
  constructor <;> linarith

theorem distance_last_lt {numerator denominator multiple power step : Nat}
    (h : 0 < denominator) (hpos : 0 < step) (hlast : 2 * step ≤ power)
    (hmultiple : power ≤ multiple)
    (hmiddle : numerator < (power - step) * denominator) :
    distance numerator denominator (power - 2 * step) <
      distance numerator denominator multiple := by
  have hstep : step ≤ power := by omega
  have hproduct := Nat.mul_le_mul_right denominator hmultiple
  zify [hstep] at hproduct hmiddle
  have hmargin : (0 : Int) < step * denominator := by positivity
  have hnonneg : (0 : Int) ≤ multiple * denominator - numerator := by linarith
  rw [distance, distance, abs_of_nonneg hnonneg, abs_lt]
  push_cast [hlast]
  constructor <;> linarith

/-- The rounded count reaches the power from the middle between the last count and it on. -/
theorem nearest_lt_two_pow_iff {numerator denominator : Nat} (half : Nat) (h : 0 < denominator) :
    nearest numerator denominator < 2 ^ (half + 54) ↔
      numerator < (2 ^ (half + 54) - 2 ^ half) * denominator := by
  have hpos : 0 < 2 ^ half := Nat.two_pow_pos half
  have hle : 2 * 2 ^ half ≤ 2 ^ (half + 54) := by
    rw [Nat.pow_add]
    omega
  constructor
  · intro hlt
    by_contra hge
    have hlast := le_last (spacing_dvd_nearest numerator denominator) hlt
    have hsum : nearest numerator denominator + 2 * 2 ^ half ≤ 2 ^ (half + 54) := by omega
    have hnear := distance_power_le hsum (Nat.le_of_not_lt hge)
    rcases distance_nearest h (spacing_dvd_two_pow _) (Nat.ne_of_gt hlt) with hfar | ⟨_, _, hodd⟩
    · exact absurd hnear (not_le.mpr hfar)
    · exact hodd (isEven_two_pow half)
  · intro hlt
    by_contra hge
    have hnear := distance_last_lt h hpos hle (Nat.le_of_not_lt hge) hlt
    have hne : 2 ^ (half + 54) - 2 * 2 ^ half ≠ nearest numerator denominator := by omega
    rcases distance_nearest h (spacing_dvd_last half) hne with hfar | ⟨heq, _⟩
    · exact absurd hnear (not_lt.mpr (le_of_lt hfar))
    · exact absurd hnear (not_lt.mpr (le_of_eq heq))

def Magnitude.size (magnitude : Magnitude) : ℚ :=
  magnitude.quanta / 2 ^ quantumExponent

/-- The middle between the last finite number and the power of two behind it. -/
def overflow : ℚ :=
  2 ^ 1024 - 2 ^ 970

/-- What a number of a sign and a size is rounded to. -/
inductive Rounds (negative : Bool) (size : ℚ) : Binary64 → Prop
  | finite {magnitude : Magnitude} (bounded : size < overflow)
      (nearest : ∀ other : Magnitude, |magnitude.size - size| ≤ |other.size - size|)
      (even : ∀ other : Magnitude, other ≠ magnitude →
        |magnitude.size - size| = |other.size - size| → IsEven magnitude.quanta) :
      Rounds negative size (finite negative magnitude)
  | infinite (beyond : overflow ≤ size) : Rounds negative size (infinite negative)

theorem middle_mul_two_pow (half shift : Nat) :
    ((2 : ℚ) ^ (half + 54) - 2 ^ half) * 2 ^ shift =
      ((2 ^ (half + shift + 54) - 2 ^ (half + shift) : Nat) : ℚ) := by
  have hle : 2 ^ (half + shift) ≤ 2 ^ (half + shift + 54) :=
    Nat.pow_le_pow_right (by decide) (Nat.le_add_right _ _)
  rw [Nat.cast_sub hle]
  push_cast
  ring

theorem overflow_eq : overflow * 2 ^ quantumExponent =
    ((2 ^ (970 + quantumExponent + 54) - 2 ^ (970 + quantumExponent) : Nat) : ℚ) :=
  middle_mul_two_pow 970 quantumExponent

theorem limit_eq : limit = 2 ^ (970 + quantumExponent + 54) :=
  congrArg (2 ^ ·) (rfl : topExponent = 970 + quantumExponent + 54)

theorem quantum_pos : (0 : ℚ) < 2 ^ quantumExponent :=
  pow_pos (by norm_num) quantumExponent

def ratioSize (numerator denominator : Nat) : ℚ :=
  numerator / denominator / 2 ^ quantumExponent

theorem abs_size_sub_ratioSize (magnitude : Magnitude) (numerator : Nat) {denominator : Nat}
    (h : 0 < denominator) :
    |magnitude.size - ratioSize numerator denominator| * (denominator * 2 ^ quantumExponent) =
      (distance numerator denominator magnitude.quanta : ℚ) := by
  have hdenominator : (0 : ℚ) < denominator := by exact_mod_cast h
  have hquantum := quantum_pos
  have hscale : (0 : ℚ) < denominator * 2 ^ quantumExponent := mul_pos hdenominator hquantum
  rw [← abs_of_pos hscale, ← abs_mul, distance, Magnitude.size, ratioSize]
  generalize (2 : ℚ) ^ quantumExponent = quantum at *
  push_cast
  congr 1
  field_simp

theorem ratioSize_lt_overflow_iff {numerator denominator : Nat} (h : 0 < denominator) :
    ratioSize numerator denominator < overflow ↔ nearest numerator denominator < limit := by
  have hdenominator : (0 : ℚ) < denominator := by exact_mod_cast h
  have hlimit := @nearest_lt_two_pow_iff numerator _ (970 + quantumExponent) h
  have hoverflow := overflow_eq
  rw [← limit_eq] at hlimit hoverflow
  rw [hlimit, ratioSize, div_lt_iff₀ quantum_pos, hoverflow, div_lt_iff₀ hdenominator,
    ← Nat.cast_mul, Nat.cast_lt]

theorem abs_size_sub_le_iff (left right : Magnitude) (numerator : Nat) {denominator : Nat}
    (h : 0 < denominator) :
    |left.size - ratioSize numerator denominator| ≤ |right.size - ratioSize numerator denominator| ↔
      distance numerator denominator left.quanta ≤ distance numerator denominator right.quanta := by
  have hscale : (0 : ℚ) < denominator * 2 ^ quantumExponent :=
    mul_pos (by exact_mod_cast h) quantum_pos
  rw [← mul_le_mul_iff_of_pos_right hscale, abs_size_sub_ratioSize left numerator h,
    abs_size_sub_ratioSize right numerator h, Int.cast_le]

theorem abs_size_sub_eq_iff (left right : Magnitude) (numerator : Nat) {denominator : Nat}
    (h : 0 < denominator) :
    |left.size - ratioSize numerator denominator| = |right.size - ratioSize numerator denominator| ↔
      distance numerator denominator left.quanta = distance numerator denominator right.quanta := by
  rw [le_antisymm_iff, abs_size_sub_le_iff left right numerator h,
    abs_size_sub_le_iff right left numerator h, ← le_antisymm_iff]

theorem Magnitude.ext {left right : Magnitude} (h : left.quanta = right.quanta) :
    left = right := by
  cases left
  cases right
  cases h
  rfl

theorem rounds_ofRatio (negative : Bool) (numerator : Nat) {denominator : Nat}
    (h : 0 < denominator) :
    Rounds negative (ratioSize numerator denominator) (ofRatio negative numerator denominator) := by
  unfold ofRatio
  split
  · rename_i hlt
    have hother : ∀ other : Magnitude,
        other ≠ ⟨nearest numerator denominator, representable_nearest hlt⟩ →
        other.quanta ≠ nearest numerator denominator :=
      fun other hne heq => hne (Magnitude.ext heq)
    refine .finite ((ratioSize_lt_overflow_iff h).mpr hlt) (fun other => ?_) ?_
    · rw [abs_size_sub_le_iff _ _ numerator h]
      by_cases heq : other.quanta = nearest numerator denominator
      · rw [heq]
      · rcases distance_nearest h other.representable.1 heq with hnear | ⟨htie, _⟩
        · exact le_of_lt hnear
        · exact le_of_eq htie
    · intro other hne htie
      rw [abs_size_sub_eq_iff _ _ numerator h] at htie
      rcases distance_nearest h other.representable.1 (hother other hne) with hnear | ⟨_, heven, _⟩
      · exact absurd htie (ne_of_lt hnear)
      · exact heven
  · rename_i hge
    exact .infinite (not_lt.mp (fun hlt => hge ((ratioSize_lt_overflow_iff h).mp hlt)))

theorem Rounds.eq_ofRatio {negative : Bool} {numerator denominator : Nat} {value : Binary64}
    (h : 0 < denominator) (rounds : Rounds negative (ratioSize numerator denominator) value) :
    value = ofRatio negative numerator denominator := by
  unfold ofRatio
  cases rounds with
  | @finite magnitude bounded nearest even =>
      have hlt := (ratioSize_lt_overflow_iff h).mp bounded
      rw [dif_pos hlt]
      congr 1
      by_contra hne
      have hquanta : magnitude.quanta ≠ Binary64.nearest numerator denominator :=
        fun heq => hne (Magnitude.ext heq)
      have hle := (abs_size_sub_le_iff _ _ numerator h).mp
        (nearest ⟨Binary64.nearest numerator denominator, representable_nearest hlt⟩)
      rcases distance_nearest h magnitude.representable.1 hquanta with hnear | ⟨htie, _, hodd⟩
      · exact absurd hle (not_le.mpr hnear)
      · exact hodd (even _ (Ne.symm hne) ((abs_size_sub_eq_iff _ _ numerator h).mpr htie.symm))
  | infinite beyond =>
      rw [dif_neg (fun hlt => not_lt.mpr beyond ((ratioSize_lt_overflow_iff h).mpr hlt))]

end Binary64

def Decimal.size (decimal : Decimal) : ℚ :=
  decimal.coefficient * 10 ^ decimal.exponent

theorem Decimal.size_nonneg (decimal : Decimal) : 0 ≤ decimal.size :=
  mul_nonneg (Nat.cast_nonneg _) (zpow_nonneg (by norm_num) _)

namespace Binary64

theorem ratioSize_ratioOf (decimal : Decimal) :
    ratioSize (ratioOf decimal).1 (ratioOf decimal).2 = decimal.size := by
  have hquantum := ne_of_gt quantum_pos
  obtain ⟨coefficient, exponent⟩ := decimal
  rw [ratioSize, ratioOf, Decimal.size]
  push_cast
  generalize (2 : ℚ) ^ quantumExponent = quantum at *
  cases exponent with
  | ofNat zeros =>
      rw [Int.ofNat_eq_natCast, Int.toNat_natCast, Int.toNat_neg_natCast, zpow_natCast]
      field_simp
  | negSucc places =>
      rw [Int.toNat_negSucc, Int.neg_negSucc, ← Nat.succ_eq_add_one, Int.toNat_natCast,
        zpow_negSucc]
      field_simp

theorem ratioOf_pos (decimal : Decimal) : 0 < (ratioOf decimal).2 :=
  Nat.pow_pos (by decide)

/-- The bit length of the coefficient is too small against the tenths to reach half a quantum. -/
theorem mul_two_pow_lt_ten_pow {coefficient places quantum : Nat}
    (h : coefficient.log2 + quantum + 2 ≤ 3 * places) :
    coefficient * 2 ^ (quantum + 1) < 10 ^ places := by
  calc
    coefficient * 2 ^ (quantum + 1) < 2 ^ (coefficient.log2 + 1) * 2 ^ (quantum + 1) :=
      Nat.mul_lt_mul_of_pos_right Nat.lt_log2_self (Nat.two_pow_pos _)
    _ = 2 ^ (coefficient.log2 + quantum + 2) := by
      rw [← Nat.pow_add]
      congr 1
      omega
    _ ≤ 2 ^ (3 * places) := Nat.pow_le_pow_right (by decide) h
    _ = 8 ^ places := by rw [Nat.pow_mul]
    _ ≤ 10 ^ places := Nat.pow_le_pow_left (by decide) places

theorem size_lt_of_isTiny {decimal : Decimal} (h : IsTiny decimal) :
    decimal.size * 2 ^ (quantumExponent + 1) < 1 := by
  obtain ⟨coefficient, exponent⟩ := decimal
  rcases h with hzero | hsmall
  · obtain rfl : coefficient = 0 := hzero
    simp [Decimal.size]
  · simp only at hsmall
    obtain ⟨places, rfl⟩ : ∃ places : Nat, exponent = -places :=
      ⟨exponent.natAbs, by omega⟩
    have hlt := @mul_two_pow_lt_ten_pow coefficient places quantumExponent (by omega)
    have hpos : (0 : ℚ) < 10 ^ places := by positivity
    rw [Decimal.size, zpow_neg, zpow_natCast, ← div_eq_mul_inv, div_mul_eq_mul_div,
      div_lt_one hpos]
    exact_mod_cast hlt

theorem overflow_le_of_isHuge {decimal : Decimal} (h : IsHuge decimal) :
    overflow ≤ decimal.size := by
  obtain ⟨coefficient, exponent⟩ := decimal
  obtain ⟨hcoefficient, hexponent⟩ := h
  simp only at hcoefficient hexponent
  have hone : (1 : ℚ) ≤ coefficient := by exact_mod_cast Nat.pos_of_ne_zero hcoefficient
  have hpower : (10 : ℚ) ^ (309 : Int) ≤ 10 ^ exponent :=
    zpow_le_zpow_right₀ (by norm_num) hexponent
  have hlimit : (2 : ℚ) ^ 1024 ≤ 10 ^ (309 : Int) := by
    have hnat : 2 ^ 1024 ≤ 10 ^ 309 := by decide +kernel
    exact_mod_cast hnat
  have hlast : (0 : ℚ) ≤ 2 ^ 970 := by positivity
  calc
    overflow ≤ 2 ^ 1024 := sub_le_self _ hlast
    _ ≤ 10 ^ exponent := le_trans hlimit hpower
    _ ≤ coefficient * 10 ^ exponent :=
      le_mul_of_one_le_left (zpow_nonneg (by norm_num) exponent) hone

theorem Magnitude.le_size {magnitude : Magnitude} (h : magnitude.quanta ≠ 0) :
    1 ≤ magnitude.size * 2 ^ quantumExponent := by
  rw [Magnitude.size, div_mul_cancel₀ _ (ne_of_gt quantum_pos)]
  exact_mod_cast Nat.pos_of_ne_zero h

theorem one_le_middle (half : Nat) : (1 : ℚ) ≤ 2 ^ (half + 54) - 2 ^ half := by
  have hpower : (1 : ℚ) ≤ 2 ^ half := one_le_pow₀ (by norm_num)
  rw [pow_add]
  linarith

theorem one_le_overflow : 1 ≤ overflow :=
  one_le_middle 970

theorem rounds_zero (negative : Bool) {size : ℚ} (hnonneg : 0 ≤ size)
    (h : size * 2 ^ (quantumExponent + 1) < 1) : Rounds negative size (zero negative) := by
  have hquantum := quantum_pos
  have hzero : Magnitude.size ⟨0, representable_zero⟩ = 0 := by simp [Magnitude.size]
  have hhalf : 2 * (size * 2 ^ quantumExponent) < 1 := by
    rw [pow_succ] at h
    linarith
  refine .finite ?_ (fun other => ?_) ?_
  · have hpower : (1 : ℚ) ≤ 2 ^ (quantumExponent + 1) := one_le_pow₀ (by norm_num)
    have hsize : size < 1 := lt_of_le_of_lt (le_mul_of_one_le_right hnonneg hpower) h
    exact lt_of_lt_of_le hsize one_le_overflow
  · rw [hzero, zero_sub, abs_neg, abs_of_nonneg hnonneg]
    by_cases hquanta : other.quanta = 0
    · rw [show other = ⟨0, representable_zero⟩ from Magnitude.ext hquanta, hzero]
      simp [abs_of_nonneg hnonneg]
    · have hle := Magnitude.le_size hquanta
      rw [← mul_le_mul_iff_of_pos_right hquantum]
      refine le_trans ?_ (mul_le_mul_of_nonneg_right (le_abs_self _) (le_of_lt hquantum))
      linarith
  · intro other _ _
    exact Nat.dvd_zero _

theorem rounds_ofDecimal (negative : Bool) (decimal : Decimal) :
    Rounds negative decimal.size (ofDecimal negative decimal) := by
  unfold ofDecimal
  split
  · rename_i htiny
    exact rounds_zero negative decimal.size_nonneg (size_lt_of_isTiny htiny)
  · split
    · rename_i hhuge
      exact .infinite (overflow_le_of_isHuge hhuge)
    · rw [← ratioSize_ratioOf]
      exact rounds_ofRatio negative _ (ratioOf_pos decimal)

/-- A decimal is read as the one number that it rounds to. -/
theorem rounds_size_iff {negative : Bool} {decimal : Decimal} {value : Binary64} :
    Rounds negative decimal.size value ↔ value = ofDecimal negative decimal := by
  constructor
  · intro rounds
    have hread := rounds_ofDecimal negative decimal
    rw [← ratioSize_ratioOf] at rounds hread
    rw [rounds.eq_ofRatio (ratioOf_pos decimal), hread.eq_ofRatio (ratioOf_pos decimal)]
  · rintro rfl
    exact rounds_ofDecimal negative decimal

end Binary64

end Lindenmayer
