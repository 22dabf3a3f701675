import Lindenmayer.Binary64.Basic
import Lindenmayer.Decimal

namespace Lindenmayer

namespace Binary64

attribute [local instance (high)] instPowNat

/-- The quotient rounded to the nearest whole number, a tie to the even one. -/
def roundDiv (numerator denominator : Nat) : Nat :=
  let quotient := numerator / denominator
  let remainder := numerator % denominator
  if 2 * remainder < denominator then quotient
  else if denominator < 2 * remainder then quotient + 1
  else quotient + quotient % 2

theorem roundDiv_le (numerator denominator : Nat) :
    roundDiv numerator denominator ≤ numerator / denominator + 1 := by
  simp only [roundDiv]
  split
  · omega
  · split <;> omega

/-- The multiple of the spacing nearest to a quotient of quanta. -/
def nearest (numerator denominator : Nat) : Nat :=
  let step := spacing (numerator / denominator)
  roundDiv numerator (denominator * step) * step

theorem spacing_dvd_mul_pow {significand : Nat} (shift : Nat) (h : significand ≤ 2 ^ (53 : Nat)) :
    spacing (significand * 2 ^ shift) ∣ significand * 2 ^ shift := by
  unfold spacing
  rcases Nat.eq_zero_or_pos significand with rfl | hpos
  · simp
  · have hne : significand * 2 ^ shift ≠ 0 :=
      Nat.mul_ne_zero (by omega) (by simp)
    rcases Nat.lt_or_eq_of_le h with hlt | rfl
    · have hlog : (significand * 2 ^ shift).log2 < 53 + shift := by
        rw [Nat.log2_lt hne, Nat.pow_add]
        exact Nat.mul_lt_mul_of_pos_right hlt (Nat.two_pow_pos shift)
      exact Nat.dvd_trans (Nat.pow_dvd_pow 2 (by omega)) (Nat.dvd_mul_left _ _)
    · rw [← Nat.pow_add, Nat.log2_two_pow]
      exact Nat.pow_dvd_pow 2 (by omega)

theorem div_spacing_lt (quanta : Nat) : quanta / spacing quanta < 2 ^ (53 : Nat) := by
  unfold spacing
  rw [Nat.div_lt_iff_lt_mul (Nat.two_pow_pos _), ← Nat.pow_add]
  exact Nat.lt_of_lt_of_le Nat.lt_log2_self (Nat.pow_le_pow_right (by decide) (by omega))

theorem spacing_dvd_nearest (numerator denominator : Nat) :
    spacing (nearest numerator denominator) ∣ nearest numerator denominator := by
  apply spacing_dvd_mul_pow
  refine Nat.le_trans (roundDiv_le _ _) ?_
  rw [← Nat.div_div_eq_div_mul]
  exact div_spacing_lt (numerator / denominator)

theorem representable_nearest {numerator denominator : Nat}
    (h : nearest numerator denominator < limit) :
    Representable (nearest numerator denominator) :=
  ⟨spacing_dvd_nearest numerator denominator, h⟩

theorem roundDiv_mul_right (quotient : Nat) {denominator : Nat} (h : 0 < denominator) :
    roundDiv (quotient * denominator) denominator = quotient := by
  simp [roundDiv, Nat.mul_div_cancel _ h, h]

theorem nearest_mul_right {quanta denominator : Nat} (hdvd : spacing quanta ∣ quanta)
    (h : 0 < denominator) : nearest (quanta * denominator) denominator = quanta := by
  have hstep : 0 < spacing quanta := Nat.two_pow_pos _
  obtain ⟨significand, hsignificand⟩ := hdvd
  simp only [nearest, Nat.mul_div_cancel _ h]
  have hproduct : quanta * denominator = significand * (denominator * spacing quanta) := by
    conv => lhs; rw [hsignificand]
    simp [Nat.mul_comm, Nat.mul_left_comm]
  rw [hproduct, roundDiv_mul_right _ (Nat.mul_pos h hstep), Nat.mul_comm]
  exact hsignificand.symm

/-- The number nearest to a quotient of quanta, infinite when that lies beyond the finite ones. -/
def ofRatio (negative : Bool) (numerator denominator : Nat) : Binary64 :=
  if h : nearest numerator denominator < limit then
    finite negative ⟨nearest numerator denominator, representable_nearest h⟩
  else infinite negative

theorem ofRatio_mul_right (negative : Bool) (magnitude : Magnitude) {denominator : Nat}
    (h : 0 < denominator) :
    ofRatio negative (magnitude.quanta * denominator) denominator = finite negative magnitude := by
  have hnearest := nearest_mul_right magnitude.representable.1 h
  unfold ofRatio
  rw [dif_pos (by rw [hnearest]; exact magnitude.representable.2)]
  congr

def ratioOf (decimal : Decimal) : Nat × Nat :=
  (decimal.coefficient * 10 ^ decimal.exponent.toNat * 2 ^ quantumExponent,
    10 ^ (-decimal.exponent).toNat)

/-- Certainly at least `10 ^ 309`, which is beyond the finite numbers. -/
def IsHuge (decimal : Decimal) : Prop :=
  decimal.coefficient ≠ 0 ∧ 309 ≤ decimal.exponent

/-- Certainly less than half a quantum: the coefficient is below two to its bit length, and a
tenth is below an eighth. -/
def IsTiny (decimal : Decimal) : Prop :=
  decimal.coefficient = 0 ∨
    (decimal.coefficient.log2 + quantumExponent + 2 : Int) ≤ -3 * decimal.exponent

instance (decimal : Decimal) : Decidable (IsHuge decimal) :=
  inferInstanceAs (Decidable (_ ∧ _))

instance (decimal : Decimal) : Decidable (IsTiny decimal) :=
  inferInstanceAs (Decidable (_ ∨ _))

/-- The number nearest to a decimal. The first two answers only spare the huge powers of ten. -/
def ofDecimal (negative : Bool) (decimal : Decimal) : Binary64 :=
  if IsTiny decimal then zero negative
  else if IsHuge decimal then infinite negative
  else ofRatio negative (ratioOf decimal).1 (ratioOf decimal).2

theorem ofDecimal_zero (negative : Bool) (exponent : Int) :
    ofDecimal negative ⟨0, exponent⟩ = zero negative := by
  simp [ofDecimal, IsTiny]

theorem ofDecimal_of_not_extreme (negative : Bool) {decimal : Decimal}
    (htiny : ¬IsTiny decimal) (hhuge : ¬IsHuge decimal) :
    ofDecimal negative decimal = ofRatio negative (ratioOf decimal).1 (ratioOf decimal).2 := by
  rw [ofDecimal, if_neg htiny, if_neg hhuge]

end Binary64

end Lindenmayer
