import Lindenmayer.Proofs.Rounding

namespace Lindenmayer

namespace Binary64

theorem Magnitude.size_nonneg (magnitude : Magnitude) : 0 ≤ magnitude.size :=
  div_nonneg (Nat.cast_nonneg _) (le_of_lt quantum_pos)

theorem Magnitude.size_le_iff {left right : Magnitude} :
    left.size ≤ right.size ↔ left.quanta ≤ right.quanta := by
  rw [size, size, div_le_div_iff_of_pos_right quantum_pos, Nat.cast_le]

theorem Magnitude.size_lt_iff {left right : Magnitude} :
    left.size < right.size ↔ left.quanta < right.quanta := by
  rw [← not_le, size_le_iff, not_le]

/-- The number that a finite value stands for. -/
def toRat : Binary64 → ℚ
  | finite negative magnitude => signed negative magnitude.quanta / 2 ^ quantumExponent
  | _ => 0

theorem toRat_finite (negative : Bool) (magnitude : Magnitude) :
    (finite negative magnitude).toRat = signed negative magnitude.quanta / 2 ^ quantumExponent :=
  rfl

@[simp] theorem toRat_positive (magnitude : Magnitude) :
    (finite false magnitude).toRat = magnitude.size := rfl

@[simp] theorem toRat_negative (magnitude : Magnitude) :
    (finite true magnitude).toRat = -magnitude.size := by
  rw [toRat_finite, Magnitude.size, ← neg_div]
  push_cast [signed]
  rfl

@[simp] theorem toRat_zero (negative : Bool) : (zero negative).toRat = 0 := by
  cases negative <;> simp [zero, Magnitude.size]

@[simp] theorem toRat_one : one.toRat = 1 := by
  rw [one, toRat_positive, Magnitude.size]
  push_cast
  exact div_self (ne_of_gt quantum_pos)

theorem exists_of_isFinite {value : Binary64} (h : value.isFinite = true) :
    ∃ negative magnitude, value = finite negative magnitude := by
  cases value with
  | nan => simp at h
  | infinite negative => simp at h
  | finite negative magnitude => exact ⟨negative, magnitude, rfl⟩

theorem isProbability_iff {value : Binary64} :
    value.IsProbability ↔ ∃ place, value.place = some place ∧ 0 < place ∧
      place ≤ signed false (2 ^ quantumExponent) := by
  rw [IsProbability, lt_iff, le_iff, one, zero, place_finite, place_finite]
  simp only [Option.some.injEq]
  constructor
  · rintro ⟨⟨_, place, rfl, hplace, hpos⟩, _, _, hother, rfl, hle⟩
    obtain rfl := Option.some.inj (hplace.symm.trans hother)
    exact ⟨place, hplace, hpos, hle⟩
  · rintro ⟨place, hplace, hpos, hle⟩
    exact ⟨⟨_, place, rfl, hplace, hpos⟩, place, _, hplace, rfl, hle⟩

theorem isProbability_one : one.IsProbability := by
  rw [isProbability_iff]
  refine ⟨signed false (2 ^ quantumExponent), rfl, ?_, le_refl _⟩
  rw [signed, if_neg (by decide)]
  exact_mod_cast Nat.two_pow_pos quantumExponent

theorem IsProbability.of_beq {left right : Binary64} (h : left.IsProbability)
    (heq : (left == right) = true) : right.IsProbability := by
  obtain ⟨place, hleft, hright⟩ := beq_iff.mp heq
  obtain ⟨other, hother, hbounds⟩ := isProbability_iff.mp h
  obtain rfl := Option.some.inj (hother.symm.trans hleft)
  exact isProbability_iff.mpr ⟨other, hright, hbounds⟩

theorem IsProbability.ne_nan {value : Binary64} (h : value.IsProbability) : value ≠ nan := by
  rintro rfl
  obtain ⟨place, hplace, _⟩ := isProbability_iff.mp h
  simp at hplace

theorem IsProbability.isFinite {value : Binary64} (h : value.IsProbability) :
    value.isFinite = true := by
  obtain ⟨place, hplace, hpos, hle⟩ := isProbability_iff.mp h
  cases value with
  | nan => simp at hplace
  | finite negative magnitude => rfl
  | infinite negative =>
      obtain rfl : signed negative limit = place := by simpa using hplace
      have hlimit : 2 ^ quantumExponent < limit := two_pow_lt_limit (by decide)
      unfold signed at hpos hle
      generalize limit = last at hpos hle hlimit
      generalize 2 ^ quantumExponent = unit at hle hlimit
      cases negative with
      | false =>
          simp only [Bool.false_eq_true, if_false] at hle
          omega
      | true =>
          simp only [if_true] at hpos
          omega

theorem isProbability_iff_magnitude {value : Binary64} :
    value.IsProbability ↔ ∃ magnitude, value = finite false magnitude ∧ 0 < magnitude.quanta ∧
      magnitude.quanta ≤ 2 ^ quantumExponent := by
  constructor
  · intro h
    obtain ⟨place, hplace, hpos, hle⟩ := isProbability_iff.mp h
    obtain ⟨negative, magnitude, rfl⟩ := exists_of_isFinite h.isFinite
    obtain rfl : signed negative magnitude.quanta = place := by simpa using hplace
    generalize 2 ^ quantumExponent = unit at hle ⊢
    unfold signed at hpos hle
    cases negative with
    | false =>
        simp only [Bool.false_eq_true, if_false] at hpos hle
        exact ⟨magnitude, rfl, by omega, by omega⟩
    | true =>
        simp only [if_true] at hpos
        omega
  · rintro ⟨magnitude, rfl, hpos, hle⟩
    refine isProbability_iff.mpr ⟨_, rfl, ?_, ?_⟩
    · exact Int.natCast_pos.mpr hpos
    · exact Int.ofNat_le.mpr hle

theorem isProbability_iff_size {value : Binary64} :
    value.IsProbability ↔ ∃ magnitude, value = finite false magnitude ∧ 0 < magnitude.size ∧
      magnitude.size ≤ 1 := by
  have hpos (magnitude : Magnitude) : 0 < magnitude.size ↔ 0 < magnitude.quanta := by
    rw [← not_le, ← not_le, ← toRat_zero false, zero, toRat_positive, Magnitude.size_le_iff]
  have hle (magnitude : Magnitude) :
      magnitude.size ≤ 1 ↔ magnitude.quanta ≤ 2 ^ quantumExponent := by
    rw [← toRat_one, one, toRat_positive, Magnitude.size_le_iff]
  simp only [isProbability_iff_magnitude, hpos, hle]

theorem IsProbability.toRat_pos {value : Binary64} (h : value.IsProbability) :
    0 < value.toRat := by
  obtain ⟨magnitude, rfl, hpos, _⟩ := isProbability_iff_size.mp h
  exact hpos

theorem IsProbability.toRat_le {value : Binary64} (h : value.IsProbability) :
    value.toRat ≤ 1 := by
  obtain ⟨magnitude, rfl, _, hle⟩ := isProbability_iff_size.mp h
  exact hle

theorem isFinite_of_beq {left right : Binary64} (h : left.isFinite = true)
    (heq : (left == right) = true) : right.isFinite = true := by
  obtain ⟨place, hleft, hright⟩ := beq_iff.mp heq
  obtain ⟨negative, magnitude, rfl⟩ := exists_of_isFinite h
  cases right with
  | nan => simp at hright
  | finite other otherMagnitude => rfl
  | infinite other =>
      have hplaces := Option.some.inj (hleft.trans hright.symm)
      have hlimit := magnitude.representable.2
      unfold signed at hplaces
      generalize limit = last at hplaces hlimit
      split at hplaces <;> split at hplaces <;> omega

theorem ne_nan_of_isFinite {value : Binary64} (h : value.isFinite = true) : value ≠ nan := by
  rintro rfl
  simp at h

end Binary64

end Lindenmayer
