import Lindenmayer.Proofs.Arithmetic.Sums

/-! Distance and tolerance are rounded, but totals lie too far apart for this to matter. -/

namespace Lindenmayer

namespace Binary64

theorem two_pow_dvd_quanta {quanta exponent : Nat} (h : spacing quanta ∣ quanta)
    (hle : 2 ^ (exponent + 52) ≤ quanta) : 2 ^ exponent ∣ quanta := by
  have hne : quanta ≠ 0 := Nat.ne_of_gt (Nat.lt_of_lt_of_le (Nat.two_pow_pos _) hle)
  have hlog := (Nat.le_log2 hne).mpr hle
  exact Nat.dvd_trans (Nat.pow_dvd_pow 2 (by omega)) h

theorem Magnitude.exists_size_eq {magnitude : Magnitude} (h : 1 / 2 ≤ magnitude.size) :
    ∃ count : Nat, magnitude.size = count / 2 ^ 53 := by
  obtain ⟨exponent, hexponent⟩ : ∃ exponent, quantumExponent = exponent + 53 :=
    ⟨quantumExponent - 53, rfl⟩
  rw [size, hexponent] at h ⊢
  have hle : 2 ^ (exponent + 52) ≤ magnitude.quanta := by
    rw [div_le_div_iff₀ (by norm_num) (by positivity), one_mul, pow_succ _ (exponent + 52)] at h
    have hcast := le_of_mul_le_mul_right h two_pos
    exact_mod_cast hcast
  obtain ⟨count, hcount⟩ := two_pow_dvd_quanta magnitude.representable.1 hle
  refine ⟨count, ?_⟩
  rw [hcount, pow_add]
  push_cast
  field_simp

theorem abs_div_sub_one_cases (count bound : Nat) :
    |(count : ℚ) / 2 ^ 53 - 1| ≤ (bound : ℚ) / 2 ^ 53 ∨
      ((bound : ℚ) + 1) / 2 ^ 53 ≤ |(count : ℚ) / 2 ^ 53 - 1| := by
  have heq : (count : ℚ) / 2 ^ 53 - 1 = ((count - 2 ^ 53 : Int) : ℚ) / 2 ^ 53 := by
    push_cast
    ring
  rw [heq, abs_div, abs_of_pos (by positivity : (0 : ℚ) < 2 ^ 53), ← Int.cast_abs,
    div_le_div_iff_of_pos_right (by positivity), div_le_div_iff_of_pos_right (by positivity)]
  rcases le_or_gt |(count - 2 ^ 53 : Int)| bound with hle | hgt
  · exact .inl (by exact_mod_cast hle)
  · exact .inr (by exact_mod_cast hgt)

/-- The tolerance lies between two neighbouring distances. -/
theorem IsTotal.abs_sub_one_cases {total : Binary64} (h : total.IsTotal) :
    |total.toRat - 1| ≤ 9007199 / 2 ^ 53 ∨ 9007200 / 2 ^ 53 ≤ |total.toRat - 1| := by
  by_cases hsmall : total.toRat < 1 / 2
  · right
    rw [abs_of_nonpos (by linarith)]
    linarith
  · obtain ⟨isFinite, nonneg, _⟩ := h
    obtain ⟨negative, magnitude, rfl⟩ := exists_of_isFinite isFinite
    cases negative with
    | true =>
        have := magnitude.size_nonneg
        rw [toRat_negative] at hsmall
        linarith
    | false =>
        rw [toRat_positive, not_lt] at *
        obtain ⟨count, hcount⟩ := Magnitude.exists_size_eq hsmall
        rw [hcount]
        have hcases := abs_div_sub_one_cases count 9007199
        norm_num at hcases ⊢
        exact hcases

theorem finite_lt_finite_iff {left right : Magnitude} :
    finite false left < finite false right ↔ left.size < right.size := by
  rw [lt_iff, Magnitude.size_lt_iff]
  simp [signed]

theorem exists_tolerance_eq :
    ∃ magnitude, tolerance = finite false magnitude ∧
      |magnitude.size - 1 / 10 ^ 9| ≤ 1 / 10 ^ 24 := by
  have rounds := rounds_ofDecimal false ⟨1, -9⟩
  have hsize : Decimal.size ⟨1, -9⟩ = 1 / 10 ^ 9 := by
    norm_num [Decimal.size]
  rw [hsize] at rounds
  obtain ⟨magnitude, heq⟩ := rounds.exists_finite (lt_of_lt_of_le (by norm_num) one_le_overflow)
  rw [heq] at rounds
  refine ⟨magnitude, heq, le_trans (rounds.abs_sub_le (by positivity)) ?_⟩
  refine le_trans (add_le_add_right half_quantum_le _) ?_
  norm_num

theorem IsTotal.exists_sub_one_eq {total : Binary64} (h : total.IsTotal) :
    ∃ negative magnitude, total - one = finite negative magnitude ∧
      |magnitude.size - (|total.toRat - 1|)| ≤
        |total.toRat - 1| / 2 ^ 53 + 1 / 2 ^ (quantumExponent + 1) := by
  have hsum : total.toRat + (-one).toRat = total.toRat - 1 := by
    rw [toRat_neg, toRat_one, sub_eq_add_neg]
  rw [← hsum]
  refine exists_add_eq h.isFinite rfl ?_
  rw [hsum]
  refine lt_of_le_of_lt ?_ (two_pow_lt_middle 970)
  have hnonneg := h.nonneg
  have hle := h.le
  rw [abs_le]
  constructor <;> linarith

theorem IsTotal.isUnbalanced_iff {total : Binary64} (h : total.IsTotal) :
    total.IsUnbalanced ↔ 1 / 10 ^ 9 < |total.toRat - 1| := by
  obtain ⟨bound, htolerance, hbound⟩ := exists_tolerance_eq
  obtain ⟨negative, magnitude, hdifference, hmagnitude⟩ := h.exists_sub_one_eq
  rw [IsUnbalanced, htolerance, hdifference]
  change finite false bound < finite false magnitude ↔ _
  rw [finite_lt_finite_iff]
  obtain ⟨hboundLow, hboundHigh⟩ := abs_le.mp hbound
  obtain ⟨hlow, hhigh⟩ := abs_le.mp hmagnitude
  have hquantum := half_quantum_le
  generalize (1 : ℚ) / 2 ^ (quantumExponent + 1) = half at *
  rcases h.abs_sub_one_cases with hnear | hfar
  · constructor <;> intro hlt <;> linarith
  · constructor <;> intro _ <;> linarith

end Binary64

end Lindenmayer
