import Lindenmayer.Balance
import Lindenmayer.Proofs.Arithmetic.Nearness

namespace Lindenmayer

namespace Binary64

@[simp] theorem toRat_neg (value : Binary64) : (-value).toRat = -value.toRat := by
  cases value with
  | nan => exact neg_zero.symm
  | infinite negative => exact neg_zero.symm
  | finite negative magnitude =>
      change (finite (!negative) magnitude).toRat = _
      cases negative <;> simp

theorem ratioSize_natAbs (quanta : Int) :
    ratioSize quanta.natAbs 1 = |(quanta : ℚ) / 2 ^ quantumExponent| := by
  rw [ratioSize, Nat.cast_natAbs, Nat.cast_one, div_one, abs_div, abs_of_pos quantum_pos,
    Int.cast_abs]

theorem finite_add (left right : Bool) (first second : Magnitude) :
    finite left first + finite right second =
      ofQuanta (left && right) (signed left first.quanta + signed right second.quanta) := rfl

theorem toRat_finite_add (left right : Bool) (first second : Magnitude) :
    (finite left first).toRat + (finite right second).toRat =
      ((signed left first.quanta + signed right second.quanta : Int) : ℚ) /
        2 ^ quantumExponent := by
  rw [toRat_finite, toRat_finite, ← add_div]
  push_cast
  rfl

theorem rounds_add {left right : Binary64} (hleft : left.isFinite = true)
    (hright : right.isFinite = true) (h : left.toRat + right.toRat ≠ 0) :
    Rounds (decide (left.toRat + right.toRat < 0)) |left.toRat + right.toRat| (left + right) := by
  obtain ⟨left, first, rfl⟩ := exists_of_isFinite hleft
  obtain ⟨right, second, rfl⟩ := exists_of_isFinite hright
  rw [toRat_finite_add] at h ⊢
  rw [finite_add]
  generalize signed left first.quanta + signed right second.quanta = quanta at h ⊢
  have hne : quanta ≠ 0 := by
    rintro rfl
    simp at h
  have hsign : ((quanta : ℚ) / 2 ^ quantumExponent < 0) ↔ quanta < 0 := by
    rw [div_lt_iff₀ quantum_pos, zero_mul, Int.cast_lt_zero]
  rw [ofQuanta, if_neg hne, decide_eq_decide.mpr hsign, ← ratioSize_natAbs]
  exact rounds_ofRatio _ _ Nat.one_pos

theorem add_eq_zero {left right : Binary64} (hleft : left.isFinite = true)
    (hright : right.isFinite = true) (h : left.toRat + right.toRat = 0) :
    ∃ negative, left + right = zero negative := by
  obtain ⟨left, first, rfl⟩ := exists_of_isFinite hleft
  obtain ⟨right, second, rfl⟩ := exists_of_isFinite hright
  rw [toRat_finite_add, div_eq_zero_iff, Int.cast_eq_zero] at h
  exact ⟨left && right, if_pos (h.resolve_right (ne_of_gt quantum_pos))⟩

theorem exists_add_eq {left right : Binary64} (hleft : left.isFinite = true)
    (hright : right.isFinite = true) (h : |left.toRat + right.toRat| < overflow) :
    ∃ negative magnitude, left + right = finite negative magnitude ∧
      |magnitude.size - (|left.toRat + right.toRat|)| ≤
        |left.toRat + right.toRat| / 2 ^ 53 + 1 / 2 ^ (quantumExponent + 1) := by
  by_cases hzero : left.toRat + right.toRat = 0
  · obtain ⟨negative, heq⟩ := add_eq_zero hleft hright hzero
    refine ⟨negative, _, heq, ?_⟩
    rw [hzero]
    simp [Magnitude.size]
  · have rounds := rounds_add hleft hright hzero
    obtain ⟨magnitude, heq⟩ := rounds.exists_finite h
    rw [heq] at rounds
    exact ⟨_, magnitude, heq, rounds.abs_sub_le (abs_nonneg _)⟩

/-- A sum of probabilities: finite, and at most the number that one more no longer changes. -/
structure IsTotal (value : Binary64) : Prop where
  isFinite : value.isFinite = true
  nonneg : 0 ≤ value.toRat
  le : value.toRat ≤ 2 ^ 53

theorem isTotal_zero (negative : Bool) : (zero negative).IsTotal where
  isFinite := rfl
  nonneg := le_of_eq (toRat_zero negative).symm
  le := by
    rw [toRat_zero]
    positivity

theorem IsTotal.rounds_add {left right : Binary64} (total : left.IsTotal)
    (h : right.IsProbability) : Rounds false (left.toRat + right.toRat) (left + right) := by
  have hpos := add_pos_of_nonneg_of_pos total.nonneg h.toRat_pos
  have rounds := Binary64.rounds_add total.isFinite h.isFinite (ne_of_gt hpos)
  rwa [decide_eq_false (not_lt.mpr (le_of_lt hpos)), abs_of_pos hpos] at rounds

theorem IsTotal.exists_add {left right : Binary64} (total : left.IsTotal)
    (h : right.IsProbability) :
    ∃ magnitude, left + right = finite false magnitude ∧ magnitude.size ≤ 2 ^ 53 := by
  have rounds := total.rounds_add h
  have hle : left.toRat + right.toRat ≤ 2 ^ 53 + 2 ^ 53 / 2 ^ 53 := by
    rw [div_self (by positivity)]
    exact add_le_add total.le h.toRat_le
  obtain ⟨magnitude, heq⟩ := rounds.exists_finite (lt_of_le_of_lt hle (two_pow_lt_middle 970))
  rw [heq] at rounds
  exact ⟨magnitude, heq, (rounds.size_le_two_pow_iff 53 (by decide)).mpr hle⟩

theorem IsTotal.add {left right : Binary64} (total : left.IsTotal) (h : right.IsProbability) :
    (left + right).IsTotal := by
  obtain ⟨magnitude, heq, hle⟩ := total.exists_add h
  rw [heq]
  exact ⟨rfl, magnitude.size_nonneg, hle⟩

theorem IsTotal.foldl {total : Binary64} (h : total.IsTotal) {values : List Binary64}
    (probabilities : ∀ value ∈ values, value.IsProbability) :
    (values.foldl (· + ·) total).IsTotal := by
  induction values generalizing total with
  | nil => exact h
  | cons value values ih =>
      rw [List.forall_mem_cons] at probabilities
      exact ih (h.add probabilities.1) probabilities.2

theorem isTotal_sum {values : List Binary64}
    (probabilities : ∀ value ∈ values, value.IsProbability) : (sum values).IsTotal :=
  (isTotal_zero true).foldl probabilities

/-- A probability, and the number that was rounded to it. -/
structure IsRounded (value : Binary64) (size : ℚ) : Prop where
  isProbability : value.IsProbability
  rounds : Rounds false size value

/-- A sum of `count` numbers, as it comes out in this arithmetic and as it should. Each number may
add four roundings: its own, that of the addition, and what these add to the later ones. -/
structure Tracks (count : Nat) (exact : ℚ) (total : Binary64) : Prop where
  isTotal : total.IsTotal
  nonneg : 0 ≤ exact
  near : |total.toRat - exact| ≤ 4 * count * (exact / 2 ^ 53 + 1 / 2 ^ (quantumExponent + 1))

theorem IsRounded.size_pos {value : Binary64} {size : ℚ} (h : IsRounded value size) : 0 < size := by
  obtain ⟨_, hpos, _⟩ := h.rounds.isProbability_iff.mp h.isProbability
  exact lt_trans (by positivity) hpos

theorem IsRounded.abs_sub_le {value : Binary64} {size : ℚ} (h : IsRounded value size) :
    |value.toRat - size| ≤ size / 2 ^ 53 + 1 / 2 ^ (quantumExponent + 1) := by
  obtain ⟨magnitude, rfl, _⟩ := isProbability_iff_size.mp h.isProbability
  exact h.rounds.abs_sub_le (le_of_lt h.size_pos)

theorem IsTotal.abs_add_sub_le {left right : Binary64} (total : left.IsTotal)
    (h : right.IsProbability) :
    |(left + right).toRat - (left.toRat + right.toRat)| ≤
      (left.toRat + right.toRat) / 2 ^ 53 + 1 / 2 ^ (quantumExponent + 1) := by
  obtain ⟨magnitude, heq, _⟩ := total.exists_add h
  have rounds := total.rounds_add h
  rw [heq] at rounds ⊢
  exact rounds.abs_sub_le (le_of_lt (add_pos_of_nonneg_of_pos total.nonneg h.toRat_pos))

theorem tracks_zero : Tracks 0 0 (zero true) where
  isTotal := isTotal_zero true
  nonneg := le_refl 0
  near := by simp

theorem Tracks.add {count : Nat} {exact size : ℚ} {total value : Binary64}
    (tracks : Tracks count exact total) (h : IsRounded value size) (hcount : count < 2 ^ 51) :
    Tracks (count + 1) (exact + size) (total + value) where
  isTotal := tracks.isTotal.add h.isProbability
  nonneg := add_nonneg tracks.nonneg (le_of_lt h.size_pos)
  near := by
    have hexact := tracks.nonneg
    have hsize := h.size_pos
    obtain ⟨hlow, hhigh⟩ := abs_le.mp tracks.near
    obtain ⟨hvalueLow, hvalueHigh⟩ := abs_le.mp h.abs_sub_le
    obtain ⟨haddLow, haddHigh⟩ := abs_le.mp (tracks.isTotal.abs_add_sub_le h.isProbability)
    have hquantum : (0 : ℚ) < 1 / 2 ^ (quantumExponent + 1) := by positivity
    generalize (1 : ℚ) / 2 ^ (quantumExponent + 1) = half at *
    have hbound : (count : ℚ) + 1 ≤ 2 ^ 51 := by exact_mod_cast hcount
    have hsum : 0 ≤ exact / 2 ^ 53 + half := by positivity
    have hdrift := mul_le_mul_of_nonneg_right hbound hsum
    have hgrows : 0 ≤ count * size := by positivity
    rw [abs_le]
    push_cast
    constructor <;> linarith

theorem Tracks.foldl {count : Nat} {exact : ℚ} {total : Binary64}
    (tracks : Tracks count exact total) {values : List Binary64} {sizes : List ℚ}
    (h : List.Forall₂ IsRounded values sizes) (hcount : count + values.length ≤ 2 ^ 51) :
    Tracks (count + values.length) (exact + sizes.sum) (values.foldl (· + ·) total) := by
  induction h generalizing count exact total with
  | nil => simpa using tracks
  | cons hvalue hvalues ih =>
      rw [List.length_cons] at hcount ⊢
      rw [List.sum_cons, ← add_assoc exact, ← Nat.add_assoc, Nat.add_right_comm]
      exact ih (tracks.add hvalue (by omega)) (by omega)

theorem tracks_sum {values : List Binary64} {sizes : List ℚ}
    (h : List.Forall₂ IsRounded values sizes) (hcount : values.length ≤ 2 ^ 51) :
    Tracks values.length sizes.sum (sum values) := by
  have tracks := tracks_zero.foldl h (by omega)
  rwa [Nat.zero_add, zero_add] at tracks

end Binary64

end Lindenmayer
