import Lindenmayer.Binary64.Rounding

/-! The shortest decimal that reads back as a number, and of the shortest ones the nearest. -/

namespace Lindenmayer

namespace Binary64

attribute [local instance (high)] instPowNat

namespace Magnitude

/-- All digits of a magnitude: a half is five tenths. -/
def exact (magnitude : Magnitude) : Decimal :=
  ⟨magnitude.quanta * 5 ^ quantumExponent, -quantumExponent⟩

def ReadsBack (magnitude : Magnitude) (decimal : Decimal) : Prop :=
  ofDecimal false decimal = finite false magnitude

instance (magnitude : Magnitude) (decimal : Decimal) :
    Decidable (magnitude.ReadsBack decimal) :=
  inferInstanceAs (Decidable (_ = _))

/-- The neighbour of a magnitude on the grid that drops its last `dropped` digits, if one reads
back: the nearer one if both do, and the upper one if they are equally near. -/
def neighbour? (magnitude : Magnitude) (dropped : Nat) : Option Decimal :=
  let exact := magnitude.exact
  let unit := 10 ^ dropped
  let lower : Decimal := ⟨exact.coefficient / unit, exact.exponent + dropped⟩
  let upper : Decimal := ⟨exact.coefficient / unit + 1, exact.exponent + dropped⟩
  let lowerFirst := 2 * (exact.coefficient % unit) < unit
  (if lowerFirst then [lower, upper] else [upper, lower]).find?
    (fun decimal => decide (magnitude.ReadsBack decimal))

/-- Grids from coarse to fine: no digit is kept, then one, and at last the seventeen that are
enough for every number of the format. -/
def shortest (magnitude : Magnitude) : Decimal :=
  if magnitude.quanta = 0 then ⟨0, 0⟩
  else
    let size := magnitude.exact.digits.length
    let grids := (List.range 18).map (fun kept => size - kept)
    (grids.findSome? magnitude.neighbour?).getD magnitude.exact

theorem readsBack_of_neighbour? {magnitude : Magnitude} {dropped : Nat} {decimal : Decimal}
    (h : magnitude.neighbour? dropped = some decimal) : magnitude.ReadsBack decimal := by
  have hfound := List.find?_some h
  simpa using hfound

theorem four_pow_le_coefficient_exact {magnitude : Magnitude} (h : magnitude.quanta ≠ 0) :
    4 ^ quantumExponent ≤ magnitude.exact.coefficient :=
  Nat.le_trans (Nat.pow_le_pow_left (by decide) quantumExponent)
    (Nat.le_mul_of_pos_left _ (Nat.pos_of_ne_zero h))

theorem ratioOf_exact (magnitude : Magnitude) :
    ratioOf magnitude.exact =
      (magnitude.quanta * 10 ^ quantumExponent, 10 ^ quantumExponent) := by
  have hten : (10 : Nat) ^ quantumExponent = 5 ^ quantumExponent * 2 ^ quantumExponent := by
    rw [← Nat.mul_pow]
  simp [ratioOf, exact, hten, Nat.mul_assoc]

theorem readsBack_exact {magnitude : Magnitude} (h : magnitude.quanta ≠ 0) :
    magnitude.ReadsBack magnitude.exact := by
  have hlarge := four_pow_le_coefficient_exact h
  have hne : magnitude.exact.coefficient ≠ 0 :=
    Nat.ne_of_gt (Nat.lt_of_lt_of_le (Nat.pow_pos (by decide)) hlarge)
  have hlog : 2 * quantumExponent ≤ magnitude.exact.coefficient.log2 := by
    rwa [Nat.le_log2 hne, Nat.pow_mul, show 2 ^ 2 = 4 from rfl]
  have hexponent : magnitude.exact.exponent = -quantumExponent := rfl
  have htiny : ¬IsTiny magnitude.exact := by
    rintro (hzero | hsmall)
    · exact hne hzero
    · rw [hexponent, quantumExponent] at hsmall
      rw [quantumExponent] at hlog
      omega
  have hhuge : ¬IsHuge magnitude.exact := by
    rintro ⟨_, hbig⟩
    rw [hexponent, quantumExponent] at hbig
    omega
  rw [ReadsBack, ofDecimal_of_not_extreme false htiny hhuge, ratioOf_exact]
  exact ofRatio_mul_right false magnitude (Nat.pow_pos (by decide))

theorem readsBack_shortest (magnitude : Magnitude) :
    magnitude.ReadsBack magnitude.shortest := by
  unfold shortest
  split
  · rename_i hzero
    obtain ⟨quanta, representable⟩ := magnitude
    obtain rfl : quanta = 0 := hzero
    exact ofDecimal_zero false 0
  · rename_i hne
    simp only
    generalize hgrids : List.map _ (List.range 18) = grids
    cases hfound : grids.findSome? magnitude.neighbour? with
    | none => exact readsBack_exact hne
    | some decimal =>
        obtain ⟨dropped, _, hneighbour⟩ := List.exists_of_findSome?_eq_some hfound
        exact readsBack_of_neighbour? hneighbour

end Magnitude

end Binary64

end Lindenmayer
