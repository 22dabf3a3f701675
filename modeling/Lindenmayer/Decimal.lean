namespace Lindenmayer

/-- The number `coefficient * 10 ^ exponent`. -/
structure Decimal where
  coefficient : Nat
  exponent : Int
  deriving DecidableEq

namespace Decimal

def digits (decimal : Decimal) : List Char :=
  Nat.toDigits 10 decimal.coefficient

def leadingExponent (decimal : Decimal) : Int :=
  decimal.exponent + decimal.digits.length - 1

/-- Zeros in front of the digits until one of them stands left of `places` places. -/
def padded (decimal : Decimal) (places : Nat) : List Char :=
  List.replicate (places + 1 - decimal.digits.length) '0' ++ decimal.digits

/-- All digits written out, with a point only if digits follow it. -/
def positional (decimal : Decimal) : List Char :=
  match decimal.exponent with
  | .ofNat zeros => decimal.digits ++ List.replicate zeros '0'
  | .negSucc below =>
      let padded := decimal.padded (below + 1)
      let whole := padded.length - (below + 1)
      padded.take whole ++ '.' :: padded.drop whole

/-- One digit left of the point, which is left out when nothing follows it, then the power. -/
def scientific (decimal : Decimal) : List Char :=
  let mantissa :=
    match decimal.digits with
    | first :: second :: rest => first :: '.' :: second :: rest
    | digits => digits
  mantissa ++ 'e' :: (toString decimal.leadingExponent).toList

@[simp] theorem positional_ofNat (coefficient zeros : Nat) :
    positional ⟨coefficient, .ofNat zeros⟩ =
      Nat.toDigits 10 coefficient ++ List.replicate zeros '0' := rfl

theorem length_padded (decimal : Decimal) (places : Nat) :
    places + 1 ≤ (decimal.padded places).length := by
  simp [padded]
  omega

end Decimal

end Lindenmayer
