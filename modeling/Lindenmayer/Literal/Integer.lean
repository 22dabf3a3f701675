import Lindenmayer.Literal.Digits

namespace Lindenmayer

structure IntegerLiteral where
  sign : Sign
  digits : Digits
  hasDigits : digits.chars ≠ []

namespace IntegerLiteral

def chars (literal : IntegerLiteral) : List Char :=
  literal.sign.chars ++ literal.digits.chars

def value (literal : IntegerLiteral) : Int :=
  literal.sign.apply literal.digits.value

def scan (source : List Char) : Option (IntegerLiteral × List Char) :=
  let signed := Sign.scan source
  let digits := Digits.scan signed.2
  if h : digits.1.chars ≠ [] then some (⟨signed.1, digits.1, h⟩, digits.2)
  else none

theorem scan_append {source rest : List Char} {literal : IntegerLiteral}
    (h : scan source = some (literal, rest)) : literal.chars ++ rest = source := by
  simp only [scan, Option.dite_none_right_eq_some, Option.some.injEq, Prod.mk.injEq] at h
  obtain ⟨_, rfl, rfl⟩ := h
  rw [chars, List.append_assoc, Digits.scan_append, Sign.scan_append]

end IntegerLiteral

end Lindenmayer
