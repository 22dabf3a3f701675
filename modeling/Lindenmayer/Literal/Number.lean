import Lindenmayer.Binary64.Rounding
import Lindenmayer.Literal.Integer

/-! A mark of a power without digits after it is no part of the number. -/

namespace Lindenmayer

/-- A power of ten: the mark is a small or a capital letter. -/
structure PowerLiteral where
  capital : Bool
  power : IntegerLiteral

namespace PowerLiteral

def mark (capital : Bool) : Char :=
  if capital then 'E' else 'e'

def chars (literal : PowerLiteral) : List Char :=
  mark literal.capital :: literal.power.chars

def scan : List Char → Option PowerLiteral × List Char
  | [] => (none, [])
  | char :: rest =>
      if char = 'e' ∨ char = 'E' then
        match IntegerLiteral.scan rest with
        | some (power, after) => (some ⟨decide (char = 'E'), power⟩, after)
        | none => (none, char :: rest)
      else (none, char :: rest)

end PowerLiteral

structure NumberLiteral where
  sign : Sign
  whole : Digits
  fraction : Option Digits
  power : Option PowerLiteral
  hasDigits : whole.chars ++ (fraction.getD .empty).chars ≠ []

namespace NumberLiteral

def fractionChars : Option Digits → List Char
  | none => []
  | some digits => '.' :: digits.chars

def powerChars : Option PowerLiteral → List Char
  | none => []
  | some power => power.chars

def chars (literal : NumberLiteral) : List Char :=
  literal.sign.chars ++ literal.whole.chars ++ fractionChars literal.fraction ++
    powerChars literal.power

/-- The digits on both sides of the point. -/
def digits (literal : NumberLiteral) : Digits :=
  literal.whole ++ literal.fraction.getD .empty

def powerOfTen (literal : NumberLiteral) : Int :=
  (literal.power.map (fun power => power.power.value)).getD 0

/-- The size of the number: each digit right of the point takes one from the power. -/
def decimal (literal : NumberLiteral) : Decimal :=
  ⟨literal.digits.value,
    literal.powerOfTen - (literal.fraction.getD .empty).chars.length⟩

def value (literal : NumberLiteral) : Binary64 :=
  .ofDecimal literal.sign.isNegative literal.decimal

def scanFraction : List Char → Option Digits × List Char
  | '.' :: rest => (some (Digits.scan rest).1, (Digits.scan rest).2)
  | source => (none, source)

def scan (source : List Char) : Option (NumberLiteral × List Char) :=
  let signed := Sign.scan source
  let whole := Digits.scan signed.2
  let fraction := scanFraction whole.2
  if h : whole.1.chars ++ (fraction.1.getD .empty).chars ≠ [] then
    let power := PowerLiteral.scan fraction.2
    some (⟨signed.1, whole.1, fraction.1, power.1, h⟩, power.2)
  else none

theorem scanFraction_append (source : List Char) :
    fractionChars (scanFraction source).1 ++ (scanFraction source).2 = source := by
  unfold scanFraction
  split
  · simp only [fractionChars, List.cons_append, Digits.scan_append]
  · rfl

theorem scanPower_append (source : List Char) :
    powerChars (PowerLiteral.scan source).1 ++ (PowerLiteral.scan source).2 = source := by
  unfold PowerLiteral.scan
  split
  · rfl
  · split
    · rename_i char rest hmark
      split
      · rename_i power after hscan
        have happend := IntegerLiteral.scan_append hscan
        rcases hmark with rfl | rfl <;>
          simp [powerChars, PowerLiteral.chars, PowerLiteral.mark, happend]
      · rfl
    · rfl

theorem scan_append {source rest : List Char} {literal : NumberLiteral}
    (h : scan source = some (literal, rest)) : literal.chars ++ rest = source := by
  simp only [scan, Option.dite_none_right_eq_some, Option.some.injEq, Prod.mk.injEq] at h
  obtain ⟨_, rfl, rfl⟩ := h
  simp only [chars, List.append_assoc]
  rw [scanPower_append, scanFraction_append, Digits.scan_append, Sign.scan_append]

end NumberLiteral

/-- Reads a text that is a number as a whole, in any of the forms in which numbers are written. -/
def Binary64.ofText? (text : List Char) : Option Binary64 :=
  if text = ['N', 'a', 'N'] then some nan
  else if text = ['i', 'n', 'f'] then some (infinite false)
  else if text = ['-', 'i', 'n', 'f'] then some (infinite true)
  else
    match NumberLiteral.scan text with
    | some (literal, []) => some literal.value
    | _ => none

end Lindenmayer
