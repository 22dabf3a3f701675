import Lindenmayer.Proofs.Reading.Tokens

namespace Lindenmayer

namespace Floating

inductive IsSign : List Char → Prop
  | absent : IsSign []
  | plus : IsSign ['+']
  | minus : IsSign ['-']

def IsDigits (chars : List Char) : Prop :=
  ∀ char ∈ chars, char.isDigit = true

/-- Digits with at most one point, on one side of which there is a digit. -/
inductive IsMantissa : List Char → Prop
  | whole {digits : List Char} (h : IsDigits digits) (hne : digits ≠ []) : IsMantissa digits
  | pointed {whole fraction : List Char} (hwhole : IsDigits whole) (hne : whole ≠ [])
      (hfraction : IsDigits fraction) : IsMantissa (whole ++ '.' :: fraction)
  | fraction {whole fraction : List Char} (hwhole : IsDigits whole) (hfraction : IsDigits fraction)
      (hne : fraction ≠ []) : IsMantissa (whole ++ '.' :: fraction)

inductive IsExponent : List Char → Prop
  | absent : IsExponent []
  | present {mark : Char} {sign digits : List Char} (hmark : mark = 'e' ∨ mark = 'E')
      (hsign : IsSign sign) (h : IsDigits digits) (hne : digits ≠ []) :
      IsExponent (mark :: (sign ++ digits))

/-- The words for what is no finite number, in letters of any size. -/
def IsWord (chars : List Char) : Prop :=
  chars.map Char.toLower ∈ ["inf".toList, "infinity".toList, "nan".toList]

end Floating

open Floating

inductive IsFloating : List Char → Prop
  | word {sign word : List Char} (hsign : IsSign sign) (hword : IsWord word) :
      IsFloating (sign ++ word)
  | number {sign mantissa exponent : List Char} (hsign : IsSign sign)
      (hmantissa : IsMantissa mantissa) (hexponent : IsExponent exponent) :
      IsFloating (sign ++ mantissa ++ exponent)

theorem Sign.isSign (sign : Sign) : IsSign sign.chars := by
  cases sign with
  | absent => exact .absent
  | plus => exact .plus
  | minus => exact .minus

theorem PowerLiteral.isExponent (literal : PowerLiteral) : IsExponent literal.chars := by
  obtain ⟨capital, sign, digits, hdigits⟩ := literal
  refine .present ?_ sign.isSign digits.isDigit hdigits
  cases capital with
  | false => exact .inl rfl
  | true => exact .inr rfl

namespace NumberLiteral

theorem isMantissa (literal : NumberLiteral) :
    IsMantissa (literal.whole.chars ++ fractionChars literal.fraction) := by
  obtain ⟨sign, whole, fraction, power, hasDigits⟩ := literal
  cases fraction with
  | none =>
      rw [fractionChars, List.append_nil]
      refine .whole whole.isDigit ?_
      simpa using hasDigits
  | some digits =>
      by_cases hwhole : whole.chars = []
      · refine .fraction whole.isDigit digits.isDigit ?_
        simpa [hwhole] using hasDigits
      · exact .pointed whole.isDigit hwhole digits.isDigit

theorem isFloating (literal : NumberLiteral) : IsFloating literal.chars := by
  rw [chars, List.append_assoc literal.sign.chars]
  refine .number literal.sign.isSign literal.isMantissa ?_
  cases literal.power with
  | none => exact .absent
  | some power => exact power.isExponent

theorem ofText?_chars (literal : NumberLiteral) :
    Binary64.ofText? literal.chars = some literal.value := by
  have hscan : scan (literal.chars ++ []) = some (literal, []) :=
    literal.scan_chars (by simp [StartsNoNumber])
  rw [List.append_nil] at hscan
  have hword : ∀ word, scan word = none → literal.chars ≠ word := by
    rintro word hnone rfl
    rw [hnone] at hscan
    contradiction
  rw [Binary64.ofText?, if_neg (hword _ rfl), if_neg (hword _ rfl), if_neg (hword _ rfl), hscan]

end NumberLiteral

namespace Scanner

theorem floating_of_run {element : Element} {cursor after : Cursor}
    {outcome : Except SyntaxError Binary64} (h : (number element).run cursor = (outcome, after))
    (hmoved : after ≠ cursor) :
    IsFloating (after.since cursor) ∧
      ∃ value, Binary64.ofText? (after.since cursor) = some value ∧
        outcome = if value.isFinite then .ok value
          else .error (cursor.outOfRange element (after.since cursor)) := by
  cases hscan : NumberLiteral.scan cursor.rest with
  | none =>
      rw [run_number_of_none hscan] at h
      exact absurd (Prod.mk.inj h).2.symm hmoved
  | some found =>
      obtain ⟨literal, rest⟩ := found
      have happend := NumberLiteral.scan_append hscan
      have hsince : (cursor.drop literal.chars.length).since cursor = literal.chars := by
        rw [Cursor.since_drop (by simp [← happend]), ← happend, List.take_left]
      obtain ⟨rfl, rfl⟩ := Prod.mk.inj ((run_number_of_scan hscan element).symm.trans h)
      rw [hsince]
      exact ⟨literal.isFloating, _, literal.ofText?_chars, rfl⟩

end Scanner

end Lindenmayer
