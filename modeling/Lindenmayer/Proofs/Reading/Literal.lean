import Lindenmayer.Literal.Number
import Mathlib.Data.List.TakeWhile

namespace Lindenmayer

def StartsNoDigit (rest : List Char) : Prop :=
  ∀ char, rest.head? = some char → char.isDigit = false

/-- Nothing stands at the front that could belong to a number before it. -/
def StartsNoNumber (rest : List Char) : Prop :=
  ∀ char, rest.head? = some char →
    char.isDigit = false ∧ char ≠ '.' ∧ char ≠ 'e' ∧ char ≠ 'E'

theorem StartsNoNumber.startsNoDigit {rest : List Char} (h : StartsNoNumber rest) :
    StartsNoDigit rest :=
  fun char hhead => (h char hhead).1

namespace Digits

theorem ext {left right : Digits} (h : left.chars = right.chars) : left = right := by
  cases left
  cases right
  cases h
  rfl

theorem takeWhile_of_startsNoDigit {rest : List Char} (h : StartsNoDigit rest) :
    rest.takeWhile Char.isDigit = [] := by
  cases rest with
  | nil => rfl
  | cons char rest => simp [h char rfl]

theorem dropWhile_of_startsNoDigit {rest : List Char} (h : StartsNoDigit rest) :
    rest.dropWhile Char.isDigit = rest := by
  cases rest with
  | nil => rfl
  | cons char rest => simp [h char rfl]

theorem scan_chars (digits : Digits) {rest : List Char} (h : StartsNoDigit rest) :
    scan (digits.chars ++ rest) = (digits, rest) := by
  apply Prod.ext
  · apply ext
    rw [chars_scan, List.takeWhile_append_of_pos digits.isDigit, takeWhile_of_startsNoDigit h,
      List.append_nil]
  · rw [rest_scan, List.dropWhile_append_of_pos digits.isDigit, dropWhile_of_startsNoDigit h]

theorem head_ne_sign {digits : Digits} {rest : List Char} (h : digits.chars ≠ []) {char : Char}
    (hhead : (digits.chars ++ rest).head? = some char) : char ≠ '+' ∧ char ≠ '-' := by
  cases hchars : digits.chars with
  | nil => exact absurd hchars h
  | cons first others =>
      have hdigit := digits.isDigit first (by simp [hchars])
      rw [hchars] at hhead
      obtain rfl : first = char := by simpa using hhead
      constructor
      · rintro rfl
        simp at hdigit
      · rintro rfl
        simp at hdigit

end Digits

theorem Sign.scan_chars (sign : Sign) {rest : List Char}
    (h : ∀ char, rest.head? = some char → char ≠ '+' ∧ char ≠ '-') :
    scan (sign.chars ++ rest) = (sign, rest) := by
  cases sign with
  | plus => rfl
  | minus => rfl
  | absent =>
      rw [chars_absent, List.nil_append]
      unfold scan
      split
      · exact absurd rfl (h '+' rfl).1
      · exact absurd rfl (h '-' rfl).2
      · rfl

theorem IntegerLiteral.scan_chars (literal : IntegerLiteral) {rest : List Char}
    (h : StartsNoDigit rest) : scan (literal.chars ++ rest) = some (literal, rest) := by
  have hsign := literal.sign.scan_chars
    (fun _ hhead => @Digits.head_ne_sign _ rest literal.hasDigits _ hhead)
  simp only [scan, chars, List.append_assoc, hsign, literal.digits.scan_chars h]
  rw [dif_pos literal.hasDigits]

namespace NumberLiteral

theorem scanPower_chars (power : Option PowerLiteral) {rest : List Char}
    (h : StartsNoNumber rest) : PowerLiteral.scan (powerChars power ++ rest) = (power, rest) := by
  cases power with
  | none =>
      cases rest with
      | nil => rfl
      | cons char rest =>
          have hchar := h char rfl
          simp [powerChars, PowerLiteral.scan, hchar.2.2.1, hchar.2.2.2]
  | some literal =>
      obtain ⟨capital, power⟩ := literal
      have hscan := power.scan_chars h.startsNoDigit
      cases capital <;>
        simp [powerChars, PowerLiteral.chars, PowerLiteral.mark, PowerLiteral.scan, hscan]

theorem startsNoDigit_power (power : Option PowerLiteral) {rest : List Char}
    (h : StartsNoNumber rest) : StartsNoDigit (powerChars power ++ rest) := by
  cases power with
  | none => exact h.startsNoDigit
  | some literal =>
      intro char hhead
      obtain rfl : PowerLiteral.mark literal.capital = char := by
        simpa [powerChars, PowerLiteral.chars] using hhead
      cases literal.capital <;> rfl

theorem scanFraction_chars (fraction : Option Digits) (power : Option PowerLiteral)
    {rest : List Char} (h : StartsNoNumber rest) :
    scanFraction (fractionChars fraction ++ (powerChars power ++ rest)) =
      (fraction, powerChars power ++ rest) := by
  cases fraction with
  | some digits =>
      have hscan := digits.scan_chars (startsNoDigit_power power h)
      simp only [fractionChars, List.cons_append, scanFraction, hscan]
  | none =>
      rw [fractionChars, List.nil_append]
      unfold scanFraction
      split
      · rename_i heq
        cases power with
        | none => exact absurd rfl (h '.' (by rw [← List.nil_append rest]; exact heq ▸ rfl)).2.1
        | some literal =>
            have hmark : PowerLiteral.mark literal.capital = '.' := (List.cons.inj heq).1
            cases hcapital : literal.capital <;> simp [hcapital, PowerLiteral.mark] at hmark
      · rfl

theorem startsNoDigit_fraction (fraction : Option Digits) (power : Option PowerLiteral)
    {rest : List Char} (h : StartsNoNumber rest) :
    StartsNoDigit (fractionChars fraction ++ (powerChars power ++ rest)) := by
  cases fraction with
  | none => exact startsNoDigit_power power h
  | some digits =>
      intro char hhead
      obtain rfl : '.' = char := by simpa [fractionChars] using hhead
      rfl

theorem head_ne_sign (literal : NumberLiteral) {rest : List Char} {char : Char}
    (hhead : (literal.whole.chars ++ (fractionChars literal.fraction ++ rest)).head? = some char) :
    char ≠ '+' ∧ char ≠ '-' := by
  by_cases hwhole : literal.whole.chars = []
  · cases hfraction : literal.fraction with
    | none => exact absurd (by simp [hwhole, hfraction]) literal.hasDigits
    | some digits =>
        obtain rfl : '.' = char := by simpa [hwhole, hfraction, fractionChars] using hhead
        decide
  · exact Digits.head_ne_sign hwhole hhead

theorem scan_chars (literal : NumberLiteral) {rest : List Char} (h : StartsNoNumber rest) :
    scan (literal.chars ++ rest) = some (literal, rest) := by
  have hsign := literal.sign.scan_chars (fun _ hhead =>
    @head_ne_sign literal (powerChars literal.power ++ rest) _ hhead)
  have hwhole := literal.whole.scan_chars
    (startsNoDigit_fraction literal.fraction literal.power h)
  have hfraction := scanFraction_chars literal.fraction literal.power h
  have hpower := scanPower_chars literal.power h
  simp only [scan, chars, List.append_assoc, hsign, hwhole, hfraction, hpower]
  rw [dif_pos literal.hasDigits]

end NumberLiteral

end Lindenmayer
