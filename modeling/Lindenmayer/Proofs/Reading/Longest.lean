import Lindenmayer.Proofs.Reading.Literal

namespace Lindenmayer

/-- No literal at the front of the text is longer. -/
structure IsLongest {α : Type} (chars : α → List Char) (literal : α) (source : List Char) :
    Prop where
  front : chars literal <+: source
  length_le : ∀ other, chars other <+: source → (chars other).length ≤ (chars literal).length

theorem IsLongest.chars_eq {α : Type} {chars : α → List Char} {left right : α}
    {source : List Char} (hleft : IsLongest chars left source)
    (hright : IsLongest chars right source) : chars left = chars right := by
  have hlength := Nat.le_antisymm (hright.length_le left hleft.front)
    (hleft.length_le right hright.front)
  exact (List.prefix_of_prefix_length_le hleft.front hright.front hlength.le).eq_of_length hlength

theorem isLongest_of_reaches {α : Type} {chars : α → List Char}
    {scan : List Char → Option (α × List Char)}
    (happend : ∀ {source rest literal}, scan source = some (literal, rest) →
      chars literal ++ rest = source)
    (hreaches : ∀ other rest, ∃ literal after,
      scan (chars other ++ rest) = some (literal, after) ∧ after.length ≤ rest.length)
    {source rest : List Char} {literal : α} (h : scan source = some (literal, rest)) :
    IsLongest chars literal source := by
  refine ⟨⟨rest, happend h⟩, ?_⟩
  rintro other ⟨otherRest, hother⟩
  obtain ⟨found, after, hscan, hle⟩ := hreaches other otherRest
  rw [hother, h] at hscan
  obtain ⟨rfl, rfl⟩ := Prod.mk.inj (Option.some.inj hscan)
  have hlength := congrArg List.length ((happend h).trans hother.symm)
  rw [List.length_append, List.length_append] at hlength
  omega

theorem eq_none_iff_of_reaches {α : Type} {chars : α → List Char}
    {scan : List Char → Option (α × List Char)}
    (happend : ∀ {source rest literal}, scan source = some (literal, rest) →
      chars literal ++ rest = source)
    (hreaches : ∀ other rest, ∃ literal after,
      scan (chars other ++ rest) = some (literal, after) ∧ after.length ≤ rest.length)
    {source : List Char} : scan source = none ↔ ∀ literal, ¬chars literal <+: source := by
  constructor
  · rintro hnone literal ⟨rest, rfl⟩
    obtain ⟨found, after, hscan, _⟩ := hreaches literal rest
    rw [hnone] at hscan
    contradiction
  · intro h
    cases hscan : scan source with
    | none => rfl
    | some found => exact absurd ⟨found.2, happend hscan⟩ (h found.1)

theorem exists_scan_of_reaches {α : Type} {chars : α → List Char}
    {scan : List Char → Option (α × List Char)}
    (happend : ∀ {source rest literal}, scan source = some (literal, rest) →
      chars literal ++ rest = source)
    (hreaches : ∀ other rest, ∃ literal after,
      scan (chars other ++ rest) = some (literal, after) ∧ after.length ≤ rest.length)
    (hinjective : ∀ {left right}, chars left = chars right → left = right)
    {source : List Char} {literal : α} (h : IsLongest chars literal source) :
    ∃ rest, scan source = some (literal, rest) := by
  cases hscan : scan source with
  | none => exact absurd h.front ((eq_none_iff_of_reaches happend hreaches).mp hscan literal)
  | some found =>
      obtain ⟨other, rest⟩ := found
      rw [hinjective (h.chars_eq (isLongest_of_reaches happend hreaches hscan))]
      exact ⟨rest, rfl⟩

theorem Digits.scan_chars_append (digits : Digits) (rest : List Char) :
    scan (digits.chars ++ rest) = (digits ++ (scan rest).1, (scan rest).2) := by
  apply Prod.ext
  · apply ext
    rw [chars_scan, List.takeWhile_append_of_pos digits.isDigit, chars_append, chars_scan]
  · rw [rest_scan, List.dropWhile_append_of_pos digits.isDigit, rest_scan]

theorem Digits.length_rest_scan_le (source : List Char) : (scan source).2.length ≤ source.length :=
  (List.dropWhile_suffix _).length_le

namespace IntegerLiteral

theorem scan_reaches (literal : IntegerLiteral) (rest : List Char) :
    ∃ found after, scan (literal.chars ++ rest) = some (found, after) ∧
      after.length ≤ rest.length := by
  have hsign := literal.sign.scan_chars
    (fun _ hhead => @Digits.head_ne_sign _ rest literal.hasDigits _ hhead)
  have hdigits : (literal.digits ++ (Digits.scan rest).1).chars ≠ [] := by
    rw [Digits.chars_append]
    exact List.append_ne_nil_of_left_ne_nil literal.hasDigits _
  refine ⟨⟨literal.sign, _, hdigits⟩, (Digits.scan rest).2, ?_, Digits.length_rest_scan_le rest⟩
  simp only [scan, chars, List.append_assoc, hsign, literal.digits.scan_chars_append]
  rw [dif_pos hdigits]

theorem isLongest {source rest : List Char} {literal : IntegerLiteral}
    (h : scan source = some (literal, rest)) : IsLongest chars literal source :=
  isLongest_of_reaches scan_append scan_reaches h

theorem scan_eq_none_iff {source : List Char} :
    scan source = none ↔ ∀ literal : IntegerLiteral, ¬literal.chars <+: source :=
  eq_none_iff_of_reaches scan_append scan_reaches

end IntegerLiteral

namespace NumberLiteral

theorem length_rest_scanPower_le (source : List Char) :
    (PowerLiteral.scan source).2.length ≤ source.length := by
  have happend := congrArg List.length (scanPower_append source)
  rw [List.length_append] at happend
  omega

theorem length_rest_scanFraction_le (source : List Char) :
    (scanFraction source).2.length ≤ source.length := by
  have happend := congrArg List.length (scanFraction_append source)
  rw [List.length_append] at happend
  omega

theorem scanPower_reaches (power : Option PowerLiteral) (rest : List Char) :
    (PowerLiteral.scan (powerChars power ++ rest)).2.length ≤ rest.length := by
  cases power with
  | none => exact length_rest_scanPower_le rest
  | some literal =>
      obtain ⟨capital, power⟩ := literal
      obtain ⟨found, after, hscan, hle⟩ := power.scan_reaches rest
      cases capital <;>
        simpa [powerChars, PowerLiteral.chars, PowerLiteral.mark, PowerLiteral.scan, hscan]
          using hle

theorem scan_powerChars (literal : PowerLiteral) (rest : List Char) :
    Digits.scan (powerChars (some literal) ++ rest) =
      (.empty, powerChars (some literal) ++ rest) := by
  have hstart : StartsNoDigit (powerChars (some literal) ++ rest) := by
    intro char hhead
    obtain rfl : PowerLiteral.mark literal.capital = char := by
      simpa [powerChars, PowerLiteral.chars] using hhead
    cases literal.capital <;> rfl
  exact Digits.empty.scan_chars hstart

theorem scanFraction_powerChars (literal : PowerLiteral) (rest : List Char) :
    scanFraction (powerChars (some literal) ++ rest) =
      (none, powerChars (some literal) ++ rest) := by
  obtain ⟨capital, power⟩ := literal
  cases capital <;> rfl

theorem scan_of_parts {source signed pointed powered rest : List Char} {sign : Sign}
    {whole : Digits} {fraction : Option Digits} {power : Option PowerLiteral}
    (hsign : Sign.scan source = (sign, signed)) (hwhole : Digits.scan signed = (whole, pointed))
    (hfraction : scanFraction pointed = (fraction, powered))
    (hpower : PowerLiteral.scan powered = (power, rest))
    (hdigits : whole.chars ++ (fraction.getD .empty).chars ≠ []) :
    scan source = some (⟨sign, whole, fraction, power, hdigits⟩, rest) := by
  simp only [scan, hsign, hwhole, hfraction, hpower]
  rw [dif_pos hdigits]

theorem scan_point (digits : Digits) (rest : List Char) :
    Digits.scan (fractionChars (some digits) ++ rest) =
      (.empty, fractionChars (some digits) ++ rest) := by
  refine Digits.empty.scan_chars fun char hhead => ?_
  obtain rfl : '.' = char := by simpa [fractionChars] using hhead
  rfl

theorem scan_digits_reaches (digits : Digits) (power : Option PowerLiteral) (rest : List Char) :
    ∃ more after, Digits.scan (digits.chars ++ (powerChars power ++ rest)) =
      (digits ++ more, after) ∧ (PowerLiteral.scan after).2.length ≤ rest.length ∧
        (PowerLiteral.scan (scanFraction after).2).2.length ≤ rest.length := by
  refine ⟨_, _, digits.scan_chars_append _, ?_⟩
  cases power with
  | none =>
      have hle := Digits.length_rest_scan_le rest
      exact ⟨Nat.le_trans (length_rest_scanPower_le _) hle, Nat.le_trans
        (length_rest_scanPower_le _) (Nat.le_trans (length_rest_scanFraction_le _) hle)⟩
  | some literal =>
      have hle := scanPower_reaches (some literal) rest
      rw [scan_powerChars, scanFraction_powerChars]
      exact ⟨hle, hle⟩

theorem scan_reaches (literal : NumberLiteral) (rest : List Char) :
    ∃ found after, scan (literal.chars ++ rest) = some (found, after) ∧
      after.length ≤ rest.length := by
  obtain ⟨sign, whole, fraction, power, hasDigits⟩ := literal
  have hsign := sign.scan_chars (fun _ hhead =>
    @head_ne_sign ⟨sign, whole, fraction, power, hasDigits⟩ (powerChars power ++ rest) _ hhead)
  simp only [chars, List.append_assoc]
  cases fraction with
  | none =>
      obtain ⟨more, after, hwhole, _, hle⟩ := scan_digits_reaches whole power rest
      have hdigits : (whole ++ more).chars ++ ((scanFraction after).1.getD .empty).chars ≠ [] := by
        have hne : whole.chars ≠ [] := by simpa using hasDigits
        rw [Digits.chars_append, List.append_assoc]
        exact List.append_ne_nil_of_left_ne_nil hne _
      exact ⟨_, _, scan_of_parts hsign hwhole rfl rfl hdigits, hle⟩
  | some digits =>
      obtain ⟨more, after, hfraction, hle, _⟩ := scan_digits_reaches digits power rest
      have hpointed : scanFraction (fractionChars (some digits) ++ (powerChars power ++ rest)) =
          (some (digits ++ more), after) := by
        simp only [fractionChars, List.cons_append, scanFraction, hfraction]
      have hwhole := whole.scan_chars_append (fractionChars (some digits) ++ (powerChars power ++ rest))
      rw [scan_point] at hwhole
      have hdigits : (whole ++ Digits.empty).chars ++ (digits ++ more).chars ≠ [] := by
        intro hnil
        apply hasDigits
        simp only [Digits.chars_append, List.append_eq_nil_iff] at hnil
        simp [hnil.1.1, hnil.2.1]
      exact ⟨_, _, scan_of_parts hsign hwhole hpointed rfl hdigits, hle⟩

theorem isLongest {source rest : List Char} {literal : NumberLiteral}
    (h : scan source = some (literal, rest)) : IsLongest chars literal source :=
  isLongest_of_reaches scan_append scan_reaches h

theorem scan_eq_none_iff {source : List Char} :
    scan source = none ↔ ∀ literal : NumberLiteral, ¬literal.chars <+: source :=
  eq_none_iff_of_reaches scan_append scan_reaches

end NumberLiteral

end Lindenmayer
