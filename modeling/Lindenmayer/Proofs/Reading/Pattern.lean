import Mathlib.Computability.RegularExpressions
import Mathlib.Data.List.Infix
import Mathlib.Tactic.IntervalCases
import Lindenmayer.Proofs.Reading.Longest
import Lindenmayer.Proofs.Reading.Tokens

namespace Lindenmayer

abbrev Pattern := RegularExpression Char

namespace Pattern

def oneOf (chars : List Char) : Pattern :=
  (chars.map RegularExpression.char).sum

def optional (pattern : Pattern) : Pattern :=
  1 + pattern

def sign : Pattern :=
  optional (oneOf ['+', '-'])

def digit : Pattern :=
  oneOf ['0', '1', '2', '3', '4', '5', '6', '7', '8', '9']

/-- One digit or more. -/
def digits : Pattern :=
  digit * digit.star

/-- Digits that a point may follow, alone or with more digits, or a point in front of digits. -/
def mantissa : Pattern :=
  digits * optional (oneOf ['.'] * digit.star) + oneOf ['.'] * digits

def power : Pattern :=
  oneOf ['e', 'E'] * (sign * digits)

def number : Pattern :=
  sign * (mantissa * optional power)

theorem mem_oneOf_iff {chars text : List Char} :
    text ∈ (oneOf chars).matches' ↔ ∃ char ∈ chars, [char] = text := by
  induction chars with
  | nil => simp [oneOf, RegularExpression.matches'_zero]
  | cons first others ih =>
      have hsum : oneOf (first :: others) = .char first + oneOf others := rfl
      rw [hsum, RegularExpression.matches'_add, Language.mem_add, ih, List.exists_mem_cons_iff]
      exact or_congr_left eq_comm

theorem mem_optional_iff {pattern : Pattern} {text : List Char} :
    text ∈ (optional pattern).matches' ↔ text = [] ∨ text ∈ pattern.matches' := by
  rw [optional, RegularExpression.matches'_add, Language.mem_add,
    RegularExpression.matches'_epsilon, Language.mem_one]

theorem mem_mul_iff {left right : Pattern} {text : List Char} :
    text ∈ (left * right).matches' ↔
      ∃ front ∈ left.matches', ∃ back ∈ right.matches', front ++ back = text := by
  rw [RegularExpression.matches'_mul, Language.mem_mul]

theorem mem_sign_iff {text : List Char} :
    text ∈ sign.matches' ↔ ∃ sign : Sign, sign.chars = text := by
  rw [sign, mem_optional_iff, mem_oneOf_iff]
  constructor
  · rintro (rfl | ⟨char, hchar, rfl⟩)
    · exact ⟨.absent, rfl⟩
    · rcases List.mem_pair.mp hchar with rfl | rfl
      · exact ⟨.plus, rfl⟩
      · exact ⟨.minus, rfl⟩
  · rintro ⟨sign, rfl⟩
    cases sign with
    | absent => exact .inl rfl
    | plus => exact .inr ⟨'+', by decide, rfl⟩
    | minus => exact .inr ⟨'-', by decide, rfl⟩

theorem mem_decimalDigits_iff {char : Char} :
    char ∈ ['0', '1', '2', '3', '4', '5', '6', '7', '8', '9'] ↔ char.isDigit = true := by
  constructor
  · have hdigits : ['0', '1', '2', '3', '4', '5', '6', '7', '8', '9'].all Char.isDigit = true := rfl
    exact List.all_eq_true.mp hdigits char
  · intro h
    obtain ⟨hlow, hhigh⟩ := Char.isDigit_iff_toNat.mp h
    change 48 ≤ char.toNat at hlow
    change char.toNat ≤ 57 at hhigh
    rw [← Char.ofNat_toNat char]
    generalize char.toNat = code at hlow hhigh
    interval_cases code <;> decide

theorem mem_star_digit_iff {text : List Char} :
    text ∈ digit.star.matches' ↔ ∃ digits : Digits, digits.chars = text := by
  rw [RegularExpression.matches'_star, Language.mem_kstar]
  constructor
  · rintro ⟨pieces, rfl, hpieces⟩
    refine ⟨⟨pieces.flatten, fun char hmem => ?_⟩, rfl⟩
    obtain ⟨piece, hpiece, hchar⟩ := List.mem_flatten.mp hmem
    obtain ⟨only, hdigit, rfl⟩ := mem_oneOf_iff.mp (hpieces piece hpiece)
    rw [List.mem_singleton.mp hchar]
    exact mem_decimalDigits_iff.mp hdigit
  · rintro ⟨digits, rfl⟩
    refine ⟨digits.chars.map fun char => [char], ?_, fun piece hpiece => ?_⟩
    · rw [← List.flatMap_def, List.flatMap_singleton']
    · obtain ⟨char, hchar, rfl⟩ := List.mem_map.mp hpiece
      exact mem_oneOf_iff.mpr ⟨char, mem_decimalDigits_iff.mpr (digits.isDigit char hchar), rfl⟩

theorem mem_digits_iff {text : List Char} :
    text ∈ digits.matches' ↔ ∃ digits : Digits, digits.chars ≠ [] ∧ digits.chars = text := by
  rw [digits, mem_mul_iff]
  constructor
  · rintro ⟨front, hfront, back, hback, rfl⟩
    obtain ⟨first, hfirst, rfl⟩ := mem_oneOf_iff.mp hfront
    obtain ⟨others, rfl⟩ := mem_star_digit_iff.mp hback
    have hdigits : ∀ char ∈ first :: others.chars, char.isDigit = true :=
      List.forall_mem_cons.mpr ⟨mem_decimalDigits_iff.mp hfirst, others.isDigit⟩
    exact ⟨⟨first :: others.chars, hdigits⟩, List.cons_ne_nil _ _, rfl⟩
  · rintro ⟨⟨chars, hdigits⟩, hne, rfl⟩
    obtain ⟨first, others, rfl⟩ := List.exists_cons_of_ne_nil hne
    obtain ⟨hfirst, hothers⟩ := List.forall_mem_cons.mp hdigits
    exact ⟨[first], mem_oneOf_iff.mpr ⟨first, mem_decimalDigits_iff.mpr hfirst, rfl⟩, others,
      mem_star_digit_iff.mpr ⟨⟨others, hothers⟩, rfl⟩, rfl⟩

theorem mem_point_mul_iff {pattern : Pattern} {text : List Char} :
    text ∈ (oneOf ['.'] * pattern).matches' ↔ ∃ back ∈ pattern.matches', '.' :: back = text := by
  rw [mem_mul_iff]
  constructor
  · rintro ⟨front, hfront, back, hback, rfl⟩
    obtain ⟨char, hchar, rfl⟩ := mem_oneOf_iff.mp hfront
    rw [List.mem_singleton.mp hchar]
    exact ⟨back, hback, rfl⟩
  · rintro ⟨back, hback, rfl⟩
    exact ⟨['.'], mem_oneOf_iff.mpr ⟨'.', List.mem_singleton_self _, rfl⟩, back, hback, rfl⟩

theorem mem_mantissa_iff {text : List Char} :
    text ∈ mantissa.matches' ↔ ∃ (whole : Digits) (fraction : Option Digits),
      whole.chars ++ (fraction.getD .empty).chars ≠ [] ∧
        whole.chars ++ NumberLiteral.fractionChars fraction = text := by
  rw [mantissa, RegularExpression.matches'_add, Language.mem_add]
  constructor
  · rintro (h | h)
    · obtain ⟨front, hfront, back, hback, rfl⟩ := mem_mul_iff.mp h
      obtain ⟨whole, hwhole, rfl⟩ := mem_digits_iff.mp hfront
      have hdigits (fraction : Digits) := List.append_ne_nil_of_left_ne_nil hwhole fraction.chars
      rcases mem_optional_iff.mp hback with rfl | hpoint
      · exact ⟨whole, none, hdigits _, rfl⟩
      · obtain ⟨behind, hbehind, rfl⟩ := mem_point_mul_iff.mp hpoint
        obtain ⟨fraction, rfl⟩ := mem_star_digit_iff.mp hbehind
        exact ⟨whole, some fraction, hdigits _, rfl⟩
    · obtain ⟨behind, hbehind, rfl⟩ := mem_point_mul_iff.mp h
      obtain ⟨fraction, hfraction, rfl⟩ := mem_digits_iff.mp hbehind
      exact ⟨.empty, some fraction, hfraction, rfl⟩
  · rintro ⟨whole, fraction, hdigits, rfl⟩
    by_cases hwhole : whole.chars = []
    · cases fraction with
      | none => simp [hwhole] at hdigits
      | some fraction =>
          have hfraction : fraction.chars ≠ [] := by simpa [hwhole] using hdigits
          refine .inr (mem_point_mul_iff.mpr ⟨fraction.chars, ?_, ?_⟩)
          · exact mem_digits_iff.mpr ⟨fraction, hfraction, rfl⟩
          · rw [hwhole]
            rfl
    · refine .inl (mem_mul_iff.mpr ⟨_, mem_digits_iff.mpr ⟨whole, hwhole, rfl⟩, _, ?_, rfl⟩)
      cases fraction with
      | none => exact mem_optional_iff.mpr (.inl rfl)
      | some fraction =>
          exact mem_optional_iff.mpr (.inr (mem_point_mul_iff.mpr
            ⟨fraction.chars, mem_star_digit_iff.mpr ⟨fraction, rfl⟩, rfl⟩))

theorem mem_power_iff {text : List Char} :
    text ∈ power.matches' ↔ ∃ power : PowerLiteral, power.chars = text := by
  rw [power, mem_mul_iff]
  constructor
  · rintro ⟨front, hfront, back, hback, rfl⟩
    obtain ⟨mark, hmark, rfl⟩ := mem_oneOf_iff.mp hfront
    obtain ⟨signed, hsigned, behind, hbehind, rfl⟩ := mem_mul_iff.mp hback
    obtain ⟨sign, rfl⟩ := mem_sign_iff.mp hsigned
    obtain ⟨digits, hdigits, rfl⟩ := mem_digits_iff.mp hbehind
    rcases List.mem_pair.mp hmark with rfl | rfl
    · exact ⟨⟨false, sign, digits, hdigits⟩, rfl⟩
    · exact ⟨⟨true, sign, digits, hdigits⟩, rfl⟩
  · rintro ⟨⟨capital, sign, digits, hdigits⟩, rfl⟩
    refine ⟨[PowerLiteral.mark capital], ?_, sign.chars ++ digits.chars, ?_, rfl⟩
    · refine mem_oneOf_iff.mpr ⟨_, ?_, rfl⟩
      cases capital <;> decide
    · exact mem_mul_iff.mpr
        ⟨_, mem_sign_iff.mpr ⟨sign, rfl⟩, _, mem_digits_iff.mpr ⟨digits, hdigits, rfl⟩, rfl⟩

theorem mem_optional_power_iff {text : List Char} :
    text ∈ (optional power).matches' ↔
      ∃ power : Option PowerLiteral, NumberLiteral.powerChars power = text := by
  rw [mem_optional_iff, mem_power_iff, Option.exists]
  exact or_congr_left eq_comm

theorem mem_number_iff {text : List Char} :
    text ∈ number.matches' ↔ ∃ literal : NumberLiteral, literal.chars = text := by
  rw [number, mem_mul_iff]
  constructor
  · rintro ⟨signed, hsigned, behind, hbehind, rfl⟩
    obtain ⟨front, hfront, back, hback, rfl⟩ := mem_mul_iff.mp hbehind
    obtain ⟨sign, rfl⟩ := mem_sign_iff.mp hsigned
    obtain ⟨whole, fraction, hdigits, rfl⟩ := mem_mantissa_iff.mp hfront
    obtain ⟨power, rfl⟩ := mem_optional_power_iff.mp hback
    refine ⟨⟨sign, whole, fraction, power, hdigits⟩, ?_⟩
    simp only [NumberLiteral.chars, List.append_assoc]
  · rintro ⟨⟨sign, whole, fraction, power, hdigits⟩, rfl⟩
    refine ⟨_, mem_sign_iff.mpr ⟨sign, rfl⟩, _, mem_mul_iff.mpr ⟨_, mem_mantissa_iff.mpr
      ⟨whole, fraction, hdigits, rfl⟩, _, mem_optional_power_iff.mpr ⟨power, rfl⟩, rfl⟩, ?_⟩
    simp only [NumberLiteral.chars, List.append_assoc]

end Pattern

/-- The longest text of a pattern's language that another text begins with. -/
structure IsLongestMatch (pattern : Pattern) (chars source : List Char) : Prop where
  matched : chars ∈ pattern.matches'
  front : chars <+: source
  length_le : ∀ other ∈ pattern.matches', other <+: source → other.length ≤ chars.length

instance (pattern : Pattern) (chars source : List Char) :
    Decidable (IsLongestMatch pattern chars source) :=
  decidable_of_iff
    (chars ∈ pattern.matches' ∧ chars <+: source ∧
      ∀ other ∈ source.inits, other ∈ pattern.matches' → other.length ≤ chars.length)
    ⟨fun ⟨matched, front, length_le⟩ => ⟨matched, front, fun other hother hfront =>
        length_le other ((List.mem_inits _ _).mpr hfront) hother⟩,
      fun ⟨matched, front, length_le⟩ => ⟨matched, front, fun other hother hmatched =>
        length_le other hmatched ((List.mem_inits _ _).mp hother)⟩⟩

theorem IsLongestMatch.unique {pattern : Pattern} {chars other source : List Char}
    (h : IsLongestMatch pattern chars source) (hother : IsLongestMatch pattern other source) :
    chars = other := by
  have hlength : chars.length = other.length :=
    Nat.le_antisymm (hother.length_le chars h.matched h.front)
      (h.length_le other hother.matched hother.front)
  exact (List.prefix_of_prefix_length_le h.front hother.front hlength.le).eq_of_length hlength

namespace NumberLiteral

theorem isLongestMatch {source rest : List Char} {literal : NumberLiteral}
    (h : scan source = some (literal, rest)) :
    IsLongestMatch Pattern.number literal.chars source := by
  have hlongest := isLongest h
  refine ⟨Pattern.mem_number_iff.mpr ⟨literal, rfl⟩, hlongest.front, ?_⟩
  intro other hother hfront
  obtain ⟨otherLiteral, rfl⟩ := Pattern.mem_number_iff.mp hother
  exact hlongest.length_le otherLiteral hfront

theorem scan_eq_none_iff_pattern {source : List Char} :
    scan source = none ↔ ∀ chars ∈ Pattern.number.matches', ¬chars <+: source := by
  rw [scan_eq_none_iff]
  constructor
  · intro h chars hchars
    obtain ⟨literal, rfl⟩ := Pattern.mem_number_iff.mp hchars
    exact h literal
  · exact fun h literal => h _ (Pattern.mem_number_iff.mpr ⟨literal, rfl⟩)

theorem chars_injective {left right : NumberLiteral} (h : left.chars = right.chars) :
    left = right := by
  have hends : StartsNoNumber [] := nofun
  have hscan := left.scan_chars hends
  rw [h, right.scan_chars hends] at hscan
  exact (Prod.mk.inj (Option.some.inj hscan)).1.symm

/-- The number that a text spells, rounded; it may be beyond the finite ones. -/
inductive Spells : List Char → Binary64 → Prop
  | intro {value : Binary64} (literal : NumberLiteral)
      (rounds : Binary64.Rounds literal.sign.isNegative literal.decimal.size value) :
      Spells literal.chars value

theorem spells_iff {literal : NumberLiteral} {value : Binary64} :
    Spells literal.chars value ↔ value = literal.value := by
  constructor
  · intro h
    generalize hchars : literal.chars = chars at h
    cases h with
    | intro other rounds =>
        obtain rfl := chars_injective hchars
        exact Binary64.rounds_size_iff.mp rounds
  · rintro rfl
    exact .intro literal (Binary64.rounds_ofDecimal _ _)

end NumberLiteral

namespace Scanner

/-- Where no number stands a scan misses what it was to find and takes nothing. Otherwise it takes
the longest number that stands there, and gives its double if that is finite. -/
theorem number_of_longestMatch (element : Element) (cursor : Cursor) :
    ((∀ chars ∈ Pattern.number.matches', ¬chars <+: cursor.rest) →
      (number element).run cursor = (.error (cursor.expected element), cursor)) ∧
    ((∃ chars ∈ Pattern.number.matches', chars <+: cursor.rest) →
      ∃ chars, IsLongestMatch Pattern.number chars cursor.rest) ∧
    ∀ chars, IsLongestMatch Pattern.number chars cursor.rest →
      ∃ value, (∀ other, NumberLiteral.Spells chars other ↔ other = value) ∧
        (number element).run cursor =
          (if value.isFinite then .ok value
            else .error ⟨cursor.location, .outOfRange element (.ofList chars)⟩,
            cursor.drop chars.length) := by
  cases hscan : NumberLiteral.scan cursor.rest with
  | none =>
      have hnone := NumberLiteral.scan_eq_none_iff_pattern.mp hscan
      refine ⟨fun _ => run_number_of_none hscan element, ?_, ?_⟩
      · rintro ⟨chars, hchars, hfront⟩
        exact absurd hfront (hnone chars hchars)
      · exact fun chars h => absurd h.front (hnone chars h.matched)
  | some found =>
      obtain ⟨literal, rest⟩ := found
      have hlongest := NumberLiteral.isLongestMatch hscan
      refine ⟨fun h => absurd hlongest.front (h _ hlongest.matched), fun _ => ⟨_, hlongest⟩, ?_⟩
      intro chars h
      obtain rfl := h.unique hlongest
      exact ⟨literal.value, fun _ => NumberLiteral.spells_iff, run_number_of_scan hscan element⟩

/-- A mark of a power, with or without a sign behind it, is left alone where digits are missing. -/
theorem number_of_longestMatch_marks :
    (∀ chars ∈ Pattern.number.matches', ¬chars <+: "-.e5".toList) ∧
      (number .angle).run (.ofChars "-.e5".toList) =
        (.error ((Cursor.ofChars "-.e5".toList).expected .angle), .ofChars "-.e5".toList) ∧
      "1.".toList ∈ Pattern.number.matches' ∧ "1.".toList <+: "1.e+x".toList ∧
      (∃ chars, IsLongestMatch Pattern.number chars "1.e+x".toList) ∧
      IsLongestMatch Pattern.number "1.".toList "1.e+x".toList ∧
      NumberLiteral.Spells "1.".toList .one ∧
      (number .scale).run (.ofChars "1.e+x".toList) =
        (.ok .one, (Cursor.ofChars "1.e+x".toList).drop 2) := by
  have hnone : ∀ chars ∈ Pattern.number.matches', ¬chars <+: "-.e5".toList :=
    NumberLiteral.scan_eq_none_iff_pattern.mp rfl
  have hmatched : "1.".toList ∈ Pattern.number.matches' := by decide +kernel
  have hfront : "1.".toList <+: "1.e+x".toList := ⟨"e+x".toList, by decide⟩
  have hlongest : IsLongestMatch Pattern.number "1.".toList "1.e+x".toList := by decide +kernel
  obtain ⟨hmissing, _, _⟩ := number_of_longestMatch .angle (.ofChars "-.e5".toList)
  obtain ⟨_, hexists, hfound⟩ := number_of_longestMatch .scale (.ofChars "1.e+x".toList)
  obtain ⟨value, hvalue, hrun⟩ := hfound _ hlongest
  have hone : NumberLiteral.Spells "1.".toList .one := by
    let literal : NumberLiteral :=
      ⟨.absent, ⟨['1'], List.forall_mem_singleton.mpr rfl⟩, some .empty, none, nofun⟩
    have hvalue : .one = literal.value := by decide +kernel
    exact NumberLiteral.spells_iff.mpr hvalue
  obtain rfl := (hvalue .one).mp hone
  exact ⟨hnone, hmissing hnone, hmatched, hfront, hexists ⟨_, hmatched, hfront⟩, hlongest, hone,
    hrun⟩

end Scanner

end Lindenmayer
