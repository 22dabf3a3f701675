import Lindenmayer.Proofs.Arithmetic.Nearness
import Lindenmayer.Proofs.Reading.Lines
import Lindenmayer.Proofs.Reading.Pattern

namespace Lindenmayer

open Binary64 Grammar

theorem Digits.value_append (left right : Digits) :
    (left ++ right).value = left.value * 10 ^ right.chars.length + right.value := by
  rw [value, chars_append, Nat.ofDigitChars_append, Nat.ofDigitChars_eq_ofDigitChars_zero,
    Nat.mul_comm]
  rfl

namespace NumberLiteral

/-- What is written left of the point, and right of it in tenths and smaller parts, scaled. -/
def size (literal : NumberLiteral) : ℚ :=
  let fraction := literal.fraction.getD .empty
  (literal.whole.value + fraction.value / 10 ^ fraction.chars.length) * 10 ^ literal.powerOfTen

/-- The number that is written. -/
def exact (literal : NumberLiteral) : ℚ :=
  if literal.sign.isNegative then -literal.size else literal.size

theorem size_eq (literal : NumberLiteral) : literal.size = literal.decimal.size := by
  rw [size, decimal, Decimal.size, digits, Digits.value_append, zpow_sub₀ (by norm_num),
    zpow_natCast]
  push_cast
  field_simp

theorem size_nonneg (literal : NumberLiteral) : 0 ≤ literal.size :=
  literal.size_eq ▸ literal.decimal.size_nonneg

theorem abs_exact (literal : NumberLiteral) : |literal.exact| = literal.size := by
  rw [exact]
  split
  · rw [abs_neg, abs_of_nonneg literal.size_nonneg]
  · exact abs_of_nonneg literal.size_nonneg

theorem rounds_value (literal : NumberLiteral) :
    Rounds literal.sign.isNegative |literal.exact| literal.value := by
  rw [abs_exact, size_eq]
  exact rounds_ofDecimal _ _

theorem isProbability_value_iff (literal : NumberLiteral) :
    literal.value.IsProbability ↔
      1 / 2 ^ 1075 < literal.exact ∧ literal.exact ≤ 1 + 1 / 2 ^ 53 := by
  have hthreshold : (0 : ℚ) < 1 / 2 ^ (quantumExponent + 1) := by positivity
  have hnonneg := literal.size_nonneg
  rw [literal.rounds_value.isProbability_iff, abs_exact, exact]
  change _ ↔ 1 / 2 ^ (quantumExponent + 1) < _ ∧ _
  cases literal.sign.isNegative with
  | false => simp
  | true =>
      refine iff_of_false (by simp) (fun h => ?_)
      have hlow := h.1
      rw [if_pos rfl] at hlow
      linarith

theorem rounds_of_isProbability {literal : NumberLiteral} (h : literal.value.IsProbability) :
    Rounds false literal.exact literal.value := by
  have rounds := literal.rounds_value
  obtain ⟨hsign, _⟩ := rounds.isProbability_iff.mp h
  have hlow := (literal.isProbability_value_iff.mp h).1
  rwa [hsign, abs_of_nonneg (le_of_lt (lt_trans (by positivity) hlow))] at rounds

theorem value_eq_of_exact_eq {left right : NumberLiteral} (h : left.exact = right.exact)
    (hne : left.exact ≠ 0) : left.value = right.value := by
  have hleft := left.size_nonneg
  have hright := right.size_nonneg
  have hsign : left.sign.isNegative = right.sign.isNegative := by
    rw [exact] at hne
    rw [exact, exact] at h
    cases hl : left.sign.isNegative <;> cases hr : right.sign.isNegative <;>
      simp only [hl, hr, if_true, Bool.false_eq_true, if_false] at h hne ⊢ <;>
      exact absurd (by linarith) hne
  have rounds := left.rounds_value
  rw [h, abs_exact, size_eq, hsign] at rounds
  exact rounds_size_iff.mp rounds

theorem isLongest_chars (literal : NumberLiteral) : IsLongest chars literal literal.chars := by
  have hends : StartsNoNumber [] := nofun
  have hscan := literal.scan_chars hends
  rw [List.append_nil] at hscan
  exact isLongest hscan

theorem exists_scan_of_isLongest {literal : NumberLiteral} {source : List Char}
    (h : IsLongest chars literal source) : ∃ rest, scan source = some (literal, rest) :=
  exists_scan_of_reaches scan_append scan_reaches chars_injective h

end NumberLiteral

namespace Scanner

theorem run_number_of_isLongest {cursor : Cursor} {literal : NumberLiteral}
    (h : IsLongest NumberLiteral.chars literal cursor.rest) (element : Element) :
    (number element).run cursor =
      (if literal.value.isFinite then .ok literal.value
        else .error (cursor.outOfRange element literal.chars),
        cursor.drop literal.chars.length) := by
  obtain ⟨rest, hscan⟩ := NumberLiteral.exists_scan_of_isLongest h
  exact run_number_of_scan hscan element

/-- A number in parentheses, with layout on both sides of it. -/
structure IsGroup (literal : NumberLiteral) (cursor start : Cursor) (outer : List Char) : Prop where
  leadsTo : cursor.LeadsTo start
  opening : ∃ inner, cursor.rest = '(' :: inner ∧ Layout inner start.rest
  closing : ∃ behind, start.rest = literal.chars ++ behind ∧ Layout behind (')' :: outer)

theorem run_probability_of_isGroup {literal : NumberLiteral} {cursor start : Cursor}
    {outer : List Char} (h : IsGroup literal cursor start outer) :
    ∃ after : Cursor, after.rest = outer ∧
      probability.run cursor =
        if literal.value.isFinite then
          (if literal.value.IsProbability then .ok literal.value
            else .error (start.outOfRange .probability literal.value.text), after)
        else (.error (start.outOfRange .probability literal.chars),
          start.drop literal.chars.length) := by
  obtain ⟨leadsTo, ⟨inner, hcursor, opening⟩, behind, hstart, closing⟩ := h
  have hskip : cursor.next.skip = start := by
    have hnext : cursor.next.rest = inner := by rw [Cursor.rest_next, hcursor, List.tail_cons]
    refine ((cursor.leadsTo_next).trans cursor.next.leadsTo_skip).eq_of_rest_eq leadsTo ?_
    refine Cursor.rest_skip_eq (hnext ▸ opening) ?_
    rw [hstart]
    exact (startsToken_number literal behind).isStuck
  have hscan : NumberLiteral.scan start.rest = some (literal, behind) := by
    rw [hstart]
    exact literal.scan_chars (startsNoNumber_of_layout closing)
  have hbehind : (start.drop literal.chars.length).skip.rest = ')' :: outer :=
    Cursor.rest_skip_eq ((rest_drop_append hstart).symm ▸ closing) (isStuck_cons.mpr (by decide))
  refine ⟨(start.drop literal.chars.length).skip.next, ?_, ?_⟩
  · rw [Cursor.rest_next, hbehind, List.tail_cons]
  · rw [run_probability_of_cons hcursor, hskip, run_number_of_scan hscan]
    cases hfinite : literal.value.isFinite with
    | false => simp
    | true => simp [Cursor.peek, hbehind]

theorem run_number_eq_error_iff {cursor : Cursor} {literal : NumberLiteral}
    (h : IsLongest NumberLiteral.chars literal cursor.rest) (element : Element) :
    ((number element).run cursor).1 = .error (cursor.outOfRange element literal.chars) ↔
      overflow ≤ |literal.exact| := by
  have hfinite := literal.rounds_value.isFinite_iff
  rw [run_number_of_isLongest h, ← not_lt, ← hfinite]
  cases literal.value.isFinite <;> simp

theorem exists_run_number_eq_ok {cursor : Cursor} {literal : NumberLiteral}
    (h : IsLongest NumberLiteral.chars literal cursor.rest) (element : Element)
    (hlt : |literal.exact| < overflow) :
    ∃ magnitude, ((number element).run cursor).1 =
        .ok (.finite literal.sign.isNegative magnitude) ∧
      Rounds literal.sign.isNegative |literal.exact|
        (.finite literal.sign.isNegative magnitude) := by
  have rounds := literal.rounds_value
  obtain ⟨magnitude, heq⟩ := rounds.exists_finite hlt
  rw [run_number_of_isLongest h, heq]
  exact ⟨magnitude, rfl, heq ▸ rounds⟩

theorem run_number_eq_ok_iff {cursor : Cursor} {literal : NumberLiteral}
    (h : IsLongest NumberLiteral.chars literal cursor.rest) (element : Element)
    (value : Binary64) :
    ((number element).run cursor).1 = .ok value ↔
      literal.value = value ∧ literal.value.isFinite = true := by
  rw [run_number_of_isLongest h]
  cases literal.value.isFinite <;> simp

theorem exists_run_probability_iff {literal : NumberLiteral} {cursor start : Cursor}
    {outer : List Char} (h : IsGroup literal cursor start outer) :
    (∃ value after, probability.run cursor = (.ok value, after)) ↔
      1 / 2 ^ 1075 < literal.exact ∧ literal.exact ≤ 1 + 1 / 2 ^ 53 := by
  obtain ⟨after, _, hrun⟩ := run_probability_of_isGroup h
  rw [← literal.isProbability_value_iff, hrun]
  by_cases hallowed : literal.value.IsProbability
  · rw [if_pos hallowed.isFinite, if_pos hallowed]
    exact iff_of_true ⟨_, _, rfl⟩ hallowed
  · rw [if_neg hallowed]
    cases literal.value.isFinite <;> simp [hallowed]

theorem rounds_of_run_probability {literal : NumberLiteral} {cursor start behind : Cursor}
    {outer : List Char} {value : Binary64} (h : IsGroup literal cursor start outer)
    (hrun : probability.run cursor = (.ok value, behind)) :
    Rounds false literal.exact value ∧ behind.rest = outer := by
  obtain ⟨after, hafter, hgroup⟩ := run_probability_of_isGroup h
  have hallowed := literal.isProbability_value_iff.mpr
    ((exists_run_probability_iff h).mp ⟨value, behind, hrun⟩)
  rw [hgroup, if_pos hallowed.isFinite, if_pos hallowed] at hrun
  obtain ⟨rfl, rfl⟩ : literal.value = value ∧ after = behind := by simpa using hrun
  exact ⟨NumberLiteral.rounds_of_isProbability hallowed, hafter⟩

theorem error_of_run_probability {literal : NumberLiteral} {cursor start behind : Cursor}
    {outer : List Char} {error : SyntaxError} (h : IsGroup literal cursor start outer)
    (hrun : probability.run cursor = (.error error, behind)) :
    (overflow ≤ |literal.exact| → error = start.outOfRange .probability literal.chars) ∧
      (|literal.exact| < overflow → error = start.outOfRange .probability literal.value.text) := by
  obtain ⟨after, _, hgroup⟩ := run_probability_of_isGroup h
  rw [hgroup] at hrun
  rw [← not_lt, ← literal.rounds_value.isFinite_iff]
  cases hfinite : literal.value.isFinite with
  | false =>
      rw [hfinite] at hrun
      obtain ⟨rfl, _⟩ : start.outOfRange .probability literal.chars = error ∧ _ := by
        simpa using hrun
      exact ⟨fun _ => rfl, by simp⟩
  | true =>
      rw [hfinite, if_pos rfl] at hrun
      split at hrun
      · simp at hrun
      · obtain ⟨rfl, _⟩ : start.outOfRange .probability literal.value.text = error ∧ _ := by
          simpa using hrun
        exact ⟨by simp, fun _ => rfl⟩

/-- A number is out of range from the middle behind the last finite number on, and otherwise it is
rounded to the nearest, whatever its spelling. It is a probability strictly above half the least
positive number and up to the middle behind one; in an error it is told as it was rounded, or as it
is written where that is infinite. -/
theorem number_thresholds (element : Element) :
    (∀ (cursor : Cursor) (literal : NumberLiteral),
      IsLongest NumberLiteral.chars literal cursor.rest →
        ((number element).run cursor).2 = cursor.drop literal.chars.length ∧
        (((number element).run cursor).1 = .error (cursor.outOfRange element literal.chars) ↔
          2 ^ 1024 - 2 ^ 970 ≤ |literal.exact|) ∧
        (|literal.exact| < 2 ^ 1024 - 2 ^ 970 →
          ∃ magnitude, ((number element).run cursor).1 =
              .ok (.finite literal.sign.isNegative magnitude) ∧
            Rounds literal.sign.isNegative |literal.exact|
              (.finite literal.sign.isNegative magnitude))) ∧
    (∀ (cursor other : Cursor) (literal spelling : NumberLiteral),
      IsLongest NumberLiteral.chars literal cursor.rest →
      IsLongest NumberLiteral.chars spelling other.rest →
      literal.exact = spelling.exact → literal.exact ≠ 0 →
        ∀ value, ((number element).run cursor).1 = .ok value ↔
          ((number element).run other).1 = .ok value) ∧
    ∀ (cursor start : Cursor) (literal : NumberLiteral) (outer : List Char),
      IsGroup literal cursor start outer →
        ((∃ value after, probability.run cursor = (.ok value, after)) ↔
          1 / 2 ^ 1075 < literal.exact ∧ literal.exact ≤ 1 + 1 / 2 ^ 53) ∧
        (∀ value after, probability.run cursor = (.ok value, after) →
          Rounds false literal.exact value ∧ after.rest = outer) ∧
        ∀ error after, probability.run cursor = (.error error, after) →
          (2 ^ 1024 - 2 ^ 970 ≤ |literal.exact| →
            error = start.outOfRange .probability literal.chars) ∧
          (|literal.exact| < 2 ^ 1024 - 2 ^ 970 →
            ∃ value, Rounds literal.sign.isNegative |literal.exact| value ∧
              error = start.outOfRange .probability value.text) := by
  refine ⟨fun cursor literal h => ⟨?_, ?_, ?_⟩, ?_,
    fun cursor start literal outer h => ⟨?_, ?_, ?_⟩⟩
  · rw [run_number_of_isLongest h]
  · exact run_number_eq_error_iff h element
  · exact exists_run_number_eq_ok h element
  · intro cursor other literal spelling h hother heq hne value
    rw [run_number_eq_ok_iff h, run_number_eq_ok_iff hother,
      NumberLiteral.value_eq_of_exact_eq heq hne]
  · exact exists_run_probability_iff h
  · exact fun value after hrun => rounds_of_run_probability h hrun
  · intro error after hrun
    obtain ⟨hbeyond, hbelow⟩ := error_of_run_probability h hrun
    exact ⟨hbeyond, fun hlt => ⟨literal.value, literal.rounds_value, hbelow hlt⟩⟩

/-- A number above one that is rounded to one. -/
theorem number_thresholds_above_one :
    ∃ literal spelling : NumberLiteral,
      literal.chars = "1.0000000000000001".toList ∧
      spelling.chars = "10000000000000001e-16".toList ∧
      IsLongest NumberLiteral.chars literal (Cursor.ofChars literal.chars).rest ∧
      IsLongest NumberLiteral.chars spelling (Cursor.ofChars spelling.chars).rest ∧
      |literal.exact| < 2 ^ 1024 - 2 ^ 970 ∧
      (∃ magnitude, ((number .angle).run (.ofChars literal.chars)).1 =
        .ok (.finite false magnitude)) ∧
      literal.exact = spelling.exact ∧ literal.exact ≠ 0 ∧
      (∀ value, ((number .angle).run (.ofChars literal.chars)).1 = .ok value ↔
        ((number .angle).run (.ofChars spelling.chars)).1 = .ok value) ∧
      IsGroup literal (.ofChars "( 1.0000000000000001 )->".toList)
        ((Cursor.ofChars "( 1.0000000000000001 )->".toList).drop 2) "->".toList ∧
      ∃ value after,
        probability.run (.ofChars "( 1.0000000000000001 )->".toList) = (.ok value, after) := by
  obtain ⟨literal, hchars, hsign, hdecimal⟩ : ∃ literal : NumberLiteral,
      literal.chars = "1.0000000000000001".toList ∧ literal.sign = .absent ∧
        literal.decimal = ⟨10000000000000001, -16⟩ :=
    ⟨⟨.absent, ⟨['1'], List.all_eq_true.mp rfl⟩,
      some ⟨"0000000000000001".toList, List.all_eq_true.mp rfl⟩, none, by decide⟩,
      by decide, by decide, by decide +kernel⟩
  obtain ⟨spelling, hother, hsame, hdigits⟩ : ∃ spelling : NumberLiteral,
      spelling.chars = "10000000000000001e-16".toList ∧ spelling.sign = .absent ∧
        spelling.decimal = ⟨10000000000000001, -16⟩ :=
    ⟨⟨.absent, ⟨"10000000000000001".toList, List.all_eq_true.mp rfl⟩, none,
      some ⟨false, .minus, ⟨"16".toList, List.all_eq_true.mp rfl⟩, by decide⟩, by decide⟩,
      by decide, by decide, by decide +kernel⟩
  have hexact : literal.exact = 1 + 1 / 10 ^ 16 := by
    rw [NumberLiteral.exact, hsign, NumberLiteral.size_eq, hdecimal]
    norm_num [Sign.isNegative, Decimal.size]
  have heq : literal.exact = spelling.exact := by
    rw [NumberLiteral.exact, NumberLiteral.exact, hsign, hsame, NumberLiteral.size_eq,
      NumberLiteral.size_eq, hdecimal, hdigits]
  have hlt : |literal.exact| < 2 ^ 1024 - 2 ^ 970 := by
    rw [hexact]
    exact lt_trans (by norm_num) (two_pow_lt_middle 970)
  have hpos : 1 / 2 ^ 1075 < literal.exact := by
    rw [hexact]
    exact lt_of_le_of_lt half_quantum_le (by norm_num)
  have hle : literal.exact ≤ 1 + 1 / 2 ^ 53 := by
    rw [hexact]
    norm_num
  have hgroup : IsGroup literal (.ofChars "( 1.0000000000000001 )->".toList)
      ((Cursor.ofChars "( 1.0000000000000001 )->".toList).drop 2) "->".toList := by
    refine ⟨⟨2, rfl⟩, ⟨" 1.0000000000000001 )->".toList, rfl, .space .done⟩, " )->".toList, ?_,
      .space .done⟩
    rw [hchars]
    rfl
  obtain ⟨hnumber, hspellings, hweights⟩ := number_thresholds .angle
  obtain ⟨_, _, hfinite⟩ := hnumber (.ofChars literal.chars) literal literal.isLongest_chars
  obtain ⟨magnitude, hrun, _⟩ := hfinite hlt
  obtain ⟨hallowed, _⟩ := hweights _ _ literal _ hgroup
  have hne : literal.exact ≠ 0 := ne_of_gt (lt_trans (by positivity) hpos)
  rw [hsign] at hrun
  exact ⟨literal, spelling, hchars, hother, literal.isLongest_chars, spelling.isLongest_chars, hlt,
    ⟨magnitude, hrun⟩, heq, hne,
    hspellings (.ofChars literal.chars) (.ofChars spelling.chars) literal spelling
      literal.isLongest_chars spelling.isLongest_chars heq hne,
    hgroup, hallowed.mpr ⟨hpos, hle⟩⟩

end Scanner

end Lindenmayer
