import Lindenmayer.Proofs.Canonical
import Lindenmayer.Proofs.Reading.Longest

namespace Lindenmayer

namespace IntegerLiteral

/-- Written without anything that could be left out. -/
structure IsPlain (literal : IntegerLiteral) : Prop where
  noPlus : literal.sign ≠ .plus
  noSign : literal.value = 0 → literal.sign = .absent
  noZero : literal.digits.chars.head? = some '0' → literal.digits.chars = ['0']

/-- The plain literal of a number. -/
def plain (value : Int) : IntegerLiteral :=
  ⟨if value < 0 then .minus else .absent, .ofNat value.natAbs, Nat.toDigits_ne_nil⟩

@[simp] theorem value_plain (value : Int) : (plain value).value = value := by
  rw [IntegerLiteral.value, plain, Digits.value_ofNat]
  by_cases hneg : value < 0
  · rw [if_pos hneg]
    exact (Int.eq_neg_natAbs_of_nonpos (Int.le_of_lt hneg)).symm
  · rw [if_neg hneg]
    exact Int.natAbs_of_nonneg (Int.not_lt.mp hneg)

theorem chars_plain (value : Int) : (plain value).chars = (toString value).toList := by
  rw [Int.toString_eq_repr, Int.repr_eq_if, chars, plain, Digits.chars_ofNat]
  by_cases hneg : value < 0
  · rw [if_pos hneg, if_neg (Int.not_le.mpr hneg), String.toList_append, Nat.toList_repr,
      show (-value).toNat = value.natAbs by omega]
    rfl
  · rw [if_neg hneg, if_pos (Int.not_lt.mp hneg), Nat.toList_repr,
      show value.toNat = value.natAbs by omega]
    rfl

theorem head_toDigits_ne_zero {value : Nat} (h : 0 < value) :
    (Nat.toDigits 10 value).head? ≠ some '0' := by
  induction value using Nat.strongRecOn with
  | _ value ih =>
      rw [Nat.toDigits_eq_if (by decide)]
      split
      · rename_i hsmall
        simp
        omega
      · rename_i hlarge
        rw [List.head?_append_of_ne_nil _ Nat.toDigits_ne_nil]
        exact ih (value / 10) (by omega) (by omega)

theorem isPlain_plain (value : Int) : (plain value).IsPlain where
  noPlus := by
    simp only [plain]
    split <;> decide
  noSign h := by
    rw [value_plain] at h
    exact if_neg (by omega)
  noZero h := by
    by_cases hzero : value = 0
    · subst hzero
      rfl
    · exact absurd h (head_toDigits_ne_zero (Int.natAbs_pos.mpr hzero))

theorem chars_injective {left right : IntegerLiteral} (h : left.chars = right.chars) :
    left = right := by
  have hends : StartsNoDigit [] := nofun
  have hscan := left.scan_chars hends
  rw [h, right.scan_chars hends] at hscan
  exact (Prod.mk.inj (Option.some.inj hscan)).1.symm

theorem exists_scan_of_isLongest {literal : IntegerLiteral} {source : List Char}
    (h : IsLongest chars literal source) : ∃ rest, scan source = some (literal, rest) :=
  exists_scan_of_reaches scan_append scan_reaches chars_injective h

theorem scan_eq_none_of_not_isLongest {source : List Char}
    (h : ¬∃ literal, IsLongest chars literal source) : scan source = none := by
  cases hscan : scan source with
  | none => rfl
  | some found => exact absurd ⟨found.1, isLongest hscan⟩ h

end IntegerLiteral

namespace Scanner

theorem run_generations_of_isLongest {cursor : Cursor} {literal : IntegerLiteral}
    (h : IsLongest IntegerLiteral.chars literal cursor.rest) :
    generations.run cursor =
      (if 0 ≤ literal.value ∧ literal.value < 2 ^ 32 then .ok (.ofNat literal.value.toNat)
        else .error (cursor.outOfRange .generations
          (if FitsWord literal.value then (toString literal.value).toList else literal.chars)),
        cursor.drop literal.chars.length) := by
  obtain ⟨rest, hscan⟩ := IntegerLiteral.exists_scan_of_isLongest h
  exact run_generations_of_scan hscan

theorem run_generations_eq_ok_iff {cursor : Cursor} {literal : IntegerLiteral}
    (h : IsLongest IntegerLiteral.chars literal cursor.rest) (count : UInt32) :
    (generations.run cursor).1 = .ok count ↔ (count.toNat : Int) = literal.value := by
  have hcount := count.toNat_lt
  rw [run_generations_of_isLongest h]
  by_cases hrange : 0 ≤ literal.value ∧ literal.value < 2 ^ 32
  · have hvalue : ((UInt32.ofNat literal.value.toNat).toNat : Int) = literal.value := by
      rw [UInt32.toNat_ofNat']
      omega
    rw [if_pos hrange, Except.ok.injEq, eq_comm, ← UInt32.toNat_inj, ← Int.natCast_inj, hvalue]
  · rw [if_neg hrange]
    refine iff_of_false (by simp) ?_
    omega

theorem run_generations_of_fitsWord {cursor : Cursor} {literal : IntegerLiteral}
    (h : IsLongest IntegerLiteral.chars literal cursor.rest)
    (hrange : ¬(0 ≤ literal.value ∧ literal.value ≤ 2 ^ 32 - 1)) (hword : FitsWord literal.value) :
    ∃ plain : IntegerLiteral, plain.IsPlain ∧ plain.value = literal.value ∧
      (generations.run cursor).1 = .error (cursor.outOfRange .generations plain.chars) := by
  refine ⟨_, IntegerLiteral.isPlain_plain literal.value, IntegerLiteral.value_plain _, ?_⟩
  rw [run_generations_of_isLongest h, if_neg (by omega), if_pos hword,
    IntegerLiteral.chars_plain]

theorem run_generations_of_not_fitsWord {cursor : Cursor} {literal : IntegerLiteral}
    (h : IsLongest IntegerLiteral.chars literal cursor.rest) (hword : ¬FitsWord literal.value) :
    (generations.run cursor).1 = .error (cursor.outOfRange .generations literal.chars) := by
  rw [run_generations_of_isLongest h, if_neg (mt fitsWord_of_count hword), if_neg hword]

theorem run_generations_ne_integer (cursor : Cursor) (location : Location) (text : String) :
    (generations.run cursor).1 ≠ .error ⟨location, .outOfRange .integer text⟩ := by
  cases hscan : IntegerLiteral.scan cursor.rest with
  | none =>
      rw [run_generations_of_none hscan]
      simp [Cursor.expected]
  | some found =>
      rw [run_generations_of_scan hscan]
      split <;> simp [Cursor.outOfRange]

theorem integer_of_run {cursor after : Cursor} {value : Int}
    (h : integer.run cursor = (.ok value, after)) :
    (∃ literal, IsLongest IntegerLiteral.chars literal cursor.rest ∧ literal.value = value) ∧
      FitsWord value := by
  rw [run_integer] at h
  cases hscan : IntegerLiteral.scan cursor.rest with
  | none => simp [hscan] at h
  | some found =>
      obtain ⟨literal, rest⟩ := found
      simp only [hscan] at h
      split at h
      · rename_i hword
        obtain ⟨rfl, _⟩ : literal.value = value ∧ _ := by simpa using h
        exact ⟨⟨literal, IntegerLiteral.isLongest hscan, rfl⟩, hword⟩
      · simp at h

theorem toInt_ofInt_of_fitsWord {value : Int} (h : FitsWord value) :
    (Int64.ofInt value).toInt = value := by
  obtain ⟨hlow, hhigh⟩ := h
  exact Int64.toInt_ofInt_of_le hlow hhigh

/-- A count is what is written, if that is at most `2 ^ 32 - 1` and not negative. Other numbers are
told plainly as far as a word holds them, and beyond that as they are written. -/
theorem generations_of_integer (cursor : Cursor) :
    (∀ literal : IntegerLiteral, IsLongest IntegerLiteral.chars literal cursor.rest →
      (generations.run cursor).2 = cursor.drop literal.chars.length ∧
      ((∃ count, (generations.run cursor).1 = .ok count) ↔
        0 ≤ literal.value ∧ literal.value ≤ 2 ^ 32 - 1) ∧
      (∀ count, (generations.run cursor).1 = .ok count → (count.toNat : Int) = literal.value) ∧
      (¬(0 ≤ literal.value ∧ literal.value ≤ 2 ^ 32 - 1) →
        -2 ^ 63 ≤ literal.value → literal.value ≤ 2 ^ 63 - 1 →
          ∃ plain : IntegerLiteral, plain.IsPlain ∧ plain.value = literal.value ∧
            (generations.run cursor).1 =
              .error ⟨cursor.location, .outOfRange .generations (.ofList plain.chars)⟩) ∧
      (¬(-2 ^ 63 ≤ literal.value ∧ literal.value ≤ 2 ^ 63 - 1) →
        (generations.run cursor).1 =
          .error ⟨cursor.location, .outOfRange .generations (.ofList literal.chars)⟩)) ∧
    ((¬∃ literal, IsLongest IntegerLiteral.chars literal cursor.rest) →
      generations.run cursor = (.error (cursor.expected .integer), cursor)) ∧
    (∀ location text,
      (generations.run cursor).1 ≠ .error ⟨location, .outOfRange .integer text⟩) ∧
    ∀ value after, integer.run cursor = (.ok value, after) →
      (∃ literal, IsLongest IntegerLiteral.chars literal cursor.rest ∧ literal.value = value) ∧
        (Int64.ofInt value).toInt = value := by
  refine ⟨fun literal h => ⟨?_, ?_, ?_, ?_, ?_⟩, ?_, run_generations_ne_integer cursor, ?_⟩
  · rw [run_generations_of_isLongest h]
  · simp only [run_generations_eq_ok_iff h]
    constructor
    · rintro ⟨count, hcount⟩
      have := count.toNat_lt
      omega
    · intro hrange
      refine ⟨.ofNat literal.value.toNat, ?_⟩
      rw [UInt32.toNat_ofNat']
      omega
  · exact fun count => (run_generations_eq_ok_iff h count).mp
  · intro hrange hlow hhigh
    exact run_generations_of_fitsWord h hrange ⟨hlow, by omega⟩
  · intro hword
    refine run_generations_of_not_fitsWord h (fun hfits => hword ⟨hfits.1, ?_⟩)
    have := hfits.2
    omega
  · exact fun h => run_generations_of_none (IntegerLiteral.scan_eq_none_of_not_isLongest h)
  · intro value after h
    obtain ⟨hliteral, hword⟩ := integer_of_run h
    exact ⟨hliteral, toInt_ofInt_of_fitsWord hword⟩

/-- Zeros in front are passed over, and are shown again only beyond the words. -/
theorem generations_of_integer_zeros :
    ∃ small negative beyond : IntegerLiteral,
      small.chars = "+007".toList ∧ negative.chars = "-0012".toList ∧
      beyond.chars = "0099999999999999999999".toList ∧
      IsLongest IntegerLiteral.chars small (Cursor.ofChars "+007 ".toList).rest ∧
      (∃ count, (generations.run (.ofChars "+007 ".toList)).1 = .ok count) ∧
      IsLongest IntegerLiteral.chars negative (Cursor.ofChars "-0012".toList).rest ∧
      (∃ plain : IntegerLiteral, plain.IsPlain ∧ plain.value = -12 ∧
        (generations.run (.ofChars "-0012".toList)).1 =
          .error ⟨⟨none, 1, 1⟩, .outOfRange .generations (.ofList plain.chars)⟩) ∧
      IsLongest IntegerLiteral.chars beyond
        (Cursor.ofChars "0099999999999999999999".toList).rest ∧
      (generations.run (.ofChars "0099999999999999999999".toList)).1 =
        .error ⟨⟨none, 1, 1⟩, .outOfRange .generations "0099999999999999999999"⟩ ∧
      (¬∃ literal, IsLongest IntegerLiteral.chars literal (Cursor.ofChars "+ 1".toList).rest) ∧
      generations.run (.ofChars "+ 1".toList) =
        (.error ((Cursor.ofChars "+ 1".toList).expected .integer), .ofChars "+ 1".toList) := by
  have hsmall := @IntegerLiteral.isLongest "+007 ".toList [' ']
    ⟨.plus, ⟨"007".toList, List.all_eq_true.mp rfl⟩, by decide⟩ rfl
  have hnegative := @IntegerLiteral.isLongest "-0012".toList []
    ⟨.minus, ⟨"0012".toList, List.all_eq_true.mp rfl⟩, by decide⟩ rfl
  have hbeyond := @IntegerLiteral.isLongest "0099999999999999999999".toList []
    ⟨.absent, ⟨"0099999999999999999999".toList, List.all_eq_true.mp rfl⟩, by decide⟩ rfl
  have hnone : ¬∃ literal, IsLongest IntegerLiteral.chars literal "+ 1".toList :=
    fun ⟨literal, h⟩ => IntegerLiteral.scan_eq_none_iff.mp rfl literal h.front
  obtain ⟨_, hok, _⟩ := (generations_of_integer (.ofChars "+007 ".toList)).1 _ hsmall
  obtain ⟨_, _, _, hplain, _⟩ := (generations_of_integer (.ofChars "-0012".toList)).1 _ hnegative
  obtain ⟨_, _, _, _, hshown⟩ :=
    (generations_of_integer (.ofChars "0099999999999999999999".toList)).1 _ hbeyond
  refine ⟨_, _, _, rfl, rfl, rfl, hsmall, hok.mpr ?_, hnegative, hplain ?_ ?_ ?_, hbeyond,
    hshown ?_, hnone, (generations_of_integer (.ofChars "+ 1".toList)).2.1 hnone⟩
  all_goals decide +kernel

end Scanner

end Lindenmayer
