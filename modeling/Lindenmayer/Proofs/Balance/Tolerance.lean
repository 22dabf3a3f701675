import Lindenmayer.Proofs.Balance.Totals
import Lindenmayer.Proofs.Balance.Written

namespace Lindenmayer

open Binary64 Grammar

section

variable {values : List Binary64} {sizes : List ℚ}

/-- A million weights drift by less than half the tolerance, relative to their sum. -/
theorem abs_toRat_sum_sub_le (tracks : Tracks values.length sizes.sum (sum values))
    (hlength : values.length ≤ 1000000) :
    |(sum values).toRat - sizes.sum| ≤ (sizes.sum + 1 / 10 ^ 9) / (2 * 10 ^ 9) := by
  obtain ⟨_, hnonneg, hnear⟩ := tracks
  have hcount : (values.length : ℚ) ≤ 1000000 := by exact_mod_cast hlength
  have hquantum := half_quantum_le
  generalize (1 : ℚ) / 2 ^ (quantumExponent + 1) = half at *
  generalize sizes.sum = exact at *
  calc
    |(sum values).toRat - exact| ≤ 4 * values.length * (exact / 2 ^ 53 + half) := hnear
    _ ≤ 4 * values.length * (exact / 2 ^ 53 + 1 / 2 ^ 200) := by gcongr
    _ ≤ 4 * 1000000 * (exact / 2 ^ 53 + 1 / 2 ^ 200) := by gcongr
    _ ≤ (exact + 1 / 10 ^ 9) / (2 * 10 ^ 9) := by linarith

theorem not_isUnbalanced_sum (h : List.Forall₂ IsRounded values sizes)
    (hlength : values.length ≤ 1000000) (hone : sizes.sum = 1) : ¬(sum values).IsUnbalanced := by
  have tracks := tracks_sum h (Nat.le_trans hlength (by norm_num))
  have hnear := abs_toRat_sum_sub_le tracks hlength
  rw [hone] at hnear
  rw [tracks.isTotal.isUnbalanced_iff, not_lt]
  exact le_trans hnear (by norm_num)

theorem isUnbalanced_sum (h : List.Forall₂ IsRounded values sizes)
    (hlength : values.length ≤ 1000000) (hfar : 2 / 10 ^ 9 < |sizes.sum - 1|) :
    (sum values).IsUnbalanced := by
  have tracks := tracks_sum h (Nat.le_trans hlength (by norm_num))
  have hnonneg := tracks.nonneg
  obtain ⟨hlow, hhigh⟩ := abs_le.mp (abs_toRat_sum_sub_le tracks hlength)
  rw [tracks.isTotal.isUnbalanced_iff]
  rcases lt_abs.mp hfar with habove | hbelow
  · exact lt_abs.mpr (.inl (by linarith))
  · exact lt_abs.mpr (.inr (by linarith))

end

namespace Model

/-- Rounding alone leads to no imbalance, and where the weights as written are farther from one
than twice the tolerance there is one. -/
theorem imbalance_of_written {text : String} {model : Model} (h : parse text = .ok model) :
    (∃ head fields rest entries, text = .ofList (head ++ rest) ∧ IsHead head fields ∧
      WrittenLines rest entries) ∧
    ∀ head fields rest entries, text = .ofList (head ++ rest) → IsHead head fields →
      WrittenLines rest entries → ∀ predecessor,
        ((model.productionsFor predecessor).getD []).length =
          (weightsOf entries predecessor).length ∧
        (1 ≤ (weightsOf entries predecessor).length →
          (weightsOf entries predecessor).length ≤ 1000000 →
            ((weightsOf entries predecessor).sum = 1 →
              ∀ total, (⟨predecessor, total⟩ : Imbalance) ∉ model.imbalances) ∧
            (2 / 10 ^ 9 < |(weightsOf entries predecessor).sum - 1| →
              ∃ total, (⟨predecessor, total⟩ : Imbalance) ∈ model.imbalances)) := by
  constructor
  · obtain ⟨head, rest, lines, htext, hhead, listing, _⟩ := exists_listing_of_parse h
    obtain ⟨entries, hwritten, _⟩ := listing.lines.exists_written
    exact ⟨head, model.head, rest, entries, htext, hhead, hwritten⟩
  · intro head fields rest entries htext hhead written predecessor
    obtain ⟨lines, read, hwritten⟩ := written.exists_lines
    have hrounded := isRounded_weightsOf hwritten predecessor
    have hlength : (alternatives lines predecessor).length =
        (weightsOf entries predecessor).length := by
      rw [← hrounded.length_eq, List.length_map]
    have hcollects := collects_of_listing h htext hhead (listing_of_lines read)
    refine ⟨?_, fun hsome hmany => ⟨fun hone total hmem => ?_, fun hfar => ?_⟩⟩
    · rw [productionsFor, hcollects, Table.getD_listed, hlength]
    · obtain ⟨_, htotal, hunbalanced⟩ := hcollects.mem_imbalances_iff.mp hmem
      rw [htotal] at hunbalanced
      exact not_isUnbalanced_sum hrounded (by rwa [hrounded.length_eq]) hone hunbalanced
    · have hunbalanced := isUnbalanced_sum hrounded (by rwa [hrounded.length_eq]) hfar
      have hne : alternatives lines predecessor ≠ [] := by
        rw [← List.length_pos_iff, hlength]
        exact hsome
      exact ⟨_, hcollects.mem_imbalances_iff.mpr ⟨hne, rfl, hunbalanced⟩⟩

theorem writtenLine_tenths {char digit : Char} {count : Nat} {symbol : Symbol}
    (hchar : StandsForSymbol char) (hsymbol : .ofChar char = symbol)
    (hdigit : digit.isDigit = true) (hcount : Nat.ofDigitChars 10 [digit] 0 = count)
    (hpos : 1 ≤ count) (hle : count ≤ 10) (rest : List Char) :
    WrittenLine (char :: '(' :: '.' :: digit :: ')' :: '-' :: '>' :: 'F' :: rest)
      (symbol, (count : ℚ) / 10) rest := by
  obtain ⟨literal, hchars, hexact⟩ : ∃ literal : NumberLiteral,
      literal.chars = ['.', digit] ∧ literal.exact = count / 10 := by
    refine ⟨⟨.absent, .empty, some ⟨[digit], by simpa⟩, none, by simp⟩, rfl, ?_⟩
    simp [NumberLiteral.exact, NumberLiteral.size, NumberLiteral.powerOfTen, Sign.isNegative,
      Digits.value, hcount]
  have opening : Layout ('.' :: digit :: ')' :: '-' :: '>' :: 'F' :: rest)
      (literal.chars ++ ')' :: '-' :: '>' :: 'F' :: rest) := by
    rw [hchars]
    exact .done
  have hlow : (1 : ℚ) ≤ count := by exact_mod_cast hpos
  have hhigh : (count : ℚ) ≤ 10 := by exact_mod_cast hle
  have hpositive : 1 / 2 ^ 1075 < literal.exact := by
    rw [hexact]
    exact lt_of_le_of_lt half_quantum_le (by linarith)
  have hbounded : literal.exact ≤ 1 + 1 / 2 ^ 53 := by
    rw [hexact]
    linarith
  rw [← hexact, ← hsymbol]
  exact .intro .done hchar .done (.present literal opening .done .done hpositive hbounded) .done
    (.one (by decide) .done)

/-- Tenths that add up to one, with a half of another predecessor among them. -/
theorem imbalance_of_written_tenths :
    ∃ model entries,
      parse (.ofList ("generations:1\nangle:0\nscale:1\naxiom:F\n".toList ++
        "F(.1)->F\nX(.5)->F\nF(.2)->F\nF(.7)->F".toList)) = .ok model ∧
      WrittenLines "F(.1)->F\nX(.5)->F\nF(.2)->F\nF(.7)->F".toList entries ∧
      (weightsOf entries .moveForward).length = 3 ∧
      (weightsOf entries .moveForward).sum = 1 ∧
      (∀ total, (⟨.moveForward, total⟩ : Imbalance) ∉ model.imbalances) ∧
      (weightsOf entries (.letter 'X')).length = 1 ∧
      2 / 10 ^ 9 < |(weightsOf entries (.letter 'X')).sum - 1| ∧
      ∃ total, (⟨.letter 'X', total⟩ : Imbalance) ∈ model.imbalances := by
  have newline : ∀ rest, LineEnd ('\n' :: rest) rest := fun rest => .intro .done .newline .done
  have written : WrittenLines "F(.1)->F\nX(.5)->F\nF(.2)->F\nF(.7)->F".toList
      [(.moveForward, ((1 : Nat) : ℚ) / 10), (.letter 'X', ((5 : Nat) : ℚ) / 10),
        (.moveForward, ((2 : Nat) : ℚ) / 10), (.moveForward, ((7 : Nat) : ℚ) / 10)] :=
    .more (writtenLine_tenths (by decide) rfl rfl rfl (by decide) (by decide) _) (newline _) <|
    .more (writtenLine_tenths (by decide) rfl rfl rfl (by decide) (by decide) _) (newline _) <|
    .more (writtenLine_tenths (by decide) rfl rfl rfl (by decide) (by decide) _) (newline _) <|
    .last (writtenLine_tenths (by decide) rfl rfl rfl (by decide) (by decide) _) (.spaces .done)
  have hone : (([((1 : Nat) : ℚ) / 10, ((2 : Nat) : ℚ) / 10, ((7 : Nat) : ℚ) / 10]).sum) = 1 := by
    norm_num
  have hfar : 2 / 10 ^ 9 < |([((5 : Nat) : ℚ) / 10]).sum - 1| := by
    norm_num [abs_of_neg]
  obtain ⟨lines, read, _⟩ := written.exists_lines
  have hparse := parse_of_listing isHead_short (listing_of_lines read)
  obtain ⟨_, hjudged⟩ := imbalance_of_written hparse
  obtain ⟨_, hforward⟩ := hjudged _ _ _ _ rfl isHead_short written .moveForward
  obtain ⟨_, hother⟩ := hjudged _ _ _ _ rfl isHead_short written (.letter 'X')
  exact ⟨_, _, hparse, written, rfl, hone, (hforward (by decide) (by decide)).1 hone, rfl, hfar,
    (hother (by decide) (by decide)).2 hfar⟩

end Model

end Lindenmayer
