import Lindenmayer.Document.Canonical
import Lindenmayer.Proofs.WellFormed

namespace Lindenmayer

open Grammar

namespace Digits

def ofNat (value : Nat) : Digits :=
  ⟨Nat.toDigits 10 value, fun _ => Nat.isDigit_of_mem_toDigits (by decide) (by decide)⟩

def zeros (count : Nat) : Digits :=
  ⟨List.replicate count '0', fun char hmem => by rw [List.eq_of_mem_replicate hmem]; rfl⟩

def take (digits : Digits) (count : Nat) : Digits :=
  ⟨digits.chars.take count, fun char hmem => digits.isDigit char (List.mem_of_mem_take hmem)⟩

def drop (digits : Digits) (count : Nat) : Digits :=
  ⟨digits.chars.drop count, fun char hmem => digits.isDigit char (List.mem_of_mem_drop hmem)⟩

@[simp] theorem chars_ofNat (value : Nat) : (ofNat value).chars = Nat.toDigits 10 value := rfl

@[simp] theorem chars_zeros (count : Nat) : (zeros count).chars = List.replicate count '0' := rfl

@[simp] theorem value_ofNat (value : Nat) : (ofNat value).value = value :=
  Nat.ofDigitChars_ten_toDigits

theorem value_append_zeros (digits : Digits) (count : Nat) :
    (digits ++ zeros count).value = digits.value * 10 ^ count := by
  rw [value, chars_append, Nat.ofDigitChars_append, chars_zeros, Nat.ofDigitChars_replicate_zero,
    Nat.mul_comm, value]

theorem value_zeros_append (digits : Digits) (count : Nat) :
    (zeros count ++ digits).value = digits.value := by
  rw [value, chars_append, Nat.ofDigitChars_append, chars_zeros, Nat.ofDigitChars_replicate_zero,
    Nat.mul_zero, value]

theorem take_append_drop (digits : Digits) (count : Nat) :
    digits.take count ++ digits.drop count = digits :=
  ext (List.take_append_drop count digits.chars)

end Digits

theorem count_toDigits (value : UInt32) (rest : List Char) :
    Count (Nat.toDigits 10 value.toNat ++ rest) value rest := by
  have hvalue : Sign.absent.apply (Digits.ofNat value.toNat).value = (value.toNat : Int) := by
    rw [Digits.value_ofNat]
    rfl
  rw [Count, ← hvalue]
  exact .intro ⟨.absent, .ofNat value.toNat, Nat.toDigits_ne_nil⟩

namespace Decimal

def paddedDigits (decimal : Decimal) (places : Nat) : Digits :=
  .zeros (places + 1 - decimal.digits.length) ++ .ofNat decimal.coefficient

@[simp] theorem chars_paddedDigits (decimal : Decimal) (places : Nat) :
    (decimal.paddedDigits places).chars = decimal.padded places := rfl

@[simp] theorem value_paddedDigits (decimal : Decimal) (places : Nat) :
    (decimal.paddedDigits places).value = decimal.coefficient := by
  rw [paddedDigits, Digits.value_zeros_append, Digits.value_ofNat]

def wholeLiteral (sign : Sign) (coefficient places : Nat) : NumberLiteral :=
  ⟨sign, .ofNat coefficient ++ .zeros places, none, none, by simp [Nat.toDigits_ne_nil]⟩

def pointLiteral (sign : Sign) (digits : Digits) (places : Nat) (h : digits.chars ≠ []) :
    NumberLiteral :=
  ⟨sign, digits.take (digits.chars.length - places),
    some (digits.drop (digits.chars.length - places)), none, by
      rw [Option.getD_some, ← Digits.chars_append, Digits.take_append_drop]
      exact h⟩

theorem padded_ne_nil (decimal : Decimal) (places : Nat) : decimal.padded places ≠ [] := by
  intro hnil
  have hlength := decimal.length_padded places
  rw [hnil] at hlength
  simp at hlength

theorem decimal_wholeLiteral (sign : Sign) (coefficient places : Nat) :
    (wholeLiteral sign coefficient places).decimal = ⟨coefficient * 10 ^ places, 0⟩ := by
  have hdigits : (wholeLiteral sign coefficient places).digits =
      .ofNat coefficient ++ .zeros places :=
    Digits.ext (List.append_nil _)
  rw [NumberLiteral.decimal, hdigits, Digits.value_append_zeros, Digits.value_ofNat]
  rfl

theorem decimal_pointLiteral (sign : Sign) {digits : Digits} {places : Nat}
    (h : digits.chars ≠ []) (hplaces : places ≤ digits.chars.length) :
    (pointLiteral sign digits places h).decimal = ⟨digits.value, -places⟩ := by
  have hdigits : (pointLiteral sign digits places h).digits = digits :=
    Digits.take_append_drop digits _
  have hlength : (digits.drop (digits.chars.length - places)).chars.length = places := by
    rw [Digits.drop, List.length_drop]
    omega
  rw [NumberLiteral.decimal, hdigits]
  change (⟨digits.value, 0 - ((digits.drop _).chars.length : Int)⟩ : Decimal) = _
  rw [hlength, Int.zero_sub]

theorem exists_literal (sign : Sign) (decimal : Decimal) :
    ∃ literal : NumberLiteral, literal.sign = sign ∧
      literal.chars = sign.chars ++ decimal.positional ∧ literal.decimal.size = decimal.size := by
  obtain ⟨coefficient, exponent⟩ := decimal
  cases exponent with
  | ofNat places =>
      refine ⟨wholeLiteral sign coefficient places, rfl, ?_, ?_⟩
      · simp [NumberLiteral.chars, NumberLiteral.fractionChars, NumberLiteral.powerChars,
          wholeLiteral, positional, digits]
      · rw [decimal_wholeLiteral, size, size]
        push_cast
        rw [mul_one]
        rfl
  | negSucc below =>
      have hne := padded_ne_nil ⟨coefficient, .negSucc below⟩ (below + 1)
      have hlength := length_padded ⟨coefficient, .negSucc below⟩ (below + 1)
      refine ⟨pointLiteral sign (paddedDigits ⟨coefficient, .negSucc below⟩ (below + 1))
        (below + 1) hne, rfl, ?_, ?_⟩
      · simp [NumberLiteral.chars, NumberLiteral.fractionChars, NumberLiteral.powerChars,
          pointLiteral, positional, Digits.take, Digits.drop]
      · rw [decimal_pointLiteral sign hne (Nat.le_of_succ_le hlength), value_paddedDigits]
        rfl

end Decimal

theorem Binary64.Rounds.of_sign {negative : Bool} {size : ℚ} {magnitude : Magnitude}
    (rounds : Rounds negative size (.finite negative magnitude)) (other : Bool) :
    Rounds other size (.finite other magnitude) := by
  cases rounds with
  | finite bounded nearest even => exact .finite bounded nearest even

theorem number_text {value : Binary64} (h : value.isFinite = true) (rest : List Char) :
    Number (value.text ++ rest) value rest := by
  cases value with
  | nan => simp at h
  | infinite negative => simp at h
  | finite negative magnitude =>
      have hread := magnitude.readsBack_shortest
      obtain ⟨literal, hsign, hchars, hsize⟩ :=
        magnitude.shortest.exists_literal (if negative then .minus else .absent)
      have htext : (Binary64.finite negative magnitude).text = literal.chars := by
        rw [hchars, Binary64.text_finite, Binary64.signText]
        cases negative <;> rfl
      have hnegative : literal.sign.isNegative = negative := by
        rw [hsign]
        cases negative <;> rfl
      have rounds : Binary64.Rounds literal.sign.isNegative literal.decimal.size
          (.finite negative magnitude) := by
        rw [hsize, hnegative]
        exact (Binary64.rounds_size_iff.mpr hread.symm).of_sign negative
      rw [htext]
      exact .intro literal rounds rfl

theorem Symbol.IsPlain.ofChar_char {symbol : Symbol} (h : symbol.IsPlain) :
    ofChar symbol.char = symbol :=
  h.1

theorem run_chars {word : Word} (h : word.WellFormed) (rest : List Char) :
    Run (word.chars ++ rest) word rest := by
  obtain ⟨hne, hplain⟩ := h
  induction word with
  | nil => exact absurd rfl hne
  | cons symbol word ih =>
      have hsymbol := hplain symbol List.mem_cons_self
      have hchar := hsymbol.standsForSymbol
      rw [← hsymbol.ofChar_char, Word.chars_cons, Symbol.char_ofChar, List.cons_append]
      cases word with
      | nil => exact .one hchar .done
      | cons second word =>
          have run := ih (List.cons_ne_nil _ _) (fun other hmem => hplain other (.tail _ hmem))
          exact .more hchar .done run

theorem Binary64.eq_of_signed_eq {negative : Bool} {quanta unit : Nat} (hpos : 0 < unit)
    (h : signed negative quanta = signed false unit) : negative = false ∧ quanta = unit := by
  unfold signed at h
  cases negative with
  | false =>
      simp only [Bool.false_eq_true, if_false] at h
      exact ⟨rfl, by omega⟩
  | true =>
      simp only [if_true, Bool.false_eq_true, if_false] at h
      omega

theorem Binary64.eq_one_of_beq {value : Binary64} (h : (value == one) = true) : value = one := by
  obtain ⟨place, hvalue, hone⟩ := beq_iff.mp h
  have hfinite : value.isFinite = true := isFinite_of_beq rfl (beq_iff.mpr ⟨place, hone, hvalue⟩)
  cases value with
  | nan => simp at hfinite
  | infinite negative => simp at hfinite
  | finite negative magnitude =>
      obtain ⟨rfl, hquanta⟩ := eq_of_signed_eq (Nat.two_pow_pos quantumExponent)
        (Option.some.inj (hvalue.trans hone.symm))
      exact congrArg (finite false) (Magnitude.ext hquanta)

theorem line_canonical {predecessor : Symbol} {production : Production}
    (hpredecessor : predecessor.IsPlain) (h : production.WellFormed) (rest : List Char) :
    Line (production.canonical predecessor ++ rest) (predecessor, production) ('\n' :: rest) := by
  obtain ⟨probability, successor⟩ := production
  have run := run_chars h.successor ('\n' :: rest)
  have hchar := hpredecessor.standsForSymbol
  rw [Production.canonical]
  by_cases hone : (probability == .one) = true
  · obtain rfl := Binary64.eq_one_of_beq hone
    have line : Line (predecessor.char :: ' ' :: '-' :: '>' :: ' ' ::
        (successor.chars ++ '\n' :: rest)) _ ('\n' :: rest) :=
      .intro .done hchar (.space .done) .absent (.space .done) run
    rw [hpredecessor.ofChar_char] at line
    simpa [hone] using line
  · have read := number_text h.probability.isFinite (')' :: ' ' :: '-' :: '>' :: ' ' ::
      (successor.chars ++ '\n' :: rest))
    have weight : Weight _ probability _ :=
      .present .done read .done (.space .done) h.probability
    have line : Line (predecessor.char :: ' ' :: '(' :: (probability.text ++
        ')' :: ' ' :: '-' :: '>' :: ' ' :: (successor.chars ++ '\n' :: rest))) _ ('\n' :: rest) :=
      .intro .done hchar (.space .done) weight (.space .done) run
    rw [hpredecessor.ofChar_char] at line
    simpa [hone] using line

theorem lines_canonical {lines : List (Symbol × Production)} (hne : lines ≠ [])
    (h : ∀ line ∈ lines, line.1.IsPlain ∧ line.2.WellFormed) :
    Lines (lines.flatMap (fun line => line.2.canonical line.1)) lines := by
  induction lines with
  | nil => exact absurd rfl hne
  | cons line rest ih =>
      obtain ⟨hpredecessor, hproduction⟩ := h line List.mem_cons_self
      have read := line_canonical hpredecessor hproduction
        (rest.flatMap (fun line => line.2.canonical line.1))
      rw [List.flatMap_cons]
      cases rest with
      | nil => exact .last read (.line .done .newline (.spaces .done))
      | cons second rest =>
          have lines := ih (List.cons_ne_nil _ _) (fun other hmem => h other (.tail _ hmem))
          exact .more read (.intro .done .newline .done) lines

theorem flatMap_lines (table : Table) :
    table.lines.flatMap (fun line => line.2.canonical line.1) =
      table.entries.flatMap Table.Entry.canonical := by
  rw [Table.lines, List.flatMap_assoc]
  congr 1
  funext entry
  rw [Table.Entry.lines, List.flatMap_map, Table.Entry.canonical]

theorem Table.lines_wellFormed {table : Table}
    (h : ∀ entry ∈ table.entries, Table.Entry.WellFormed entry) :
    ∀ line ∈ table.lines, line.1.IsPlain ∧ line.2.WellFormed := by
  intro line hline
  obtain ⟨entry, hentry, hmem⟩ := List.mem_flatMap.mp hline
  obtain ⟨production, hproduction, rfl⟩ := List.mem_map.mp hmem
  exact ⟨(h entry hentry).predecessor, (h entry hentry).productions production hproduction⟩

theorem Table.lines_ne_nil {table : Table} (hne : table.entries ≠ [])
    (h : ∀ entry ∈ table.entries, Table.Entry.WellFormed entry) : table.lines ≠ [] := by
  obtain ⟨entry, hentry⟩ := List.exists_mem_of_ne_nil _ hne
  obtain ⟨production, hmem⟩ := List.exists_mem_of_ne_nil _ (h entry hentry).ne_nil
  exact List.ne_nil_of_mem
    (List.mem_flatMap.mpr ⟨entry, hentry, List.mem_map_of_mem (f := Prod.mk entry.1) hmem⟩)

theorem field_canonical {α : Type} {keyword written rest : List Char}
    {Value : List Char → α → List Char → Prop} {value : α}
    (read : Value (written ++ '\n' :: rest) value ('\n' :: rest)) :
    Field keyword Value (keyword ++ (written ++ '\n' :: rest)) value rest :=
  .intro .done .done read (.intro .done .newline .done)

namespace Model

theorem canonicalChars_eq (model : Model) :
    model.canonicalChars =
      "generations:".toList ++ (Nat.toDigits 10 model.generations.toNat ++ '\n' ::
        ("angle:".toList ++ (model.angle.text ++ '\n' ::
          ("scale:".toList ++ (model.scale.text ++ '\n' ::
            ("axiom:".toList ++ (Word.chars model.seed ++ '\n' ::
              model.productions.lines.flatMap (fun line => line.2.canonical line.1)))))))) := by
  rw [flatMap_lines]
  unfold canonicalChars
  generalize "generations:".toList = first
  generalize "angle:".toList = second
  generalize "scale:".toList = third
  generalize "axiom:".toList = fourth
  simp only [List.append_assoc, List.cons_append, List.nil_append]

theorem document_canonicalChars {model : Model} (h : model.WellFormed) :
    Document model.canonicalChars model := by
  rw [canonicalChars_eq]
  exact .intro (field_canonical (count_toDigits _ _)) (field_canonical (number_text h.angle _))
    (field_canonical (number_text h.scale _)) (field_canonical (run_chars h.seed _))
    (lines_canonical (Table.lines_ne_nil h.ne_nil h.entries) (Table.lines_wellFormed h.entries))
    (Table.collects_lines (fun entry hentry => (h.entries entry hentry).ne_nil))

theorem parse_canonical_of_wellFormed {model : Model} (h : model.WellFormed) :
    parse model.canonical = .ok model := by
  apply parse_of_document
  rw [canonical, String.toList_ofList]
  exact document_canonicalChars h

/-- A canonical description is read back as the same model, to the sign of every zero, and only
where the model is well formed it is read back at all as one that compares equal. -/
theorem parse_canonical_iff (model : Model) :
    ((∃ other, parse model.canonical = .ok other ∧ (other == model) = true) ↔ model.WellFormed) ∧
      (model.WellFormed → ∃ other, parse model.canonical = .ok other ∧ other = model ∧
        other.canonical = model.canonical) := by
  refine ⟨⟨?_, fun h => ?_⟩, fun h => ?_⟩
  · rintro ⟨other, hparse, heq⟩
    exact (wellFormed_of_document (document_of_parse hparse)).of_beq heq
  · exact ⟨model, parse_canonical_of_wellFormed h, h.beq_self⟩
  · exact ⟨model, parse_canonical_of_wellFormed h, rfl, rfl⟩

end Model

end Lindenmayer
