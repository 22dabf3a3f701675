import Lindenmayer.Proofs.Insertion.Places
import Lindenmayer.Proofs.Reading.Literal

namespace Lindenmayer

/-- A scan that stops within the line that it begins in. -/
def IsLocal {α : Type} (scan : List Char → α × List Char) : Prop :=
  ∀ lines rest, IsClosed lines →
    scan (lines ++ rest) = ((scan lines).1, (scan lines).2 ++ rest) ∧ IsClosed (scan lines).2

theorem Digits.isLocal_scan : IsLocal Digits.scan := by
  intro lines rest closed
  have hnewline : Char.isDigit '\n' = false := by decide
  refine ⟨Prod.ext (Digits.ext ?_) ?_, closed.dropWhile hnewline⟩
  · exact closed.takeWhile_append hnewline rest
  · exact closed.dropWhile_append hnewline rest

theorem Sign.isLocal_scan : IsLocal Sign.scan := by
  intro lines rest closed
  cases lines with
  | nil => exact absurd rfl closed.ne_nil
  | cons char lines =>
      by_cases hplus : char = '+'
      · subst hplus
        exact ⟨rfl, closed.tail (by decide)⟩
      · by_cases hminus : char = '-'
        · subst hminus
          exact ⟨rfl, closed.tail (by decide)⟩
        · have hscan : ∀ tail, Sign.scan (char :: tail) = (.absent, char :: tail) := by
            intro tail
            unfold Sign.scan
            split
            · exact absurd (List.cons.inj ‹_›).1 hplus
            · exact absurd (List.cons.inj ‹_›).1 hminus
            · rfl
          rw [List.cons_append, hscan, hscan]
          exact ⟨rfl, closed⟩

theorem NumberLiteral.isLocal_scanFraction : IsLocal NumberLiteral.scanFraction := by
  intro lines rest closed
  cases lines with
  | nil => exact absurd rfl closed.ne_nil
  | cons char lines =>
      by_cases hpoint : char = '.'
      · subst hpoint
        have hdigits := Digits.isLocal_scan lines rest (closed.tail (by decide))
        rw [List.cons_append]
        simp only [NumberLiteral.scanFraction, hdigits.1]
        exact ⟨trivial, hdigits.2⟩
      · have hscan : ∀ tail, NumberLiteral.scanFraction (char :: tail) = (none, char :: tail) := by
          intro tail
          unfold NumberLiteral.scanFraction
          split
          · exact absurd (List.cons.inj ‹_›).1 hpoint
          · rfl
        rw [List.cons_append, hscan, hscan]
        exact ⟨rfl, closed⟩

theorem IntegerLiteral.isLocal_scan {lines : List Char} (rest : List Char)
    (closed : IsClosed lines) :
    scan (lines ++ rest) = (scan lines).map (fun found => (found.1, found.2 ++ rest)) ∧
      ∀ literal after, scan lines = some (literal, after) → IsClosed after := by
  obtain ⟨hsign, hsigned⟩ := Sign.isLocal_scan lines rest closed
  obtain ⟨hdigits, hrest⟩ := Digits.isLocal_scan _ rest hsigned
  simp only [scan, hsign, hdigits]
  by_cases hsome : (Digits.scan (Sign.scan lines).2).1.chars ≠ []
  · rw [dif_pos hsome, dif_pos hsome]
    refine ⟨rfl, fun literal after hafter => ?_⟩
    exact (Prod.mk.inj (Option.some.inj hafter)).2 ▸ hrest
  · rw [dif_neg hsome, dif_neg hsome]
    exact ⟨rfl, fun _ _ hafter => by contradiction⟩

theorem PowerLiteral.scan_append_fst {lines : List Char} (rest : List Char)
    (closed : IsClosed lines) : (scan (lines ++ rest)).1 = (scan lines).1 := by
  cases lines with
  | nil => exact absurd rfl closed.ne_nil
  | cons char lines =>
      rw [List.cons_append, scan, scan]
      by_cases hmark : char = 'e' ∨ char = 'E'
      · have hne : char ≠ '\n' := by
          rintro rfl
          simp at hmark
        rw [if_pos hmark, if_pos hmark, (IntegerLiteral.isLocal_scan rest (closed.tail hne)).1]
        cases IntegerLiteral.scan lines with
        | none => rfl
        | some found => rfl
      · rw [if_neg hmark, if_neg hmark]

theorem NumberLiteral.scan_append_fst {lines : List Char} (rest : List Char)
    (closed : IsClosed lines) :
    (scan (lines ++ rest)).map Prod.fst = (scan lines).map Prod.fst := by
  obtain ⟨hsign, hsigned⟩ := Sign.isLocal_scan lines rest closed
  obtain ⟨hwhole, hwholeRest⟩ := Digits.isLocal_scan _ rest hsigned
  obtain ⟨hfraction, hfractionRest⟩ := isLocal_scanFraction _ rest hwholeRest
  have hpower := PowerLiteral.scan_append_fst rest hfractionRest
  simp only [scan, hsign, hwhole, hfraction]
  split
  · simp only [Option.map_some, hpower]
  · rfl

theorem IntegerLiteral.scan_append_fst {lines : List Char} (rest : List Char)
    (closed : IsClosed lines) :
    (scan (lines ++ rest)).map Prod.fst = (scan lines).map Prod.fst := by
  rw [(isLocal_scan rest closed).1, Option.map_map]
  rfl

theorem Digits.newline_notMem (digits : Digits) : '\n' ∉ digits.chars := by
  intro hmem
  exact absurd (digits.isDigit _ hmem) (by decide)

theorem Sign.newline_notMem (sign : Sign) : '\n' ∉ sign.chars := by
  cases sign <;> decide

theorem IntegerLiteral.newline_notMem (literal : IntegerLiteral) : '\n' ∉ literal.chars := by
  rw [chars, List.mem_append, not_or]
  exact ⟨literal.sign.newline_notMem, literal.digits.newline_notMem⟩

theorem NumberLiteral.newline_notMem (literal : NumberLiteral) : '\n' ∉ literal.chars := by
  simp only [chars, List.mem_append, not_or]
  refine ⟨⟨⟨literal.sign.newline_notMem, literal.whole.newline_notMem⟩, ?_⟩, ?_⟩
  · cases literal.fraction with
    | none => exact List.not_mem_nil
    | some digits =>
        rw [fractionChars, List.mem_cons, not_or]
        exact ⟨by decide, digits.newline_notMem⟩
  · cases literal.power with
    | none => exact List.not_mem_nil
    | some power =>
        rw [powerChars, PowerLiteral.chars, List.mem_cons, not_or]
        refine ⟨?_, power.power.newline_notMem⟩
        cases power.capital <;> decide

end Lindenmayer
