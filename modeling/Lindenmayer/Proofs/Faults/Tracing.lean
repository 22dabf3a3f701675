import Lindenmayer.Proofs.WellFormed

/-! Every error of a scanner is made at some place that the scanner has come to. -/

namespace Lindenmayer

open Scanner

/-- An error that is made at this place from what stands there. -/
inductive Cursor.Explains (place : Cursor) : SyntaxError → Prop
  | expected (element : Element) : Explains place (place.expected element)
  | generations {literal : IntegerLiteral} {rest : List Char}
      (scan : IntegerLiteral.scan place.rest = some (literal, rest))
      (range : ¬(0 ≤ literal.value ∧ literal.value < 2 ^ 32)) :
      Explains place (place.outOfRange .generations
        (if FitsWord literal.value then (toString literal.value).toList else literal.chars))
  | number {literal : NumberLiteral} {rest : List Char}
      (scan : NumberLiteral.scan place.rest = some (literal, rest))
      (range : literal.value.isFinite = false) :
      Explains place (place.outOfRange .number literal.chars)
  | probability {literal : NumberLiteral} {rest : List Char}
      (scan : NumberLiteral.scan place.rest = some (literal, rest))
      (range : ¬literal.value.IsProbability) :
      Explains place (place.outOfRange .probability
        (if literal.value.isFinite then literal.value.text else literal.chars))

theorem Cursor.Explains.location_eq {place : Cursor} {error : SyntaxError}
    (h : place.Explains error) : error.location = place.location := by
  cases h <;> rfl

namespace Scanner

/-- A scanner that never moves back and makes its errors where it comes. -/
structure Traces (scanner : Scanner α) : Prop where
  advances : Advances scanner
  explains : ∀ {cursor after : Cursor} {error : SyntaxError},
    scanner.run cursor = (.error error, after) →
      ∃ place, cursor.LeadsTo place ∧ place.Explains error

theorem traces_of_expected {scanner : Scanner α} (hadvances : Advances scanner)
    (h : ∀ {cursor after : Cursor} {error : SyntaxError},
      scanner.run cursor = (.error error, after) → ∃ element, error = cursor.expected element) :
    Traces scanner := by
  refine ⟨hadvances, fun hrun => ?_⟩
  obtain ⟨element, rfl⟩ := h hrun
  exact ⟨_, .refl _, .expected element⟩

theorem traces_pure (value : α) : Traces (Pure.pure value : Scanner α) :=
  ⟨advances_pure value, fun hrun => by simp at hrun⟩

theorem traces_here : Traces here :=
  ⟨advances_here, fun hrun => by simp at hrun⟩

theorem traces_move {advance : Cursor → Cursor}
    (h : ∀ cursor : Cursor, cursor.LeadsTo (advance cursor)) : Traces (move advance) :=
  ⟨advances_move h, fun hrun => by simp at hrun⟩

theorem traces_failExpected (element : Element) : Traces (failExpected element : Scanner α) :=
  traces_of_expected (advances_failExpected element) fun hrun =>
    ⟨element, (Except.error.inj (Prod.mk.inj hrun).1).symm⟩

theorem traces_bind {scanner : Scanner α} {next : α → Scanner β} (hscanner : Traces scanner)
    (hnext : ∀ value, Traces (next value)) : Traces (scanner >>= next) := by
  refine ⟨advances_bind hscanner.advances (fun value => (hnext value).advances), fun hrun => ?_⟩
  rcases run_bind_eq_error_iff.mp hrun with hfirst | ⟨first, middle, hfirst, hsecond⟩
  · exact hscanner.explains hfirst
  · obtain ⟨place, hplace, hexplains⟩ := (hnext first).explains hsecond
    exact ⟨place, (hscanner.advances.leadsTo hfirst).trans hplace, hexplains⟩

/-- The errors of a loop are those of its rounds, as far as they look the same from further in
front. -/
theorem error_of_collect (Made : Cursor → Cursor → SyntaxError → Prop)
    {round : Scanner (Round α)} (h : UsesText round) (hround : Advances round)
    (hback : ∀ {start middle after : Cursor} {error : SyntaxError},
      Made middle after error → start.LeadsTo middle → Made start after error)
    (herror : ∀ {cursor after : Cursor} {error : SyntaxError},
      round.run cursor = (.error error, after) → Made cursor after error)
    {cursor after : Cursor} {error : SyntaxError}
    (hrun : (collect round h).run cursor = (.error error, after)) : Made cursor after error := by
  rw [run_collect] at hrun
  fun_induction runCollect round h cursor with
  | case1 cursor found middle hfirst =>
      obtain ⟨rfl, rfl⟩ : found = error ∧ middle = after := by simpa using hrun
      exact herror hfirst
  | case2 => simp at hrun
  | case3 => simp at hrun
  | case4 => simp at hrun
  | case5 cursor item middle hfirst found final hothers ih =>
      obtain ⟨rfl, rfl⟩ : found = error ∧ final = after := by simpa using hrun
      exact hback (ih hothers) (hround.leadsTo hfirst)

theorem traces_collect {round : Scanner (Round α)} (h : UsesText round) (hround : Traces round) :
    Traces (collect round h) := by
  refine ⟨advances_collect h hround.advances, fun hrun => ?_⟩
  refine error_of_collect
    (fun cursor _ error => ∃ place, cursor.LeadsTo place ∧ place.Explains error) h hround.advances
    ?_ hround.explains hrun
  intro start middle after error hmade hstart
  obtain ⟨place, hplace, hexplains⟩ := hmade
  exact ⟨place, hstart.trans hplace, hexplains⟩

theorem run_takeIf (accept : Char → Bool) (cursor : Cursor) :
    ∃ found after, (takeIf accept).run cursor = (.ok found, after) := by
  simp only [takeIf]
  split
  · split
    · exact ⟨_, _, rfl⟩
    · exact ⟨_, _, rfl⟩
  · exact ⟨_, _, rfl⟩

theorem traces_takeIf (accept : Char → Bool) : Traces (takeIf accept) := by
  refine ⟨advances_takeIf accept, fun {cursor after error} hrun => ?_⟩
  obtain ⟨found, final, hfound⟩ := run_takeIf accept cursor
  simp [hfound] at hrun

theorem error_of_expectAll {chars : List Char} {element : Element} {cursor after : Cursor}
    {error : SyntaxError} (h : (expectAll chars element).run cursor = (.error error, after)) :
    error = cursor.expected element ∧ after = cursor := by
  simp only [expectAll] at h
  split at h
  · simp at h
  · rw [Prod.mk.injEq, Except.error.injEq] at h
    exact ⟨h.1.symm, h.2.symm⟩

theorem traces_expectAll (chars : List Char) (element : Element) :
    Traces (expectAll chars element) :=
  traces_of_expected (advances_expectAll chars element) fun hrun =>
    ⟨element, (error_of_expectAll hrun).1⟩

theorem traces_symbol : Traces symbol := by
  refine traces_bind (traces_takeIf _) fun found => ?_
  cases found with
  | none => exact traces_failExpected .symbol
  | some char => exact traces_pure _

theorem traces_symbolRound : Traces symbolRound := by
  refine traces_bind (traces_move Cursor.leadsTo_skipSpaces) fun _ => ?_
  refine traces_bind traces_here fun cursor => ?_
  split
  · exact traces_pure _
  · exact traces_pure _
  · exact traces_pure _
  · exact traces_bind traces_symbol fun _ => traces_pure _

theorem traces_symbols : Traces symbols := by
  refine traces_bind (traces_move Cursor.leadsTo_skip) fun _ => ?_
  refine traces_bind traces_symbol fun _ => ?_
  exact traces_bind (traces_collect _ traces_symbolRound) fun _ => traces_pure _

theorem traces_lineBreak : Traces lineBreak := by
  refine traces_bind (traces_move Cursor.leadsTo_skipSpaces) fun _ => ?_
  refine traces_bind traces_here fun cursor => ?_
  split
  · exact traces_move Cursor.leadsTo_skipComment
  · exact traces_move Cursor.leadsTo_next
  · exact traces_failExpected .newline

theorem traces_lineEnd : Traces lineEnd := by
  refine traces_bind traces_lineBreak fun _ => ?_
  refine traces_bind (traces_move Cursor.leadsTo_skipCommentLines) fun _ => ?_
  exact traces_move Cursor.leadsTo_skipTrailingLines

theorem scan_of_number {element : Element} {cursor after : Cursor} {value : Binary64}
    (h : (number element).run cursor = (.ok value, after)) :
    ∃ literal rest, NumberLiteral.scan cursor.rest = some (literal, rest) ∧
      value = literal.value ∧ literal.value.isFinite = true ∧
        after = cursor.drop literal.chars.length := by
  cases hscan : NumberLiteral.scan cursor.rest with
  | none => simp [run_number_of_none hscan] at h
  | some found =>
      obtain ⟨literal, rest⟩ := found
      obtain ⟨hvalue, rfl⟩ := Prod.mk.inj ((run_number_of_scan hscan element).symm.trans h)
      split at hvalue
      · rename_i hfinite
        exact ⟨literal, rest, rfl, (Except.ok.inj hvalue).symm, hfinite, rfl⟩
      · contradiction

theorem error_of_number {element : Element} {cursor after : Cursor} {error : SyntaxError}
    (h : (number element).run cursor = (.error error, after)) :
    error = cursor.expected element ∧ after = cursor ∨
      ∃ literal rest, NumberLiteral.scan cursor.rest = some (literal, rest) ∧
        literal.value.isFinite = false ∧ error = cursor.outOfRange element literal.chars ∧
        after = cursor.drop literal.chars.length := by
  cases hscan : NumberLiteral.scan cursor.rest with
  | none =>
      rw [run_number_of_none hscan, Prod.mk.injEq, Except.error.injEq] at h
      exact .inl ⟨h.1.symm, h.2.symm⟩
  | some found =>
      obtain ⟨literal, rest⟩ := found
      obtain ⟨hvalue, rfl⟩ := Prod.mk.inj ((run_number_of_scan hscan element).symm.trans h)
      split at hvalue
      · contradiction
      · rename_i hfinite
        exact .inr ⟨literal, rest, rfl, by simpa using hfinite, (Except.error.inj hvalue).symm, rfl⟩

theorem traces_number : Traces (number .number) := by
  refine ⟨advances_number _, fun hrun => ?_⟩
  rcases error_of_number hrun with ⟨rfl, _⟩ | ⟨literal, rest, hscan, hrange, rfl, _⟩
  · exact ⟨_, .refl _, .expected _⟩
  · exact ⟨_, .refl _, .number hscan hrange⟩

theorem error_of_generations {cursor after : Cursor} {error : SyntaxError}
    (h : generations.run cursor = (.error error, after)) :
    error = cursor.expected .integer ∧ after = cursor ∨
      ∃ literal rest, IntegerLiteral.scan cursor.rest = some (literal, rest) ∧
        ¬(0 ≤ literal.value ∧ literal.value < 2 ^ 32) ∧
        error = cursor.outOfRange .generations
          (if FitsWord literal.value then (toString literal.value).toList else literal.chars) ∧
        after = cursor.drop literal.chars.length := by
  cases hscan : IntegerLiteral.scan cursor.rest with
  | none =>
      rw [run_generations_of_none hscan, Prod.mk.injEq, Except.error.injEq] at h
      exact .inl ⟨h.1.symm, h.2.symm⟩
  | some found =>
      obtain ⟨literal, rest⟩ := found
      obtain ⟨hvalue, rfl⟩ := Prod.mk.inj ((run_generations_of_scan hscan).symm.trans h)
      split at hvalue
      · contradiction
      · rename_i hrange
        exact .inr ⟨literal, rest, rfl, hrange, (Except.error.inj hvalue).symm, rfl⟩

theorem traces_generations : Traces generations := by
  refine ⟨advances_generations, fun hrun => ?_⟩
  rcases error_of_generations hrun with ⟨rfl, _⟩ | ⟨literal, rest, hscan, hrange, rfl, _⟩
  · exact ⟨_, .refl _, .expected _⟩
  · exact ⟨_, .refl _, .generations hscan hrange⟩

theorem traces_field (keyword : List Char) (element : Element) {value : Scanner α}
    (hvalue : Traces value) : Traces (field keyword element value) := by
  refine traces_bind (traces_move Cursor.leadsTo_skip) fun _ => ?_
  refine traces_bind (traces_expectAll _ _) fun _ => ?_
  refine traces_bind (traces_move Cursor.leadsTo_skip) fun _ => ?_
  refine traces_bind hvalue fun _ => ?_
  exact traces_bind traces_lineEnd fun _ => traces_pure _

theorem leadsTo_of_probability {cursor after : Cursor} {outcome : Except SyntaxError Binary64}
    {inner : List Char} (hrest : cursor.rest = '(' :: inner)
    (hrun : probability.run cursor = (outcome, after)) : cursor.next.skip.LeadsTo after := by
  have hnumber := advances_number .probability cursor.next.skip
  rw [run_probability_of_cons hrest] at hrun
  split at hrun
  · rename_i error middle heq
    rw [heq] at hnumber
    exact (Prod.mk.inj hrun).2 ▸ hnumber
  · rename_i value behind heq
    rw [heq] at hnumber
    split at hrun
    · exact (Prod.mk.inj hrun).2 ▸ (hnumber.trans behind.leadsTo_skip).trans (Cursor.leadsTo_next _)
    · exact (Prod.mk.inj hrun).2 ▸ hnumber.trans behind.leadsTo_skip

/-- What is wrong with a weight stands behind its opening parenthesis: its number, what is in place
of the closing parenthesis, or the value of the number once the parenthesis is closed. -/
theorem explains_probability {cursor after : Cursor} {error : SyntaxError} {inner : List Char}
    (hrest : cursor.rest = '(' :: inner) (hrun : probability.run cursor = (.error error, after)) :
    ∃ place, cursor.next.skip.LeadsTo place ∧ place.Explains error := by
  rw [run_probability_of_cons hrest] at hrun
  split at hrun
  · rename_i found middle hnumber
    obtain rfl := Except.error.inj (Prod.mk.inj hrun).1
    refine ⟨_, .refl _, ?_⟩
    rcases error_of_number hnumber with ⟨rfl, _⟩ | ⟨literal, rest, hscan, hrange, rfl, _⟩
    · exact .expected _
    · have hexplains := Cursor.Explains.probability hscan
        (fun hallowed => by simp [hallowed.isFinite] at hrange)
      rwa [if_neg (by simp [hrange])] at hexplains
  · rename_i value behind hnumber
    obtain ⟨literal, rest, hscan, rfl, hfinite, rfl⟩ := scan_of_number hnumber
    split at hrun
    · split at hrun
      · simp at hrun
      · rename_i hrange
        obtain rfl := Except.error.inj (Prod.mk.inj hrun).1
        have hexplains := Cursor.Explains.probability hscan hrange
        rw [if_pos hfinite] at hexplains
        exact ⟨_, .refl _, hexplains⟩
    · obtain rfl := Except.error.inj (Prod.mk.inj hrun).1
      exact ⟨_, (Cursor.leadsTo_drop _ _).trans (Cursor.leadsTo_skip _), .expected _⟩

theorem traces_probability : Traces probability := by
  refine ⟨advances_probability, fun {cursor after error} hrun => ?_⟩
  by_cases hpeek : cursor.peek = some '('
  · obtain ⟨inner, hrest⟩ := Cursor.peek_eq_some_iff.mp hpeek
    obtain ⟨place, hplace, hexplains⟩ := explains_probability hrest hrun
    exact ⟨place, (cursor.leadsTo_next.trans (Cursor.leadsTo_skip _)).trans hplace, hexplains⟩
  · rw [run_probability_of_peek_ne hpeek] at hrun
    simp at hrun

theorem traces_production : Traces production := by
  refine traces_bind (traces_move Cursor.leadsTo_skip) fun _ => ?_
  refine traces_bind traces_symbol fun _ => ?_
  refine traces_bind (traces_move Cursor.leadsTo_skip) fun _ => ?_
  refine traces_bind traces_probability fun _ => ?_
  refine traces_bind (traces_move Cursor.leadsTo_skip) fun _ => ?_
  refine traces_bind (traces_expectAll _ _) fun _ => ?_
  exact traces_bind traces_symbols fun _ => traces_pure _

theorem traces_productionRound : Traces productionRound := by
  refine traces_bind traces_production fun _ => ?_
  refine traces_bind traces_here fun _ => ?_
  split
  · exact traces_pure _
  · refine traces_bind traces_lineEnd fun _ => ?_
    refine traces_bind traces_here fun _ => ?_
    split <;> exact traces_pure _

theorem traces_productions : Traces productions :=
  traces_bind (traces_collect _ traces_productionRound) fun _ => traces_pure _

theorem traces_model : Traces Scanner.model := by
  refine traces_bind (traces_field _ _ traces_generations) fun _ => ?_
  refine traces_bind (traces_field _ _ traces_number) fun _ => ?_
  refine traces_bind (traces_field _ _ traces_number) fun _ => ?_
  refine traces_bind (traces_field _ _ traces_symbols) fun _ => ?_
  exact traces_bind traces_productions fun _ => traces_pure _

end Scanner

end Lindenmayer
