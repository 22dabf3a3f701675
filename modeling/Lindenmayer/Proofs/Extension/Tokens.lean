import Lindenmayer.Proofs.Extension.Layout
import Lindenmayer.Proofs.Insertion.Tokens

namespace Lindenmayer

namespace Scanner

variable {α β : Type}

/-- A scanner that goes no further than the line in which it stands, and looks no further. -/
def StaysInLine (scanner : Scanner α) : Prop :=
  ∀ lines : Cursor, IsClosed lines.rest →
    (∃ error, ∀ more, ∃ after, scanner.run (lines.extend more) = (.error error, after)) ∨
      ∃ value count, count < lines.rest.length ∧
        ∀ more, scanner.run (lines.extend more) = (.ok value, (lines.drop count).extend more)

theorem staysInLine_pure (value : α) : StaysInLine (Pure.pure value) :=
  fun _ closed => .inr ⟨value, 0, List.length_pos_iff.mpr closed.ne_nil, fun _ => rfl⟩

theorem staysInLine_failExpected (element : Element) :
    StaysInLine (failExpected element : Scanner α) := by
  intro lines closed
  refine .inl ⟨lines.expected element, fun more => ⟨lines.extend more, ?_⟩⟩
  rw [run_failExpected, Cursor.expected_extend closed.mem]

theorem staysInLine_bind {scanner : Scanner α} {next : α → Scanner β}
    (hscanner : StaysInLine scanner) (hnext : ∀ value, StaysInLine (next value)) :
    StaysInLine (scanner >>= next) := by
  intro lines closed
  rcases hscanner lines closed with ⟨error, herror⟩ | ⟨first, count, hcount, hfirst⟩
  · refine .inl ⟨error, fun more => ?_⟩
    obtain ⟨after, hrun⟩ := herror more
    exact ⟨after, run_bind_of_error hrun next⟩
  · rcases hnext first (lines.drop count) (closed.drop hcount) with
      ⟨error, herror⟩ | ⟨second, further, hfurther, hsecond⟩
    · refine .inl ⟨error, fun more => ?_⟩
      obtain ⟨after, hrun⟩ := herror more
      exact ⟨after, (run_bind_of_ok (hfirst more) next).trans hrun⟩
    · rw [Cursor.rest_drop, List.length_drop] at hfurther
      refine .inr ⟨second, count + further, by omega, fun more => ?_⟩
      rw [run_bind_of_ok (hfirst more), hsecond, Cursor.drop_drop]

theorem staysInLine_collect {round : Scanner (Round α)} (h : UsesText round)
    (hround : StaysInLine round) : StaysInLine (collect round h) := by
  intro lines closed
  rcases hround lines closed with ⟨error, herror⟩ | ⟨item, count, hcount, hitem⟩
  · refine .inl ⟨error, fun more => ?_⟩
    obtain ⟨after, hrun⟩ := herror more
    exact ⟨after, run_collect_of_error h hrun⟩
  · cases item with
    | stop => exact .inr ⟨[], count, hcount, fun more => run_collect_of_stop h (hitem more)⟩
    | last item => exact .inr ⟨[item], count, hcount, fun more => run_collect_of_last h (hitem more)⟩
    | more item =>
        have hclosed : IsClosed (lines.drop count).rest := closed.drop hcount
        have hless : (lines.drop count).rest.length < lines.rest.length := by
          have hused := h _ _ _ (hitem [])
          simpa using hused
        rcases staysInLine_collect h hround (lines.drop count) hclosed with
          ⟨error, herror⟩ | ⟨items, further, hfurther, hitems⟩
        · refine .inl ⟨error, fun more => ?_⟩
          obtain ⟨after, hrun⟩ := herror more
          exact ⟨after, by rw [run_collect_of_more h (hitem more), hrun]⟩
        · rw [Cursor.rest_drop, List.length_drop] at hfurther
          refine .inr ⟨item :: items, count + further, by omega, fun more => ?_⟩
          rw [run_collect_of_more h (hitem more), hitems, Cursor.drop_drop]
termination_by lines => lines.rest.length
decreasing_by exact hless

theorem staysInLine_takeIf {accept : Char → Bool} (haccept : accept '\n' = false) :
    StaysInLine (takeIf accept) := by
  intro lines closed
  have hpeek := Cursor.peek_extend closed.ne_nil
  obtain ⟨char, rest, hrest⟩ := List.exists_cons_of_ne_nil closed.ne_nil
  have hchar : lines.peek = some char := by rw [Cursor.peek, hrest, List.head?_cons]
  by_cases hkeep : accept char = true
  · have hne : char ≠ '\n' := by
      rintro rfl
      simp [haccept] at hkeep
    have hlength : 1 < lines.rest.length :=
      @IsClosed.length_lt [char] rest _ closed hrest.symm (mt List.mem_singleton.mp (Ne.symm hne))
    refine .inr ⟨some char, 1, hlength, fun more => ?_⟩
    simp only [takeIf, hpeek, hchar, hkeep, if_true, Cursor.next,
      Cursor.extend_drop (Nat.le_of_lt hlength)]
  · refine .inr ⟨none, 0, List.length_pos_iff.mpr closed.ne_nil, fun more => ?_⟩
    simp only [takeIf, hpeek, hchar, hkeep, Cursor.drop_zero]
    rfl

theorem staysInLine_expectAll {chars : List Char} (element : Element) (h : '\n' ∉ chars) :
    StaysInLine (expectAll chars element) := by
  intro lines closed
  have hfound := fun more => Insertion.isPrefixOf_append more h closed
  by_cases hchars : chars.isPrefixOf lines.rest = true
  · obtain ⟨rest, hrest⟩ := List.isPrefixOf_iff_prefix.mp hchars
    have hcount := closed.length_lt hrest h
    refine .inr ⟨(), chars.length, hcount, fun more => ?_⟩
    simp only [expectAll, Cursor.rest_extend, hfound, hchars, if_true,
      Cursor.extend_drop (Nat.le_of_lt hcount)]
  · refine .inl ⟨lines.expected element, fun more => ⟨lines.extend more, ?_⟩⟩
    simp only [expectAll, Cursor.rest_extend, hfound, hchars, Cursor.expected_extend closed.mem]
    rfl

/-- A literal is scanned alike whatever follows its line, so a scanner that decides by the literal
alone stays in the line. -/
theorem staysInLine_of_literal (element : Element) {Literal : Type} {chars : Literal → List Char}
    {scan : List Char → Option (Literal × List Char)} {scanner : Scanner α}
    (happend : ∀ {source rest literal}, scan source = some (literal, rest) →
      chars literal ++ rest = source)
    (hnewline : ∀ literal, '\n' ∉ chars literal)
    (hlocal : ∀ {lines} (more : List Char), IsClosed lines →
      (scan (lines ++ more)).map Prod.fst = (scan lines).map Prod.fst)
    (hnone : ∀ cursor : Cursor, scan cursor.rest = none →
      scanner.run cursor = (.error (cursor.expected element), cursor))
    (hsome : ∀ literal,
      (∃ value, ∀ (cursor : Cursor) rest, scan cursor.rest = some (literal, rest) →
        scanner.run cursor = (.ok value, cursor.drop (chars literal).length)) ∨
      ∃ other text, ∀ (cursor : Cursor) rest, scan cursor.rest = some (literal, rest) →
        scanner.run cursor =
          (.error (cursor.outOfRange other text), cursor.drop (chars literal).length)) :
    StaysInLine scanner := by
  intro lines closed
  cases hlines : scan lines.rest with
  | none =>
      refine .inl ⟨lines.expected element, fun more => ⟨lines.extend more, ?_⟩⟩
      have hmore := hlocal more closed
      rw [hlines, Option.map_none, Option.map_eq_none_iff] at hmore
      rw [hnone _ hmore, Cursor.expected_extend closed.mem]
  | some found =>
      obtain ⟨literal, rest⟩ := found
      have hcount := closed.length_lt (happend hlines) (hnewline literal)
      have hscan : ∀ more, ∃ after, scan (lines.extend more).rest = some (literal, after) := by
        intro more
        exact Insertion.exists_scan_of_eq
          ((hlocal more closed).trans (congrArg (Option.map Prod.fst) hlines))
      rcases hsome literal with ⟨value, hvalue⟩ | ⟨other, text, herror⟩
      · refine .inr ⟨value, (chars literal).length, hcount, fun more => ?_⟩
        obtain ⟨after, hmore⟩ := hscan more
        rw [hvalue _ _ hmore, Cursor.extend_drop (Nat.le_of_lt hcount)]
      · refine .inl ⟨lines.outOfRange other text, fun more => ?_⟩
        obtain ⟨after, hmore⟩ := hscan more
        exact ⟨_, herror _ _ hmore⟩

theorem staysInLine_number (element : Element) : StaysInLine (number element) := by
  refine staysInLine_of_literal element NumberLiteral.scan_append NumberLiteral.newline_notMem
    NumberLiteral.scan_append_fst (fun cursor hnone => ?_) (fun literal => ?_)
  · simp only [number, hnone]
  · by_cases hfinite : literal.value.isFinite = true
    · refine .inl ⟨literal.value, fun cursor rest hscan => ?_⟩
      simp only [number, hscan, hfinite, if_true]
    · refine .inr ⟨element, literal.chars, fun cursor rest hscan => ?_⟩
      simp only [number, hscan, hfinite]
      rfl

theorem staysInLine_generations : StaysInLine generations := by
  refine staysInLine_of_literal .integer IntegerLiteral.scan_append IntegerLiteral.newline_notMem
    IntegerLiteral.scan_append_fst (fun _ => run_generations_of_none) (fun literal => ?_)
  by_cases hrange : 0 ≤ literal.value ∧ literal.value < 2 ^ 32
  · refine .inl ⟨.ofNat literal.value.toNat, fun cursor rest hscan => ?_⟩
    rw [run_generations_of_scan hscan, if_pos hrange]
  · refine .inr ⟨.generations,
      if FitsWord literal.value then (toString literal.value).toList else literal.chars,
      fun cursor rest hscan => ?_⟩
    rw [run_generations_of_scan hscan, if_neg hrange]

theorem staysInLine_symbol : StaysInLine symbol := by
  refine staysInLine_bind (staysInLine_takeIf (by decide)) fun found => ?_
  cases found with
  | none => exact staysInLine_failExpected .symbol
  | some char => exact staysInLine_pure _

theorem staysInLine_skipSpaces : StaysInLine (move Cursor.skipSpaces) := by
  intro lines closed
  have hrest := List.ne_nil_of_mem (Cursor.mem_skipSpaces closed.mem)
  have hcount : (lines.rest.takeWhile (· = ' ')).length < lines.rest.length :=
    Nat.lt_of_not_le fun hle => hrest (List.drop_eq_nil_of_le hle)
  refine .inr ⟨(), _, hcount, fun more => ?_⟩
  rw [run_move, Cursor.extend_skipSpaces closed.mem]
  rfl

theorem staysInLine_symbolRound : StaysInLine symbolRound := by
  refine staysInLine_bind staysInLine_skipSpaces fun _ => ?_
  intro lines closed
  have hpeek := Cursor.peek_extend closed.ne_nil
  simp only [run_bind_of_ok (run_here _), hpeek]
  split
  · exact staysInLine_pure _ lines closed
  · exact staysInLine_pure _ lines closed
  · exact staysInLine_pure _ lines closed
  · exact staysInLine_bind staysInLine_symbol (fun _ => staysInLine_pure _) lines closed

end Scanner

end Lindenmayer
