import Lindenmayer.Document.Header
import Lindenmayer.Proofs.Grammar.Document
import Lindenmayer.Proofs.Reading.Layout
import Lindenmayer.Proofs.Reading.Literal

namespace Lindenmayer

open Grammar

namespace Scanner

theorem run_bind_eq_ok_iff {scanner : Scanner α} {next : α → Scanner β} {cursor after : Cursor}
    {value : β} :
    (scanner >>= next).run cursor = (.ok value, after) ↔
      ∃ first middle, scanner.run cursor = (.ok first, middle) ∧
        (next first).run middle = (.ok value, after) := by
  rw [run_bind]
  constructor
  · intro h
    split at h
    · rename_i first middle hfirst
      exact ⟨first, middle, hfirst, h⟩
    · simp at h
  · rintro ⟨first, middle, hfirst, hnext⟩
    rw [hfirst]
    exact hnext

theorem run_bind_eq_error_iff {scanner : Scanner α} {next : α → Scanner β}
    {cursor after : Cursor} {error : SyntaxError} :
    (scanner >>= next).run cursor = (.error error, after) ↔
      scanner.run cursor = (.error error, after) ∨
        ∃ first middle, scanner.run cursor = (.ok first, middle) ∧
          (next first).run middle = (.error error, after) := by
  rw [run_bind]
  constructor
  · intro h
    split at h
    · rename_i first middle hfirst
      exact .inr ⟨first, middle, hfirst, h⟩
    · rename_i found middle hfirst
      obtain ⟨rfl, rfl⟩ : found = error ∧ middle = after := by simpa using h
      exact .inl hfirst
  · rintro (hfirst | ⟨first, middle, hfirst, hnext⟩)
    · rw [hfirst]
    · rw [hfirst]
      exact hnext

theorem run_of_fst {scanner : Scanner α} {cursor : Cursor} {outcome : Except SyntaxError α}
    (h : (scanner.run cursor).1 = outcome) :
    scanner.run cursor = (outcome, (scanner.run cursor).2) :=
  Prod.ext h rfl

theorem rest_drop_append {cursor : Cursor} {chars rest : List Char}
    (h : cursor.rest = chars ++ rest) : (cursor.drop chars.length).rest = rest := by
  rw [Cursor.rest_drop, h, List.drop_left]

theorem number_of_run {element : Element} {cursor after : Cursor} {value : Binary64}
    (h : (number element).run cursor = (.ok value, after)) :
    Number cursor.rest value after.rest := by
  simp only [number] at h
  split at h
  · simp at h
  · rename_i literal rest hscan
    have happend := NumberLiteral.scan_append hscan
    split at h
    · rename_i hfinite
      simp only [Prod.mk.injEq, Except.ok.injEq] at h
      obtain ⟨rfl, rfl⟩ := h
      rw [rest_drop_append happend.symm, ← happend]
      exact .intro literal (Binary64.rounds_ofDecimal _ _) hfinite
    · simp at h

theorem run_number {cursor : Cursor} {value : Binary64} {rest : List Char} (element : Element)
    (read : Number cursor.rest value rest) (h : StartsNoNumber rest) :
    ∃ after, (number element).run cursor = (.ok value, after) ∧ after.rest = rest := by
  generalize hsource : cursor.rest = source at read
  cases read with
  | intro literal rounds finite =>
      have hscan := literal.scan_chars h
      obtain rfl : value = literal.value := Binary64.rounds_size_iff.mp rounds
      refine ⟨_, ?_, rest_drop_append hsource⟩
      simp only [number, hsource, hscan, finite, if_true]

theorem fitsWord_of_count {value : Int} (h : 0 ≤ value ∧ value < 2 ^ 32) : FitsWord value := by
  unfold FitsWord
  omega

theorem run_integer (cursor : Cursor) :
    integer.run cursor =
      match IntegerLiteral.scan cursor.rest with
      | none => (.error (cursor.expected .integer), cursor)
      | some (literal, _) =>
          if FitsWord literal.value then (.ok literal.value, cursor.drop literal.chars.length)
          else (.error (cursor.outOfRange .integer literal.chars),
            cursor.drop literal.chars.length) := rfl

theorem count_of_run {cursor after : Cursor} {value : UInt32}
    (h : generations.run cursor = (.ok value, after)) : Count cursor.rest value after.rest := by
  simp only [generations, run_integer] at h
  cases hscan : IntegerLiteral.scan cursor.rest with
  | none => simp [hscan, Cursor.expected] at h
  | some found =>
      obtain ⟨literal, rest⟩ := found
      have happend := IntegerLiteral.scan_append hscan
      simp only [hscan] at h
      by_cases hword : FitsWord literal.value
      · simp only [hword, if_true] at h
        split at h
        · rename_i hrange
          simp only [Prod.mk.injEq, Except.ok.injEq] at h
          obtain ⟨rfl, rfl⟩ := h
          rw [Count, rest_drop_append happend.symm, ← happend]
          have hvalue : ((UInt32.ofNat literal.value.toNat).toNat : Int) = literal.value := by
            rw [UInt32.toNat_ofNat']
            omega
          rw [hvalue]
          exact .intro literal
        · simp at h
      · simp [hword, Cursor.outOfRange] at h

theorem run_generations {cursor : Cursor} {value : UInt32} {rest : List Char}
    (read : Count cursor.rest value rest) (h : StartsNoDigit rest) :
    ∃ after, generations.run cursor = (.ok value, after) ∧ after.rest = rest := by
  rw [Count] at read
  generalize hsource : cursor.rest = source at read
  generalize hvalue : (value.toNat : Int) = size at read
  cases read with
  | intro literal =>
      have hscan := literal.scan_chars h
      have hrange : 0 ≤ literal.value ∧ literal.value < 2 ^ 32 := by
        have := value.toNat_lt
        omega
      refine ⟨_, ?_, rest_drop_append hsource⟩
      simp only [generations, run_integer, hsource, hscan, fitsWord_of_count hrange, if_true, hrange]
      simp [← hvalue]

theorem run_number_of_none {cursor : Cursor} (h : NumberLiteral.scan cursor.rest = none)
    (element : Element) :
    (number element).run cursor = (.error (cursor.expected element), cursor) := by
  simp only [number, h]

theorem run_number_of_scan {cursor : Cursor} {literal : NumberLiteral} {rest : List Char}
    (h : NumberLiteral.scan cursor.rest = some (literal, rest)) (element : Element) :
    (number element).run cursor =
      (if literal.value.isFinite then .ok literal.value
        else .error (cursor.outOfRange element literal.chars),
        cursor.drop literal.chars.length) := by
  simp only [number, h]
  split <;> rfl

theorem run_generations_of_none {cursor : Cursor} (h : IntegerLiteral.scan cursor.rest = none) :
    generations.run cursor = (.error (cursor.expected .integer), cursor) := by
  simp only [generations, run_integer, h, Cursor.expected]

theorem run_generations_of_scan {cursor : Cursor} {literal : IntegerLiteral} {rest : List Char}
    (h : IntegerLiteral.scan cursor.rest = some (literal, rest)) :
    generations.run cursor =
      (if 0 ≤ literal.value ∧ literal.value < 2 ^ 32 then .ok (.ofNat literal.value.toNat)
        else .error (cursor.outOfRange .generations
          (if FitsWord literal.value then (toString literal.value).toList else literal.chars)),
        cursor.drop literal.chars.length) := by
  simp only [generations, run_integer, h]
  by_cases hword : FitsWord literal.value
  · simp only [hword, if_true]
    split <;> rfl
  · rw [if_neg (mt fitsWord_of_count hword)]
    simp only [hword, if_false, Cursor.outOfRange, String.toList_ofList]

theorem run_symbol_of_cons {cursor : Cursor} {char : Char} {rest : List Char}
    (hrest : cursor.rest = char :: rest) (hspace : char ≠ ' ') (hnewline : char ≠ '\n') :
    symbol.run cursor = (.ok (.ofChar char), cursor.next) := by
  have hpeek : cursor.peek = some char := Cursor.peek_eq_some_iff.mpr ⟨rest, hrest⟩
  have htake : (takeIf (fun char => char ≠ ' ' && char ≠ '\n')).run cursor =
      (.ok (some char), cursor.next) := by
    simp [takeIf, hpeek, hspace, hnewline]
  rw [symbol, run_bind_of_ok htake]
  rfl

theorem run_symbol_of_refused {cursor : Cursor}
    (h : ∀ char, cursor.peek = some char → char = ' ' ∨ char = '\n') :
    symbol.run cursor = (.error (cursor.expected .symbol), cursor) := by
  have htake : (takeIf (fun char => char ≠ ' ' && char ≠ '\n')).run cursor =
      (.ok none, cursor) := by
    simp only [takeIf]
    cases hpeek : cursor.peek with
    | none => rfl
    | some char => rcases h char hpeek with rfl | rfl <;> rfl
  rw [symbol, run_bind_of_ok htake]
  rfl

theorem run_symbol_of_ok {cursor after : Cursor} {value : Symbol}
    (h : symbol.run cursor = (.ok value, after)) :
    ∃ char, cursor.rest = char :: after.rest ∧ char ≠ ' ' ∧ char ≠ '\n' ∧ value = .ofChar char := by
  cases hrest : cursor.rest with
  | nil => simp [symbol, run_bind, takeIf, Cursor.peek, hrest] at h
  | cons char rest =>
      by_cases haccept : char ≠ ' ' ∧ char ≠ '\n'
      · rw [run_symbol_of_cons hrest haccept.1 haccept.2] at h
        simp only [Prod.mk.injEq, Except.ok.injEq] at h
        obtain ⟨rfl, rfl⟩ := h
        exact ⟨char, by simp [hrest], haccept.1, haccept.2, rfl⟩
      · have hrefused : ∀ other, cursor.peek = some other → other = ' ' ∨ other = '\n' := by
          intro other hpeek
          rw [Cursor.peek, hrest, List.head?_cons, Option.some.injEq] at hpeek
          rwa [← hpeek, Decidable.or_iff_not_not_and_not]
        rw [run_symbol_of_refused hrefused] at h
        simp at h

theorem error_of_symbol {cursor after : Cursor} {error : SyntaxError}
    (h : symbol.run cursor = (.error error, after)) :
    error = cursor.expected .symbol ∧ after = cursor := by
  have hrefused : ∀ char, cursor.peek = some char → char = ' ' ∨ char = '\n' := by
    intro char hpeek
    obtain ⟨rest, hrest⟩ := Cursor.peek_eq_some_iff.mp hpeek
    by_contra hchar
    rw [not_or] at hchar
    rw [run_symbol_of_cons hrest hchar.1 hchar.2] at h
    simp at h
  rw [run_symbol_of_refused hrefused, Prod.mk.injEq, Except.error.injEq] at h
  exact ⟨h.1.symm, h.2.symm⟩

theorem run_symbolRound_of_endsRun {cursor : Cursor} (h : EndsRun cursor.skipSpaces.rest) :
    symbolRound.run cursor = (.ok .stop, cursor.skipSpaces) := by
  simp only [symbolRound, run_bind, run_move, run_here]
  rcases h with hnil | ⟨char, tail, hrest, rfl | rfl⟩
  · rw [show cursor.skipSpaces.peek = none by simp only [Cursor.peek, hnil, List.head?_nil]]
    rfl
  · rw [Cursor.peek_eq_some_iff.mpr ⟨tail, hrest⟩]
    rfl
  · rw [Cursor.peek_eq_some_iff.mpr ⟨tail, hrest⟩]
    rfl

theorem run_symbolRound_of_symbol {cursor : Cursor} {char : Char} {rest : List Char}
    (hrest : cursor.skipSpaces.rest = char :: rest) (h : StandsForSymbol char) :
    symbolRound.run cursor = (.ok (.more (.ofChar char)), cursor.skipSpaces.next) := by
  have hsymbol := run_symbol_of_cons hrest h.1 h.2.1
  simp only [symbolRound, run_bind, run_move, run_here]
  rw [Cursor.peek_eq_some_iff.mpr ⟨rest, hrest⟩]
  split
  · contradiction
  · rename_i heq
    exact absurd (Option.some.inj heq) h.2.1
  · rename_i heq
    exact absurd (Option.some.inj heq) h.2.2
  · rw [run_bind_of_ok hsymbol]
    rfl

theorem endsRun_or_symbol (cursor : Cursor) :
    EndsRun cursor.skipSpaces.rest ∨
      ∃ char rest, cursor.skipSpaces.rest = char :: rest ∧ StandsForSymbol char := by
  have hspace := cursor.peek_skipSpaces
  cases hrest : cursor.skipSpaces.rest with
  | nil => exact .inl (.inl rfl)
  | cons char rest =>
      rw [Cursor.peek, hrest, List.head?_cons] at hspace
      by_cases hend : char = '\n' ∨ char = '#'
      · exact .inl (.inr ⟨char, rest, rfl, hend⟩)
      · rw [not_or] at hend
        exact .inr ⟨char, rest, rfl, fun heq => hspace (congrArg some heq), hend⟩

theorem run_of_collect {cursor after : Cursor} {others : Word}
    (h : (collect symbolRound symbolRound_usesText).run cursor = (.ok others, after)) :
    ∀ first, StandsForSymbol first →
      Run (first :: cursor.rest) (.ofChar first :: others) after.rest := by
  intro first hfirst
  have spaces := cursor.spaces_skipSpaces
  rcases endsRun_or_symbol cursor with hend | ⟨char, rest, hrest, hchar⟩
  · rw [run_collect_of_stop _ (run_symbolRound_of_endsRun hend)] at h
    simp only [Prod.mk.injEq, Except.ok.injEq] at h
    obtain ⟨rfl, rfl⟩ := h
    exact .one hfirst spaces
  · rw [run_collect_of_more _ (run_symbolRound_of_symbol hrest hchar)] at h
    have hnext : cursor.skipSpaces.next.rest = rest := by rw [Cursor.rest_next, hrest, List.tail_cons]
    split at h
    · rename_i items final hitems
      simp only [Prod.mk.injEq, Except.ok.injEq] at h
      obtain ⟨rfl, rfl⟩ := h
      have run := run_of_collect hitems char hchar
      rw [hnext, ← hrest] at run
      exact .more hfirst spaces run
    · simp at h
termination_by cursor.rest.length
decreasing_by
  have hle := cursor.leadsTo_skipSpaces.length_le
  rw [hrest, List.length_cons] at hle
  rw [hnext]
  omega

theorem run_of_symbols {cursor after : Cursor} {word : Word}
    (h : symbols.run cursor = (.ok word, after)) :
    ∃ inner, Layout cursor.rest inner ∧ Run inner word after.rest := by
  simp only [symbols, run_bind_eq_ok_iff, run_move, Prod.mk.injEq] at h
  obtain ⟨_, _, ⟨_, rfl⟩, first, middle, hfirst, others, final, hothers, hword⟩ := h
  simp only [run_pure, Prod.mk.injEq, Except.ok.injEq] at hword
  obtain ⟨rfl, rfl⟩ := hword
  obtain ⟨char, hrest, hspace, hnewline, rfl⟩ := run_symbol_of_ok hfirst
  have hmark : char ≠ '#' := by
    have hstuck := cursor.isStuck_skip
    rw [hrest] at hstuck
    exact (isStuck_cons.mp hstuck).2
  refine ⟨cursor.skip.rest, cursor.layout_skip, ?_⟩
  rw [hrest]
  exact run_of_collect hothers char ⟨hspace, hnewline, hmark⟩

theorem run_collect_of_run {source rest : List Char} {word : Word} (run : Run source word rest)
    (hend : EndsRun (rest.dropWhile (· = ' '))) {cursor : Cursor}
    (hcursor : cursor.rest = source.tail) :
    ∃ after, (collect symbolRound symbolRound_usesText).run cursor = (.ok word.tail, after) ∧
      after.rest = rest.dropWhile (· = ' ') := by
  induction run generalizing cursor with
  | @one char source rest _ spaces =>
      have hspaces : cursor.skipSpaces.rest = rest.dropWhile (· = ' ') := by
        rw [Cursor.rest_skipSpaces, hcursor, List.tail_cons, spaces.dropWhile_eq]
      rw [← hspaces] at hend ⊢
      exact ⟨_, run_collect_of_stop _ (run_symbolRound_of_endsRun hend), rfl⟩
  | more _ spaces run ih =>
      obtain ⟨char, tail, others, rfl, hchar, rfl⟩ := run.exists_cons
      have hspaces : cursor.skipSpaces.rest = char :: tail := by
        rw [Cursor.rest_skipSpaces, hcursor, List.tail_cons, spaces.dropWhile_eq,
          List.dropWhile_cons_of_neg (by simpa using hchar.1)]
      have hnext : cursor.skipSpaces.next.rest = tail := by
        rw [Cursor.rest_next, hspaces, List.tail_cons]
      obtain ⟨after, hcollect, hrest⟩ := ih hend hnext
      refine ⟨after, ?_, hrest⟩
      rw [run_collect_of_more _ (run_symbolRound_of_symbol hspaces hchar), hcollect]
      rfl

theorem run_symbols {cursor : Cursor} {inner rest : List Char} {word : Word}
    (layout : Layout cursor.rest inner) (run : Run inner word rest)
    (hend : EndsRun (rest.dropWhile (· = ' '))) :
    ∃ after, symbols.run cursor = (.ok word, after) ∧ after.rest = rest.dropWhile (· = ' ') := by
  obtain ⟨char, tail, others, rfl, hchar, rfl⟩ := run.exists_cons
  have hskip : cursor.skip.rest = char :: tail :=
    Cursor.rest_skip_eq layout (startsToken_cons hchar).isStuck
  have hnext : cursor.skip.next.rest = tail := by rw [Cursor.rest_next, hskip, List.tail_cons]
  obtain ⟨after, hcollect, hrest⟩ := run_collect_of_run run hend hnext
  refine ⟨after, ?_, hrest⟩
  rw [symbols, run_bind_of_ok (run_move _ _),
    run_bind_of_ok (run_symbol_of_cons hskip hchar.1 hchar.2.1), run_bind_of_ok hcollect]
  rfl

end Scanner

end Lindenmayer
