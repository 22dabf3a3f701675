import Lindenmayer.Proofs.Grammar.Extent
import Lindenmayer.Proofs.Reading.Tokens

namespace Lindenmayer

open Grammar

namespace Grammar

variable {char : Char} {source rest : List Char}

/-- The text in front of the first line end or comment. -/
def row (source : List Char) : List Char :=
  source.takeWhile fun char => char ≠ '\n' && char ≠ '#'

def unspaced (source : List Char) : List Char :=
  source.filter (· ≠ ' ')

@[simp] theorem row_nil : row [] = [] := rfl

theorem row_cons (hnewline : char ≠ '\n') (hmark : char ≠ '#') (rest : List Char) :
    row (char :: rest) = char :: row rest :=
  List.takeWhile_cons_of_pos (by simp [hnewline, hmark])

@[simp] theorem row_space (rest : List Char) : row (' ' :: rest) = ' ' :: row rest :=
  row_cons (by decide) (by decide) rest

theorem row_of_endsRun (h : EndsRun source) : row source = [] := by
  rcases h with rfl | ⟨char, tail, rfl, rfl | rfl⟩
  · rfl
  · rfl
  · rfl

@[simp] theorem unspaced_nil : unspaced [] = [] := rfl

@[simp] theorem unspaced_space (rest : List Char) : unspaced (' ' :: rest) = unspaced rest := rfl

theorem unspaced_cons (h : char ≠ ' ') (rest : List Char) :
    unspaced (char :: rest) = char :: unspaced rest :=
  List.filter_cons_of_pos (by simpa using h)

@[simp] theorem unspaced_append (left right : List Char) :
    unspaced (left ++ right) = unspaced left ++ unspaced right :=
  List.filter_append left right

/-! Spaces in front of a row belong to it, and leave nothing in it. -/

theorem row_eq_append (source : List Char) :
    row source = source.takeWhile (· = ' ') ++ row (source.dropWhile (· = ' ')) := by
  induction source with
  | nil => rfl
  | cons char source ih =>
      by_cases hspace : char = ' '
      · subst hspace
        rw [row_space, ih]
        rfl
      · rw [List.takeWhile_cons_of_neg (by simpa using hspace),
          List.dropWhile_cons_of_neg (by simpa using hspace), List.nil_append]

theorem unspaced_takeWhile (source : List Char) :
    unspaced (source.takeWhile (· = ' ')) = [] := by
  apply List.filter_eq_nil_iff.mpr
  intro char hmem
  simpa using List.mem_takeWhile_imp hmem

theorem unspaced_row (source : List Char) : unspaced (row source) = row (unspaced source) := by
  induction source with
  | nil => rfl
  | cons char source ih =>
      by_cases hspace : char = ' '
      · subst hspace
        rw [row_space, unspaced_space, unspaced_space, ih]
      · rw [unspaced_cons hspace]
        by_cases hend : char = '\n' ∨ char = '#'
        · have hrow (rest : List Char) : row (char :: rest) = [] :=
            row_of_endsRun (.inr ⟨char, rest, rfl, hend⟩)
          rw [hrow, hrow, unspaced_nil]
        · rw [not_or] at hend
          rw [row_cons hend.1 hend.2, row_cons hend.1 hend.2, unspaced_cons hspace, ih]

theorem Comment.unspaced (comment : Comment source rest) :
    Comment (unspaced source) (unspaced rest) := by
  cases comment with
  | @closed body rest h =>
      have hbody : '\n' ∉ Grammar.unspaced body := fun hmem => h (List.mem_filter.mp hmem).1
      rw [unspaced_append, unspaced_cons (by decide), unspaced_cons (by decide)]
      exact .closed hbody
  | @last body h =>
      have hbody : '\n' ∉ Grammar.unspaced body := fun hmem => h (List.mem_filter.mp hmem).1
      rw [unspaced_cons (by decide)]
      exact .last hbody

theorem Layout.unspaced (layout : Layout source rest) :
    Layout (unspaced source) (unspaced rest) := by
  induction layout with
  | done => exact .done
  | space _ ih => exact ih
  | comment comment _ ih => exact .comment comment.unspaced ih

theorem head_unspaced (h : source.head? ≠ some ' ') : (unspaced source).head? = source.head? := by
  cases source with
  | nil => rfl
  | cons char source =>
      rw [unspaced_cons (fun hspace => h (congrArg some hspace)), List.head?_cons, List.head?_cons]

theorem IsStuck.unspaced (h : IsStuck source) : IsStuck (unspaced source) := by
  rw [IsStuck, head_unspaced h.1]
  exact h

theorem IsStuck.startsToken (h : IsStuck source)
    (hsymbol : ¬(source = [] ∨ source.head? = some '\n')) : StartsToken source := by
  rw [not_or] at hsymbol
  obtain ⟨char, rest, rfl⟩ := List.exists_cons_of_ne_nil hsymbol.1
  obtain ⟨hspace, hmark⟩ := isStuck_cons.mp h
  exact startsToken_cons ⟨hspace, fun hnewline => hsymbol.2 (congrArg some hnewline), hmark⟩

end Grammar

namespace Scanner

theorem run_collect_symbolRound (cursor : Cursor) :
    (collect symbolRound symbolRound_usesText).run cursor =
      (.ok ((unspaced (row cursor.rest)).map .ofChar), cursor.drop (row cursor.rest).length) := by
  have hrow := row_eq_append cursor.rest
  rw [← Cursor.rest_skipSpaces] at hrow
  rcases endsRun_or_symbol cursor with hend | ⟨char, rest, hrest, hchar⟩
  · rw [row_of_endsRun hend, List.append_nil] at hrow
    rw [run_collect_of_stop _ (run_symbolRound_of_endsRun hend), hrow, unspaced_takeWhile]
    rfl
  · have hnext : cursor.skipSpaces.next.rest = rest := by
      rw [Cursor.rest_next, hrest, List.tail_cons]
    have ih := run_collect_symbolRound cursor.skipSpaces.next
    rw [hrest, row_cons hchar.2.1 hchar.2.2] at hrow
    rw [run_collect_of_more _ (run_symbolRound_of_symbol hrest hchar), ih, hnext, hrow,
      unspaced_append, unspaced_takeWhile, List.nil_append, unspaced_cons hchar.1, List.map_cons,
      List.length_append, List.length_cons]
    simp only [Cursor.skipSpaces, Cursor.dropWhile, Cursor.next, Cursor.drop_drop, Nat.add_assoc,
      Nat.add_comm 1]
termination_by cursor.rest.length
decreasing_by
  have hle := cursor.leadsTo_skipSpaces.length_le
  rw [hrest, List.length_cons] at hle
  rw [hnext]
  omega

theorem run_symbols_of_refused {cursor : Cursor}
    (h : cursor.skip.rest = [] ∨ cursor.skip.rest.head? = some '\n') :
    symbols.run cursor = (.error (cursor.skip.expected .symbol), cursor.skip) := by
  have hrefused : ∀ char, cursor.skip.peek = some char → char = ' ' ∨ char = '\n' := by
    intro char hpeek
    rw [Cursor.peek] at hpeek
    rcases h with hnil | hhead
    · simp [hnil] at hpeek
    · exact .inr (Option.some.inj (hpeek.symm.trans hhead))
  rw [symbols, run_bind_of_ok (run_move _ _), run_bind_of_error (run_symbol_of_refused hrefused)]

theorem run_symbols_of_startsToken {cursor : Cursor} (h : StartsToken cursor.skip.rest) :
    symbols.run cursor =
      (.ok ((unspaced (row cursor.skip.rest)).map .ofChar),
        cursor.skip.drop (row cursor.skip.rest).length) := by
  obtain ⟨char, rest, hrest, hspace, hnewline, hmark⟩ := h
  have hnext : cursor.skip.next.rest = rest := by rw [Cursor.rest_next, hrest, List.tail_cons]
  rw [symbols, run_bind_of_ok (run_move _ _),
    run_bind_of_ok (run_symbol_of_cons hrest hspace hnewline),
    run_bind_of_ok (run_collect_symbolRound _), hnext, hrest, row_cons hnewline hmark,
    unspaced_cons hspace]
  simp only [run_pure, Cursor.next, Cursor.drop_drop, List.map_cons, List.length_cons,
    Nat.add_comm 1]

theorem toOption_symbols (cursor : Cursor) :
    (symbols.run cursor).1.toOption =
      if unspaced cursor.skip.rest = [] ∨ (unspaced cursor.skip.rest).head? = some '\n' then none
      else some ((row (unspaced cursor.skip.rest)).map .ofChar) := by
  have hstuck := cursor.isStuck_skip
  have hhead := head_unspaced hstuck.1
  have hiff : unspaced cursor.skip.rest = [] ∨ (unspaced cursor.skip.rest).head? = some '\n' ↔
      cursor.skip.rest = [] ∨ cursor.skip.rest.head? = some '\n' := by
    rw [← List.head?_eq_none_iff, hhead, List.head?_eq_none_iff]
  simp only [hiff]
  split
  · rename_i hrefused
    rw [run_symbols_of_refused hrefused]
    rfl
  · rename_i hsymbol
    rw [run_symbols_of_startsToken (hstuck.startsToken hsymbol), unspaced_row]
    rfl

theorem toOption_symbols_eq {left right : Cursor} (h : unspaced left.rest = unspaced right.rest) :
    (symbols.run left).1.toOption = (symbols.run right).1.toOption := by
  have hlayout := left.layout_skip.unspaced
  rw [h] at hlayout
  have hskip : unspaced left.skip.rest = unspaced right.skip.rest :=
    hlayout.unique right.layout_skip.unspaced left.isStuck_skip.unspaced
      right.isStuck_skip.unspaced
  rw [toOption_symbols, toOption_symbols, hskip]

theorem skip_eq_of_leavesLeast {cursor : Cursor} {before source : List Char}
    (htext : cursor.rest = before ++ source) (hleast : LeavesLeast Layout cursor.rest source) :
    cursor.skip.rest = source ∧ cursor.skip = cursor.drop before.length := by
  have hskip : cursor.skip.rest = source :=
    (cursor.layout_skip.leavesLeast cursor.isStuck_skip).unique hleast
      cursor.leadsTo_skip.suffix ⟨before, htext.symm⟩
  exact ⟨hskip, cursor.leadsTo_skip.eq_drop (hskip ▸ htext)⟩

/-- Symbols are read behind all layout. They are missing where the text or the line is over there;
otherwise they are the characters up to the end of the line or a comment but for the spaces, and the
scan stops there. Spaces anywhere in the text make no difference. -/
theorem symbols_of_text (cursor : Cursor) :
    (∃ before source, cursor.rest = before ++ source ∧ LeavesLeast Layout cursor.rest source) ∧
    (∀ before source, cursor.rest = before ++ source → LeavesLeast Layout cursor.rest source →
      ((∃ error after, symbols.run cursor = (.error error, after)) ↔
        source = [] ∨ source.head? = some '\n') ∧
      (source = [] ∨ source.head? = some '\n' →
        symbols.run cursor =
          (.error ((cursor.drop before.length).expected .symbol), cursor.drop before.length)) ∧
      (¬(source = [] ∨ source.head? = some '\n') →
        symbols.run cursor =
          (.ok ((unspaced (row source)).map .ofChar),
            cursor.drop (before.length + (row source).length)) ∧
          unspaced (row source) ≠ [])) ∧
    ∀ other : Cursor, unspaced other.rest = unspaced cursor.rest →
      (symbols.run other).1.toOption = (symbols.run cursor).1.toOption := by
  refine ⟨?_, fun before source htext hleast => ?_, fun other h => toOption_symbols_eq h⟩
  · obtain ⟨before, htext⟩ := cursor.leadsTo_skip.suffix
    exact ⟨before, _, htext.symm, cursor.layout_skip.leavesLeast cursor.isStuck_skip⟩
  · obtain ⟨rfl, hskip⟩ := skip_eq_of_leavesLeast htext hleast
    have hplace : ∀ count, cursor.skip.drop count = cursor.drop (before.length + count) := by
      intro count
      rw [hskip, Cursor.drop_drop]
    by_cases hrefused : cursor.skip.rest = [] ∨ cursor.skip.rest.head? = some '\n'
    · have hrun := run_symbols_of_refused hrefused
      rw [hskip] at hrun
      exact ⟨iff_of_true ⟨_, _, hrun⟩ hrefused, fun _ => hrun, fun hread => absurd hrefused hread⟩
    · have hstart := cursor.isStuck_skip.startsToken hrefused
      have hrun := run_symbols_of_startsToken hstart
      rw [hplace] at hrun
      refine ⟨iff_of_false ?_ hrefused, fun h => absurd h hrefused, fun _ => ⟨hrun, ?_⟩⟩
      · rintro ⟨error, after, herror⟩
        simp [hrun] at herror
      · obtain ⟨char, rest, hrest, hspace, hnewline, hmark⟩ := hstart
        rw [hrest, row_cons hnewline hmark, unspaced_cons hspace]
        exact List.cons_ne_nil _ _

/-- A number sign begins a comment in front of a row, and ends the row behind its first symbol. -/
theorem symbols_of_text_comments :
    LeavesLeast Layout " #x\n  A F#b\n".toList "A F#b\n".toList ∧
      symbols.run (.ofChars " #x\n  A F#b\n".toList) =
        (.ok [.letter 'A', .moveForward], (Cursor.ofChars " #x\n  A F#b\n".toList).drop 9) ∧
      unspaced "#x\nAF #b\n".toList = unspaced " #x\n  A F#b\n".toList ∧
      (symbols.run (.ofChars "#x\nAF #b\n".toList)).1.toOption =
        some [.letter 'A', .moveForward] ∧
      LeavesLeast Layout "  \nF".toList "\nF".toList ∧
      symbols.run (.ofChars "  \nF".toList) =
        (.error ⟨⟨none, 1, 3⟩, .expected .symbol "\n"⟩,
          (Cursor.ofChars "  \nF".toList).drop 2) := by
  have hleast : LeavesLeast Layout " #x\n  A F#b\n".toList "A F#b\n".toList := by
    apply Layout.leavesLeast
    · exact .space (.comment (comment_iff.mpr ⟨_, rfl, rfl⟩) (spaces_replicate 2 _).layout)
    · exact isStuck_cons.mpr (by decide)
  have hmissing : LeavesLeast Layout "  \nF".toList "\nF".toList :=
    (spaces_replicate 2 _).layout.leavesLeast (isStuck_cons.mpr (by decide))
  have hsame : unspaced "#x\nAF #b\n".toList = unspaced " #x\n  A F#b\n".toList := by decide
  obtain ⟨_, hrow, hspaces⟩ := symbols_of_text (.ofChars " #x\n  A F#b\n".toList)
  obtain ⟨hrun, _⟩ := (hrow " #x\n  ".toList _ rfl hleast).2.2 (by decide)
  obtain ⟨_, hline, _⟩ := symbols_of_text (.ofChars "  \nF".toList)
  have hfails := (hline "  ".toList _ rfl hmissing).2.1 (.inr rfl)
  refine ⟨hleast, hrun, hsame, ?_, hmissing, hfails⟩
  rw [hspaces (.ofChars "#x\nAF #b\n".toList) hsame, hrun]
  rfl

end Scanner

end Lindenmayer
