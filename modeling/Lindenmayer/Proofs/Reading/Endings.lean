import Lindenmayer.Proofs.Grammar.Extent
import Lindenmayer.Proofs.Grammar.Trailing
import Lindenmayer.Proofs.Reading.Layout

namespace Lindenmayer

open Grammar

namespace Grammar

variable {source rest : List Char}

theorem LineBreak.exists_line (lineBreak : LineBreak source rest) (h : rest ≠ []) :
    ∃ line, source = line ++ '\n' :: rest := by
  cases lineBreak with
  | newline => exact ⟨[], rfl⟩
  | comment comment =>
      cases comment with
      | @closed body rest _ => exact ⟨'#' :: body, rfl⟩
      | last _ => exact absurd rfl h

theorem CommentLines.exists_line {text : List Char} (lines : CommentLines source rest)
    (h : rest ≠ []) (hline : ∃ line, text = line ++ '\n' :: source) :
    ∃ line, text = line ++ '\n' :: rest := by
  induction lines with
  | done => exact hline
  | line spaces comment lines ih =>
      apply ih h
      obtain ⟨front, rfl⟩ := hline
      obtain ⟨gap, rfl, _⟩ := spaces.takes
      obtain ⟨line, rfl⟩ :=
        (LineBreak.comment comment).exists_line (lines.layout.ne_nil h)
      exact ⟨front ++ '\n' :: gap ++ line, by simp⟩

theorem LineEnd.exists_line (lineEnd : LineEnd source rest) (h : rest ≠ []) :
    ∃ line, source = line ++ '\n' :: rest := by
  cases lineEnd with
  | intro spaces lineBreak lines =>
      apply lines.exists_line h
      obtain ⟨gap, rfl, _⟩ := spaces.takes
      obtain ⟨line, rfl⟩ := lineBreak.exists_line (lines.layout.ne_nil h)
      exact ⟨gap ++ line, by simp⟩

/-- Whole lines at the front of a text that hold nothing, or nothing but a comment. -/
inductive IdleLines : List Char → List Char → Prop
  | done {rest : List Char} : IdleLines rest rest
  | line {source mark middle rest : List Char} (spaces : Spaces source mark)
      (lineBreak : LineBreak mark middle) (lines : IdleLines middle rest) : IdleLines source rest

/-- A token comes next but for idle lines and spaces. -/
def TokenBelow (source : List Char) : Prop :=
  ∃ line token, IdleLines source line ∧ Spaces line token ∧ StartsToken token

theorem TokenBelow.space (h : TokenBelow source) : TokenBelow (' ' :: source) := by
  obtain ⟨line, token, lines, spaces, htoken⟩ := h
  cases lines with
  | done => exact ⟨_, token, .done, .space spaces, htoken⟩
  | line gap lineBreak lines =>
      exact ⟨line, token, .line (.space gap) lineBreak lines, spaces, htoken⟩

theorem TokenBelow.lineBreak {middle : List Char} (h : TokenBelow middle)
    (lineBreak : LineBreak source middle) : TokenBelow source := by
  obtain ⟨line, token, lines, spaces, htoken⟩ := h
  exact ⟨line, token, .line .done lineBreak lines, spaces, htoken⟩

theorem tokenBelow_of_not_idle (h : ¬Idle source) : TokenBelow source := by
  induction source using textInduction with
  | nil => exact absurd (.spaces .done) h
  | space _ ih => exact (ih (mt idle_space.mpr h)).space
  | newline _ ih => exact (ih (mt idle_newline.mpr h)).lineBreak .newline
  | comment body ih =>
      exact (ih (mt idle_comment.mpr h)).lineBreak (.comment (comment_iff.mpr ⟨body, rfl, rfl⟩))
  | token _ _ htoken => exact ⟨_, _, .done, .done, startsToken_cons htoken⟩

end Grammar

theorem Position.column_advanceOver_line (position : Position) (line : List Char) :
    (position.advanceOver (line ++ ['\n'])).column = 1 := by
  rw [advanceOver_append, advanceOver_cons, advanceOver_nil, advance, if_pos rfl]

namespace Scanner

theorem run_lineEnd_of_none {cursor : Cursor} (h : cursor.idleLineRound = none) :
    lineEnd.run cursor = (.error (cursor.skipSpaces.expected .newline), cursor.skipSpaces) := by
  rw [run_lineEnd, h]

theorem run_lineEnd_of_some {cursor first : Cursor} (h : cursor.idleLineRound = some first) :
    lineEnd.run cursor = (.ok (), first.skipCommentLines.skipTrailingLines) := by
  rw [run_lineEnd, h]

theorem leadsTo_behindBreak {cursor first : Cursor} (h : cursor.idleLineRound = some first) :
    cursor.LeadsTo first.skipCommentLines :=
  (Cursor.idleLineRound_usesText cursor first h).1.trans first.leadsTo_skipCommentLines

theorem leavesLeast_behindBreak {cursor first : Cursor} (h : cursor.idleLineRound = some first) :
    LeavesLeast LineEnd cursor.rest first.skipCommentLines.rest := by
  apply LineEnd.leavesLeast
  · exact .intro cursor.spaces_skipSpaces (Cursor.lineBreak_of_idleLineRound h)
      first.commentLines_skipCommentLines
  · exact fun _ _ => Cursor.not_comment_skipCommentLines

theorem exists_idleLineRound {cursor : Cursor} {rest : List Char}
    (lineEnd : LineEnd cursor.rest rest) : ∃ first, cursor.idleLineRound = some first := by
  cases lineEnd with
  | intro spaces lineBreak _ =>
      obtain ⟨first, hround, _⟩ := Cursor.rest_idleLineRound spaces lineBreak
      exact ⟨first, hround⟩

theorem behindBreak_eq {cursor first : Cursor} {ending rest : List Char}
    (h : cursor.idleLineRound = some first) (htext : cursor.rest = ending ++ rest)
    (hleast : LeavesLeast LineEnd cursor.rest rest) :
    first.skipCommentLines.rest = rest ∧ first.skipCommentLines = cursor.drop ending.length := by
  have hleads := leadsTo_behindBreak h
  have hrest : first.skipCommentLines.rest = rest :=
    (leavesLeast_behindBreak h).unique hleast hleads.suffix ⟨ending, htext.symm⟩
  exact ⟨hrest, hleads.eq_drop (hrest ▸ htext)⟩

theorem run_lineEnd_of_idle_rest {cursor : Cursor} {rest : List Char}
    (lineEnd : LineEnd cursor.rest rest) (idle : Idle rest) :
    Scanner.lineEnd.run cursor = (.ok (), cursor.drop cursor.rest.length) := by
  cases lineEnd with
  | intro spaces lineBreak lines =>
      obtain ⟨after, hrun, hafter⟩ := run_lineEnd_of_idle spaces lineBreak (lines.idle idle)
      rw [hrun, (advances_lineEnd.leadsTo hrun).eq_drop (by rw [hafter, List.append_nil])]

theorem run_lineEnd_of_not_idle {cursor : Cursor} {ending rest : List Char}
    (htext : cursor.rest = ending ++ rest) (hleast : LeavesLeast LineEnd cursor.rest rest)
    (hidle : ¬Idle rest) : lineEnd.run cursor = (.ok (), cursor.drop ending.length) := by
  obtain ⟨first, hround⟩ := exists_idleLineRound hleast.part
  obtain ⟨rfl, hstop⟩ := behindBreak_eq hround htext hleast
  rw [run_lineEnd_of_some hround, Cursor.skipTrailingLines_of_not_idle hidle, hstop]

theorem column_of_lineEnd {cursor : Cursor} {ending rest : List Char}
    (htext : cursor.rest = ending ++ rest) (lineEnd : LineEnd cursor.rest rest) (h : rest ≠ []) :
    (cursor.drop ending.length).position.column = 1 := by
  obtain ⟨line, hline⟩ := lineEnd.exists_line h
  have hending : ending = line ++ ['\n'] := by
    apply @List.append_cancel_right _ ending rest
    rw [← htext, hline, List.append_assoc, List.singleton_append]
  rw [Cursor.position_drop, htext, List.take_left, hending, Position.column_advanceOver_line]

/-- A line end is missing where the first character behind the spaces neither ends the line nor
begins a comment, or does not exist; then the spaces have been taken. Otherwise the longest line
end is taken, to the front of a line that is no comment line, unless nothing but idle lines follows:
then these are taken as well. -/
theorem lineEnd_of_text (cursor : Cursor) :
    ((∃ error after, lineEnd.run cursor = (.error error, after)) ↔
      (cursor.rest.dropWhile (· = ' ')).head? ≠ some '\n' ∧
        (cursor.rest.dropWhile (· = ' ')).head? ≠ some '#') ∧
    (∀ error after, lineEnd.run cursor = (.error error, after) →
      after = cursor.drop (cursor.rest.takeWhile (· = ' ')).length ∧
        error = after.expected .newline) ∧
    ((cursor.rest.dropWhile (· = ' ')).head? = some '\n' ∨
        (cursor.rest.dropWhile (· = ' ')).head? = some '#' →
      ∃ ending rest, cursor.rest = ending ++ rest ∧ LeavesLeast LineEnd cursor.rest rest) ∧
    ∀ ending rest, cursor.rest = ending ++ rest → LeavesLeast LineEnd cursor.rest rest →
      (Idle rest → lineEnd.run cursor = (.ok (), cursor.drop cursor.rest.length)) ∧
      (¬Idle rest → lineEnd.run cursor = (.ok (), cursor.drop ending.length) ∧
        (cursor.drop ending.length).position.column = 1 ∧
        (∀ mark after, Spaces rest mark → ¬Comment mark after) ∧ TokenBelow rest) := by
  have hnone := @Cursor.idleLineRound_eq_none_iff cursor
  simp only [Cursor.peek, Cursor.rest_skipSpaces] at hnone
  refine ⟨?_, ?_, fun hpeek => ?_,
    fun ending rest htext hleast => ⟨fun idle => ?_, fun hidle => ?_⟩⟩
  · rw [← hnone]
    constructor
    · rintro ⟨error, after, hrun⟩
      exact (error_of_lineEnd hrun).1
    · exact fun hround => ⟨_, _, run_lineEnd_of_none hround⟩
  · intro error after hrun
    obtain ⟨_, rfl, rfl⟩ := error_of_lineEnd hrun
    exact ⟨rfl, rfl⟩
  · cases hround : cursor.idleLineRound with
    | none => exact absurd hpeek (by simpa using hnone.mp hround)
    | some first =>
        obtain ⟨ending, htext⟩ := (leadsTo_behindBreak hround).suffix
        exact ⟨ending, _, htext.symm, leavesLeast_behindBreak hround⟩
  · exact run_lineEnd_of_idle_rest hleast.part idle
  · obtain ⟨first, hround⟩ := exists_idleLineRound hleast.part
    obtain ⟨rfl, _⟩ := behindBreak_eq hround htext hleast
    refine ⟨run_lineEnd_of_not_idle htext hleast hidle, ?_, ?_, tokenBelow_of_not_idle hidle⟩
    · exact column_of_lineEnd htext hleast.part (fun hnil => hidle (hnil ▸ .spaces .done))
    · exact fun _ _ => Cursor.not_comment_skipCommentLines

/-- A blank line below two comments stays, unless nothing else comes below it. -/
theorem lineEnd_of_text_blank_line :
    (LeavesLeast LineEnd "  # a\n #b\n\nF".toList "\nF".toList ∧ ¬Idle "\nF".toList ∧
      lineEnd.run (.ofChars "  # a\n #b\n\nF".toList) =
        (.ok (), (Cursor.ofChars "  # a\n #b\n\nF".toList).drop 10) ∧
      ((Cursor.ofChars "  # a\n #b\n\nF".toList).drop 10).position.column = 1 ∧
      TokenBelow "\nF".toList) ∧
    (LeavesLeast LineEnd "  # a\n #b\n\n".toList "\n".toList ∧ Idle "\n".toList ∧
      lineEnd.run (.ofChars "  # a\n #b\n\n".toList) =
        (.ok (), (Cursor.ofChars "  # a\n #b\n\n".toList).drop 11)) ∧
    lineEnd.run (.ofChars "  X\n".toList) =
      (.error ⟨⟨none, 1, 3⟩, .expected .newline "X"⟩, (Cursor.ofChars "  X\n".toList).drop 2) := by
  have hleast : ∀ rest,
      LeavesLeast LineEnd ("  # a\n #b\n".toList ++ '\n' :: rest) ('\n' :: rest) := by
    intro rest
    apply LineEnd.leavesLeast
    · exact .intro (spaces_replicate 2 _) (.comment (comment_iff.mpr ⟨_, rfl, rfl⟩))
        (.line (spaces_replicate 1 _) (comment_iff.mpr ⟨_, rfl, rfl⟩) .done)
    · intro mark after spaces comment
      rw [spaces.eq_of_cons (by decide)] at comment
      exact absurd comment.head_eq (by decide)
  have hblank : Idle "\n".toList := idle_newline.mpr (.spaces .done)
  have htoken : ¬Idle "\nF".toList := mt idle_newline.mp (startsToken_cons (by decide)).not_idle
  obtain ⟨_, _, _, hbelow⟩ := lineEnd_of_text (.ofChars "  # a\n #b\n\nF".toList)
  obtain ⟨hrun, hcolumn, _, hahead⟩ := (hbelow "  # a\n #b\n".toList _ rfl (hleast _)).2 htoken
  obtain ⟨_, _, _, hend⟩ := lineEnd_of_text (.ofChars "  # a\n #b\n\n".toList)
  have hall := (hend "  # a\n #b\n".toList _ rfl (hleast _)).1 hblank
  obtain ⟨hfails, hplace, _⟩ := lineEnd_of_text (.ofChars "  X\n".toList)
  obtain ⟨error, after, hmissing⟩ := hfails.mpr (by decide)
  obtain ⟨rfl, rfl⟩ := hplace error after hmissing
  exact ⟨⟨hleast _, htoken, hrun, hcolumn, hahead⟩, ⟨hleast _, hblank, hall⟩, hmissing⟩

end Scanner

end Lindenmayer
