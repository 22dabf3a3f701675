import Lindenmayer.Document.Tokens
import Lindenmayer.Proofs.Grammar.Layout

namespace Lindenmayer

open Grammar

namespace Cursor

theorem LeadsTo.eq_of_rest_eq {source left right : Cursor} (hleft : source.LeadsTo left)
    (hright : source.LeadsTo right) (h : left.rest = right.rest) : left = right := by
  obtain ⟨first, rfl⟩ := hleft
  obtain ⟨second, rfl⟩ := hright
  rw [rest_drop, rest_drop] at h
  have htake : source.rest.take first = source.rest.take second := by
    have hsplit := List.take_append_drop first source.rest
    rw [h] at hsplit
    exact List.append_cancel_right (hsplit.trans (List.take_append_drop second source.rest).symm)
  rw [drop, drop, h, htake]

theorem LeadsTo.suffix {source target : Cursor} (h : source.LeadsTo target) :
    target.rest <:+ source.rest := by
  obtain ⟨count, rfl⟩ := h
  exact List.drop_suffix count source.rest

theorem LeadsTo.eq_drop {source target : Cursor} {taken : List Char} (h : source.LeadsTo target)
    (htext : source.rest = taken ++ target.rest) : target = source.drop taken.length := by
  refine h.eq_of_rest_eq (source.leadsTo_drop _) ?_
  rw [rest_drop, htext, List.drop_left]

theorem round_exhaust {round : Cursor → Option Cursor} (h : UsesText round) (cursor : Cursor) :
    round (cursor.exhaust round h) = none := by
  fun_induction exhaust round h cursor with
  | case1 cursor hround => exact hround
  | case2 cursor after hround ih => exact ih

@[simp] theorem rest_skipSpaces (cursor : Cursor) :
    cursor.skipSpaces.rest = cursor.rest.dropWhile (· = ' ') := by
  simp [skipSpaces]

theorem spaces_skipSpaces (cursor : Cursor) : Spaces cursor.rest cursor.skipSpaces.rest := by
  rw [rest_skipSpaces]
  exact spaces_dropWhile cursor.rest

theorem peek_skipSpaces (cursor : Cursor) : cursor.skipSpaces.peek ≠ some ' ' := by
  have hhead := List.head?_dropWhile_not (fun char : Char => decide (char = ' ')) cursor.rest
  rw [peek, rest_skipSpaces]
  intro heq
  rw [heq] at hhead
  simp at hhead

theorem peek_eq_some_iff {cursor : Cursor} {char : Char} :
    cursor.peek = some char ↔ ∃ rest, cursor.rest = char :: rest :=
  List.head?_eq_some_iff

theorem dropWhile_ne_newline (chars : List Char) :
    chars.dropWhile (· ≠ '\n') = [] ∨ ∃ rest, chars.dropWhile (· ≠ '\n') = '\n' :: rest := by
  have hhead := List.head?_dropWhile_not (fun char : Char => decide (char ≠ '\n')) chars
  cases hrest : chars.dropWhile (· ≠ '\n') with
  | nil => exact .inl rfl
  | cons char rest =>
      rw [hrest] at hhead
      simp only [List.head?_cons, decide_not, Bool.not_eq_false', decide_eq_true_eq] at hhead
      exact .inr ⟨rest, by rw [hhead]⟩

theorem comment_skipComment {cursor : Cursor} (h : cursor.peek = some '#') :
    Comment cursor.rest cursor.skipComment.rest := by
  obtain ⟨body, hrest⟩ := peek_eq_some_iff.mp h
  have hbody : (cursor.next.dropWhile (· ≠ '\n')).rest = body.dropWhile (· ≠ '\n') := by
    rw [rest_dropWhile, rest_next, hrest]
    rfl
  refine comment_iff.mpr ⟨body, hrest, ?_⟩
  simp only [skipComment, h, if_true, afterLine]
  rcases dropWhile_ne_newline body with hnil | ⟨rest, hline⟩
  · rw [if_neg (by simp only [peek, hbody, hnil]; decide), hbody, hnil]
    rfl
  · rw [if_pos (by simp only [peek, hbody, hline]; rfl), rest_next, hbody]

/-! Each loop carries a relation that its round can be put in front of. -/

theorem rest_exhaust {round : Cursor → Option Cursor} (h : UsesText round)
    {Part : List Char → List Char → Prop} (hdone : ∀ rest, Part rest rest)
    (hround : ∀ cursor after rest, round cursor = some after → Part after.rest rest →
      Part cursor.rest rest) (cursor : Cursor) :
    Part cursor.rest (cursor.exhaust round h).rest := by
  fun_induction exhaust round h cursor with
  | case1 cursor _ => exact hdone cursor.rest
  | case2 cursor after hstep ih => exact hround cursor after _ hstep ih

theorem layout_skip (cursor : Cursor) : Layout cursor.rest cursor.skip.rest := by
  refine rest_exhaust layoutRound_usesText (fun _ => .done) ?_ cursor
  intro cursor after rest hround layout
  unfold layoutRound at hround
  split at hround
  · rename_i hpeek
    obtain rfl := Option.some.inj hround
    obtain ⟨tail, hrest⟩ := peek_eq_some_iff.mp hpeek
    rw [rest_next, hrest] at layout
    rw [hrest]
    exact .space layout
  · rename_i hpeek
    obtain rfl := Option.some.inj hround
    exact .comment (comment_skipComment hpeek) layout
  · contradiction

theorem isStuck_skip (cursor : Cursor) : IsStuck cursor.skip.rest := by
  have hround := round_exhaust layoutRound_usesText cursor
  unfold layoutRound at hround
  split at hround
  · contradiction
  · contradiction
  · rename_i hspace hmark
    exact ⟨hspace, hmark⟩

/-- Skipping stops where layout gets stuck, wherever the layout was broken off. -/
theorem rest_skip_eq {cursor : Cursor} {rest : List Char} (layout : Layout cursor.rest rest)
    (h : IsStuck rest) : cursor.skip.rest = rest :=
  (layout_skip cursor).unique layout (isStuck_skip cursor) h

theorem commentLines_skipCommentLines (cursor : Cursor) :
    CommentLines cursor.rest cursor.skipCommentLines.rest := by
  refine rest_exhaust commentLineRound_usesText (fun _ => .done) ?_ cursor
  intro cursor after rest hround lines
  unfold commentLineRound at hround
  split at hround
  · rename_i hpeek
    obtain rfl := Option.some.inj hround
    exact .line (spaces_skipSpaces cursor) (comment_skipComment hpeek) lines
  · contradiction

theorem not_comment_skipCommentLines {cursor : Cursor} {mark rest : List Char}
    (spaces : Spaces cursor.skipCommentLines.rest mark) : ¬Comment mark rest := by
  intro comment
  have hround := round_exhaust commentLineRound_usesText cursor
  unfold commentLineRound at hround
  split at hround
  · contradiction
  · rename_i hmark
    apply hmark
    obtain ⟨body, rfl, _⟩ := comment_iff.mp comment
    refine peek_eq_some_iff.mpr ⟨body, ?_⟩
    rw [rest_skipSpaces]
    exact spaces.mark_eq (.comment comment)

theorem lineBreak_of_idleLineRound {cursor after : Cursor}
    (h : idleLineRound cursor = some after) : LineBreak cursor.skipSpaces.rest after.rest := by
  unfold idleLineRound at h
  split at h
  · rename_i hpeek
    obtain rfl := Option.some.inj h
    exact .comment (comment_skipComment hpeek)
  · rename_i hpeek
    obtain rfl := Option.some.inj h
    obtain ⟨tail, hrest⟩ := peek_eq_some_iff.mp hpeek
    rw [rest_next, hrest]
    exact .newline
  · contradiction

theorem idleLineRound_eq_none_iff {cursor : Cursor} :
    cursor.idleLineRound = none ↔
      cursor.skipSpaces.peek ≠ some '\n' ∧ cursor.skipSpaces.peek ≠ some '#' := by
  unfold idleLineRound
  split
  · simp_all
  · simp_all
  · simp_all

theorem not_lineBreak_of_idleLineRound {cursor : Cursor} (h : idleLineRound cursor = none)
    {rest : List Char} : ¬LineBreak cursor.skipSpaces.rest rest := by
  intro lineBreak
  obtain ⟨hnewline, hmark⟩ := idleLineRound_eq_none_iff.mp h
  generalize hrest : cursor.skipSpaces.rest = source at lineBreak
  cases lineBreak with
  | newline => exact hnewline (peek_eq_some_iff.mpr ⟨_, hrest⟩)
  | comment comment =>
      obtain ⟨body, rfl, _⟩ := comment_iff.mp comment
      exact hmark (peek_eq_some_iff.mpr ⟨_, hrest⟩)

theorem rest_idleLineRound {cursor : Cursor} {mark rest : List Char}
    (spaces : Spaces cursor.rest mark) (lineBreak : LineBreak mark rest) :
    ∃ after, idleLineRound cursor = some after ∧ after.rest = rest := by
  rw [← spaces.mark_eq lineBreak, ← rest_skipSpaces] at lineBreak
  cases hround : idleLineRound cursor with
  | none => exact absurd lineBreak (not_lineBreak_of_idleLineRound hround)
  | some after =>
      exact ⟨after, rfl, (lineBreak_of_idleLineRound hround).unique lineBreak⟩

theorem idle_exhaust_iff (cursor : Cursor) :
    Idle cursor.rest ↔ Idle (cursor.exhaust idleLineRound idleLineRound_usesText).rest := by
  refine @rest_exhaust _ idleLineRound_usesText (fun source rest => Idle source ↔ Idle rest)
    (fun _ => Iff.rfl) ?_ cursor
  intro cursor after rest hround hrest
  exact (idle_iff (spaces_skipSpaces cursor) (lineBreak_of_idleLineRound hround)).trans hrest

theorem idle_iff_rest_eq_nil (cursor : Cursor) :
    Idle cursor.rest ↔
      (cursor.exhaust idleLineRound idleLineRound_usesText).skipSpaces.rest = [] := by
  rw [idle_exhaust_iff]
  have hround := round_exhaust idleLineRound_usesText cursor
  generalize cursor.exhaust idleLineRound idleLineRound_usesText = last at hround
  constructor
  · intro idle
    rw [rest_skipSpaces]
    cases idle with
    | spaces spaces => exact spaces.dropWhile_eq
    | line spaces lineBreak _ =>
        rw [← spaces.mark_eq lineBreak, ← rest_skipSpaces] at lineBreak
        exact absurd lineBreak (not_lineBreak_of_idleLineRound hround)
  · intro hend
    have spaces := spaces_skipSpaces last
    rw [hend] at spaces
    exact .spaces spaces

theorem rest_skipTrailingLines_of_idle {cursor : Cursor} (h : Idle cursor.rest) :
    cursor.skipTrailingLines.rest = [] := by
  have hend := (idle_iff_rest_eq_nil cursor).mp h
  simp only [skipTrailingLines, atEnd, List.isEmpty_iff]
  rw [if_pos hend]
  exact hend

theorem skipTrailingLines_of_not_idle {cursor : Cursor} (h : ¬Idle cursor.rest) :
    cursor.skipTrailingLines = cursor := by
  have hend := mt (idle_iff_rest_eq_nil cursor).mpr h
  simp only [skipTrailingLines, atEnd, List.isEmpty_iff]
  rw [if_neg hend]

end Cursor

namespace Scanner

theorem run_lineBreak (cursor : Cursor) :
    lineBreak.run cursor =
      match cursor.idleLineRound with
      | some after => (.ok (), after)
      | none => (.error (cursor.skipSpaces.expected .newline), cursor.skipSpaces) := by
  simp only [lineBreak, run_bind, run_move, run_here, Cursor.idleLineRound]
  generalize cursor.skipSpaces.peek = next
  split
  · rfl
  · rfl
  · split <;> simp_all

theorem run_lineEnd (cursor : Cursor) :
    lineEnd.run cursor =
      match cursor.idleLineRound with
      | some after => (.ok (), after.skipCommentLines.skipTrailingLines)
      | none => (.error (cursor.skipSpaces.expected .newline), cursor.skipSpaces) := by
  simp only [lineEnd, run_bind, run_lineBreak]
  cases cursor.idleLineRound <;> rfl

theorem error_of_lineEnd {cursor after : Cursor} {error : SyntaxError}
    (h : lineEnd.run cursor = (.error error, after)) :
    cursor.idleLineRound = none ∧ after = cursor.skipSpaces ∧ error = after.expected .newline := by
  rw [run_lineEnd] at h
  cases hround : cursor.idleLineRound with
  | some first => simp [hround] at h
  | none =>
      obtain ⟨rfl, rfl⟩ :
          cursor.skipSpaces.expected .newline = error ∧ cursor.skipSpaces = after := by
        simpa [hround] using h
      exact ⟨rfl, rfl, rfl⟩

theorem lineEnd_of_run {cursor after : Cursor} (h : lineEnd.run cursor = (.ok (), after)) :
    LineEnd cursor.rest after.rest ∨ Idle cursor.rest ∧ after.rest = [] := by
  rw [run_lineEnd] at h
  cases hround : cursor.idleLineRound with
  | none => simp [hround] at h
  | some first =>
      obtain rfl : first.skipCommentLines.skipTrailingLines = after := by
        simpa [hround] using h
      have spaces := cursor.spaces_skipSpaces
      have lineBreak := Cursor.lineBreak_of_idleLineRound hround
      have lines := first.commentLines_skipCommentLines
      by_cases hidle : Idle first.skipCommentLines.rest
      · refine .inr ⟨?_, Cursor.rest_skipTrailingLines_of_idle hidle⟩
        exact .line spaces lineBreak (lines.idle hidle)
      · rw [Cursor.skipTrailingLines_of_not_idle hidle]
        exact .inl (.intro spaces lineBreak lines)

theorem run_lineEnd_of_tokenAhead {cursor : Cursor} {rest : List Char}
    (lineEnd : LineEnd cursor.rest rest) (hahead : TokenAhead rest) :
    ∃ after, Scanner.lineEnd.run cursor = (.ok (), after) ∧ Layout rest after.rest := by
  cases lineEnd with
  | intro spaces lineBreak lines =>
      obtain ⟨first, hround, rfl⟩ := Cursor.rest_idleLineRound spaces lineBreak
      have hlines : CommentLines rest first.skipCommentLines.rest :=
        lines.resume first.commentLines_skipCommentLines
          (fun _ _ => Cursor.not_comment_skipCommentLines)
      have hidle := (hahead.of_layout hlines.layout).not_idle
      refine ⟨first.skipCommentLines, ?_, hlines.layout⟩
      rw [run_lineEnd, hround]
      simp only [Cursor.skipTrailingLines_of_not_idle hidle]

theorem run_lineEnd_of_idle {cursor : Cursor} {mark middle : List Char}
    (spaces : Spaces cursor.rest mark) (lineBreak : LineBreak mark middle) (idle : Idle middle) :
    ∃ after, lineEnd.run cursor = (.ok (), after) ∧ after.rest = [] := by
  obtain ⟨first, hround, rfl⟩ := Cursor.rest_idleLineRound spaces lineBreak
  have hidle := idle.of_layout first.commentLines_skipCommentLines.layout
  refine ⟨_, ?_, Cursor.rest_skipTrailingLines_of_idle hidle⟩
  rw [run_lineEnd, hround]

end Scanner

end Lindenmayer
