import Lindenmayer.Proofs.Extension.Layout
import Lindenmayer.Proofs.Faults.Places
import Lindenmayer.Proofs.Insertion.Layout

/-! Ahead of the blank line places belong together; behind it nothing needs to be compared. -/

namespace Lindenmayer

open Grammar Cursor

structure BlankLine where
  border : Position
  spaces : Nat
  after : List Char
  notIdle : ¬Idle after

theorem IsClosed.eq_nil_or_tail {char : Char} {lines : List Char} (h : IsClosed (char :: lines)) :
    lines = [] ∨ IsClosed lines := by
  obtain ⟨line, hline⟩ := h
  cases line with
  | nil => exact .inl (List.cons.inj hline).2
  | cons first line => exact .inr ⟨line, (List.cons.inj hline).2⟩

theorem IsClosed.eq_nil_or_afterLine {lines : List Char} (h : IsClosed lines) :
    afterLine lines = [] ∨ IsClosed (afterLine lines) := by
  have hline : IsClosed (lines.dropWhile (· ≠ '\n')) := h.dropWhile (by decide)
  obtain ⟨char, rest, hrest⟩ := List.exists_cons_of_ne_nil hline.ne_nil
  rw [hrest] at hline
  rw [afterLine, hrest, List.tail_cons]
  exact hline.eq_nil_or_tail

theorem idle_of_lines_append {lines more : List Char} (hlines : lines = [] ∨ IsClosed lines)
    (idle : Idle (lines ++ more)) : Idle more := by
  induction lines using textInduction with
  | nil => exact idle
  | space rest ih =>
      have closed := (hlines.resolve_left (List.cons_ne_nil _ _)).tail (by decide)
      exact ih (.inr closed) (idle_space.mp idle)
  | newline rest ih =>
      have closed := hlines.resolve_left (List.cons_ne_nil _ _)
      exact ih closed.eq_nil_or_tail (idle_newline.mp idle)
  | comment body ih =>
      have closed := (hlines.resolve_left (List.cons_ne_nil _ _)).tail (by decide)
      rw [List.cons_append, idle_comment, afterLine_append_of_mem closed.mem] at idle
      exact ih closed.eq_nil_or_afterLine idle
  | token _ _ h => exact ((startsToken_cons h).not_idle idle).elim

namespace BlankLine

variable {blank : BlankLine} {left right : Cursor}

def front (blank : BlankLine) : Cursor :=
  ⟨List.replicate blank.spaces ' ' ++ '\n' :: blank.after, blank.border⟩

def stop (blank : BlankLine) : Cursor :=
  blank.front.skipSpaces

inductive Ahead (blank : BlankLine) : Cursor → Cursor → Prop
  | intro {lines : Cursor} (closed : IsClosed lines.rest)
      (border : lines.position.advanceOver lines.rest = blank.border) :
      Ahead blank (lines.extend blank.after) (lines.extend blank.front.rest)

def Stalled (blank : BlankLine) (right : Cursor) : Prop :=
  right.skipSpaces = blank.stop

theorem rest_stop (blank : BlankLine) : blank.stop.rest = '\n' :: blank.after := by
  rw [stop, rest_skipSpaces]
  exact (spaces_replicate blank.spaces _).mark_eq .newline

theorem peek_stop (blank : BlankLine) : blank.stop.peek = some '\n' :=
  peek_eq_some_iff.mpr ⟨_, blank.rest_stop⟩

theorem stalled_front (blank : BlankLine) : blank.Stalled blank.front := rfl

theorem stalled_stop (blank : BlankLine) : blank.Stalled blank.stop :=
  Insertion.skipSpaces_of_ne (peek_skipSpaces _)

theorem not_idle_front (blank : BlankLine) : ¬Idle blank.front.rest := by
  intro idle
  have hstop := idle.of_layout (spaces_replicate blank.spaces _).layout
  exact blank.notIdle (idle_newline.mp hstop)

theorem Stalled.not_idle (h : blank.Stalled right) : ¬Idle right.rest := by
  intro idle
  have hstop := idle.of_layout (right.spaces_skipSpaces).layout
  rw [h, blank.rest_stop] at hstop
  exact blank.notIdle (idle_newline.mp hstop)

theorem Ahead.not_idle (h : blank.Ahead left right) : ¬Idle left.rest ∧ ¬Idle right.rest := by
  cases h with
  | intro closed _ =>
      exact ⟨mt (idle_of_lines_append (.inr closed)) blank.notIdle,
        mt (idle_of_lines_append (.inr closed)) blank.not_idle_front⟩

theorem not_idle_ne_nil {source : List Char} (h : ¬Idle source) : source ≠ [] := by
  rintro rfl
  exact h (.spaces .done)

theorem Stalled.skip {right : Cursor} (h : blank.Stalled right) : right.skip = blank.stop := by
  by_cases hpeek : right.peek = some ' '
  · have hround : right.layoutRound = some right.next := by simp only [layoutRound, hpeek]
    have hnext : blank.Stalled right.next := by
      rwa [Stalled, ← Insertion.skipSpaces_of_space hpeek]
    rw [Cursor.skip, exhaust_of_some _ hround]
    exact Stalled.skip hnext
  · rw [Stalled, Insertion.skipSpaces_of_ne hpeek] at h
    subst h
    have hround : blank.stop.layoutRound = none := by
      rw [layoutRound, peek_stop]
      rfl
    exact exhaust_of_none _ hround
termination_by right.rest.length
decreasing_by exact length_next_lt hpeek

theorem Stalled.skipCommentLines (h : blank.Stalled right) : right.skipCommentLines = right := by
  refine exhaust_of_none _ ?_
  rw [commentLineRound, h, peek_stop, if_neg (by decide)]

theorem Ahead.drop {lines : Cursor} (closed : IsClosed lines.rest)
    (border : lines.position.advanceOver lines.rest = blank.border) {count : Nat}
    (h : count < lines.rest.length) :
    blank.Ahead ((lines.drop count).extend blank.after)
      ((lines.drop count).extend blank.front.rest) := by
  refine .intro (closed.drop h) ?_
  rw [position_drop, rest_drop, ← Position.advanceOver_append, List.take_append_drop, border]

theorem Ahead.peek_eq (h : blank.Ahead left right) : right.peek = left.peek := by
  cases h with
  | intro closed _ => rw [peek_extend closed.ne_nil, peek_extend closed.ne_nil]

theorem Ahead.next (h : blank.Ahead left right) {char : Char} (hpeek : left.peek = some char)
    (hne : char ≠ '\n') : blank.Ahead left.next right.next := by
  cases h with
  | @intro lines closed border =>
      rw [peek_extend closed.ne_nil] at hpeek
      obtain ⟨rest, hrest⟩ := peek_eq_some_iff.mp hpeek
      have hlength : 1 < lines.rest.length :=
        @IsClosed.length_lt [char] rest _ closed hrest.symm (mt List.mem_singleton.mp (Ne.symm hne))
      rw [extend_next closed.ne_nil, extend_next closed.ne_nil]
      exact .drop closed border hlength

theorem Ahead.round {round : Cursor → Option Cursor} (hround : UsesText round)
    (hlooks : LooksInLine round) (h : blank.Ahead left right) :
    (round left = none ∧ round right = none) ∨
      ∃ after other, round left = some after ∧ round right = some other ∧
        (blank.Ahead after other ∨ other = blank.front) := by
  cases h with
  | @intro lines closed border =>
      have hmore := hlooks lines closed.mem
      rw [hmore, hmore]
      cases hlines : round lines with
      | none => exact .inl ⟨rfl, rfl⟩
      | some after =>
          refine .inr ⟨after.extend blank.after, after.extend blank.front.rest, rfl, rfl, ?_⟩
          obtain ⟨count, rfl⟩ := (hround lines after hlines).1
          by_cases hcount : count < lines.rest.length
          · exact .inl (.drop closed border hcount)
          · have hle := Nat.le_of_not_lt hcount
            refine .inr ?_
            rw [extend, rest_drop, position_drop, List.drop_eq_nil_of_le hle,
              List.take_of_length_le hle, border]
            rfl

theorem Ahead.exhaust {round : Cursor → Option Cursor} (hround : UsesText round)
    (hlooks : LooksInLine round) {left right : Cursor} (h : blank.Ahead left right) :
    blank.Ahead (left.exhaust round hround) (right.exhaust round hround) ∨
      right.exhaust round hround = blank.front.exhaust round hround := by
  rcases h.round hround hlooks with ⟨hleft, hright⟩ | ⟨after, other, hleft, hright, hnext⟩
  · rw [exhaust_of_none hround hleft, exhaust_of_none hround hright]
    exact .inl h
  · rw [exhaust_of_some hround hleft, exhaust_of_some hround hright]
    rcases hnext with hnext | rfl
    · exact Ahead.exhaust hround hlooks hnext
    · exact .inr rfl
termination_by right.rest.length
decreasing_by exact (hround right other hright).2

theorem Ahead.skip (h : blank.Ahead left right) :
    blank.Ahead left.skip right.skip ∨ right.skip = blank.stop :=
  (h.exhaust layoutRound_usesText looksInLine_layoutRound).imp_right
    fun hfront => hfront.trans (Stalled.skip blank.stalled_front)

theorem Ahead.skipCommentLines (h : blank.Ahead left right) :
    blank.Ahead left.skipCommentLines right.skipCommentLines ∨
      blank.Stalled right.skipCommentLines := by
  refine (h.exhaust commentLineRound_usesText looksInLine_commentLineRound).imp_right
    fun hfront => ?_
  have hright : right.skipCommentLines = blank.front :=
    hfront.trans (Stalled.skipCommentLines blank.stalled_front)
  rw [hright]
  exact blank.stalled_front

theorem stop_eq (blank : BlankLine) : blank.stop = blank.front.drop blank.spaces := by
  have hspaces : blank.front.rest.takeWhile (· = ' ') = List.replicate blank.spaces ' ' := by
    rw [front, List.takeWhile_append_of_pos (by simp), List.takeWhile_cons_of_neg (by decide),
      List.append_nil]
  rw [stop, Cursor.skipSpaces, Cursor.dropWhile, hspaces, List.length_replicate]

theorem context_stop (blank : BlankLine) : blank.stop.context = ['\n'] := by
  simp [context, blank.rest_stop]

def behind (before after : List Char) (spaces : Nat) (h : ¬Idle after) : BlankLine :=
  ⟨Position.start.advanceOver before, spaces, after, h⟩

theorem column_behind {before : List Char} (h : before = [] ∨ IsClosed before) :
    (Location.behind before).column = 1 := by
  rcases h with rfl | ⟨line, rfl⟩
  · rfl
  · rw [Location.behind, List.rtakeWhile_concat, if_neg (by decide), List.length_nil]

theorem location_stop {before after : List Char} {spaces : Nat} (h : ¬Idle after)
    (hbefore : before = [] ∨ IsClosed before) :
    (behind before after spaces h).stop.location =
      ⟨none, 1 + before.count '\n', spaces + 1⟩ := by
  have hnewline : '\n' ∉ List.replicate spaces ' ' := by simp [List.mem_replicate]
  have hposition : (behind before after spaces h).stop.position =
      Position.start.advanceOver (before ++ List.replicate spaces ' ') := by
    rw [stop_eq, position_drop, Position.advanceOver_append]
    congr 1
    exact List.take_left' (List.length_replicate)
  obtain ⟨hline, hcolumn⟩ := Position.advanceOver_start (before ++ List.replicate spaces ' ')
  rw [Location.line_behind_append, List.count_eq_zero.mpr hnewline] at hline
  rw [Location.column_behind_append hnewline, column_behind hbefore, List.length_replicate] at hcolumn
  rw [location, hposition, hline, hcolumn, Nat.add_comm 1 spaces]
  rfl

end BlankLine

end Lindenmayer
