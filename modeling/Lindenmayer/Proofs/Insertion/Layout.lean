import Lindenmayer.Proofs.Insertion.Places

/-! A loop may stand at the border while its partner passes over the comment line. -/

namespace Lindenmayer

open Cursor

namespace Insertion

variable {insertion : Insertion} {left right : Cursor}

theorem Beside.next_of_ne (h : insertion.Beside left right) {char : Char}
    (hpeek : left.peek = some char) (hne : char ≠ '\n') :
    insertion.Beside left.next right.next := by
  obtain ⟨rest, hrest⟩ := List.head?_eq_some_iff.mp hpeek
  apply h.drop
  rw [hrest, List.take_succ_cons, List.take_zero, List.mem_singleton]
  exact Ne.symm hne

theorem Beside.skipSpaces (h : insertion.Beside left right) :
    insertion.Beside left.skipSpaces right.skipSpaces :=
  h.dropWhile (by decide)

theorem Beside.skipComment (h : insertion.Beside left right) (hpeek : left.peek = some '#') :
    insertion.Near left.skipComment right.skipComment := by
  have hright := h.peek_eq.trans hpeek
  have hline : insertion.Beside (left.next.dropWhile (· ≠ '\n'))
      (right.next.dropWhile (· ≠ '\n')) :=
    (h.next_of_ne hpeek (by decide)).dropWhile (by decide)
  simp only [Cursor.skipComment, hpeek, hright, if_true]
  by_cases hend : (left.next.dropWhile (· ≠ '\n')).peek = some '\n'
  · rw [if_pos hend, if_pos (hline.peek_eq.trans hend)]
    exact hline.next
  · rw [if_neg hend, if_neg (by rwa [hline.peek_eq])]
    exact .inl hline

theorem takeWhile_ne_newline {body : List Char} (h : '\n' ∉ body) (rest : List Char) :
    (body ++ '\n' :: rest).takeWhile (· ≠ '\n') = body := by
  induction body with
  | nil => rfl
  | cons char body ih =>
      rw [List.mem_cons, not_or] at h
      rw [List.cons_append, List.takeWhile_cons, if_pos (by simpa using Ne.symm h.1), ih h.2]

theorem skipComment_eq_drop {cursor : Cursor} {body rest : List Char}
    (h : cursor.rest = '#' :: (body ++ '\n' :: rest)) (hbody : '\n' ∉ body) :
    cursor.skipComment = cursor.drop (body.length + 2) := by
  have hnext : cursor.next.rest = body ++ '\n' :: rest := by rw [Cursor.rest_next, h, List.tail_cons]
  have hline : cursor.next.dropWhile (· ≠ '\n') = cursor.drop (1 + body.length) := by
    rw [Cursor.dropWhile, hnext, takeWhile_ne_newline hbody, Cursor.next, Cursor.drop_drop]
  have hend : (cursor.drop (1 + body.length)).peek = some '\n' := by
    rw [Cursor.peek, Cursor.rest_drop, ← List.drop_drop, h, List.drop_one, List.tail_cons,
      List.drop_left]
    rfl
  have hmark : cursor.peek = some '#' := by rw [Cursor.peek, h, List.head?_cons]
  have hskip : cursor.skipComment =
      if (cursor.next.dropWhile (· ≠ '\n')).peek = some '\n' then
        (cursor.next.dropWhile (· ≠ '\n')).next
      else cursor.next.dropWhile (· ≠ '\n') := by
    simp only [Cursor.skipComment, hmark, if_true]
  rw [hskip, hline, if_pos hend, Cursor.next, Cursor.drop_drop]
  congr 1
  omega

theorem skipSpaces_of_space {cursor : Cursor} (h : cursor.peek = some ' ') :
    cursor.skipSpaces = cursor.next.skipSpaces := by
  obtain ⟨rest, hrest⟩ := List.head?_eq_some_iff.mp h
  have hspaces : cursor.rest.takeWhile (· = ' ') = ' ' :: rest.takeWhile (· = ' ') := by
    rw [hrest]
    rfl
  rw [Cursor.skipSpaces, Cursor.skipSpaces, Cursor.dropWhile, Cursor.dropWhile, hspaces,
    Cursor.rest_next, hrest, Cursor.next, Cursor.drop_drop, List.tail_cons, List.length_cons,
    Nat.add_comm]

theorem skipSpaces_of_ne {cursor : Cursor} (h : cursor.peek ≠ some ' ') :
    cursor.skipSpaces = cursor := by
  rw [Cursor.skipSpaces, Cursor.dropWhile]
  cases hrest : cursor.rest with
  | nil => rfl
  | cons char rest =>
      have hchar : char ≠ ' ' := by
        rintro rfl
        exact h (by rw [Cursor.peek, hrest, List.head?_cons])
      rw [List.takeWhile_cons_of_neg (by simpa using hchar)]
      rfl

theorem Facing.peek_right (h : insertion.Facing left right) :
    right.peek = some ' ' ∨ right.peek = some '#' := by
  cases h with
  | intro line _ other _ _ =>
      rw [Cursor.peek, other]
      cases line with
      | space _ => exact .inl rfl
      | comment _ => exact .inr rfl

theorem Facing.next_right (h : insertion.Facing left right) (hpeek : right.peek = some ' ') :
    insertion.Facing left right.next := by
  cases h with
  | intro line rest other below reaches =>
      cases line with
      | space line =>
          refine .intro line rest ?_ ?_ reaches
          · rw [Cursor.rest_next, other]
            rfl
          · rw [Cursor.next, Cursor.position_drop, other]
            exact below
      | comment _ =>
          rw [Cursor.peek, other] at hpeek
          simp at hpeek

theorem Facing.skipComment_right (h : insertion.Facing left right) (hpeek : right.peek = some '#') :
    insertion.Beside left right.skipComment := by
  cases h with
  | intro line rest other below reaches =>
      cases line with
      | space _ =>
          rw [Cursor.peek, other] at hpeek
          simp at hpeek
      | @comment body hbody =>
          have hrest : right.rest = '#' :: (body ++ '\n' :: insertion.after) := by
            rw [other, List.cons_append, List.append_assoc]
            rfl
          have hgap : right.rest.take (body.length + 2) = '#' :: (body ++ ['\n']) := by
            rw [other]
            exact List.take_left' (by simp)
          rw [skipComment_eq_drop hrest hbody]
          refine .behind ⟨?_, ?_, reaches⟩
          · rw [Cursor.rest_drop, other, rest]
            exact List.drop_left' (by simp)
          · rw [Cursor.position_drop, hgap]
            exact below

theorem Facing.skipSpaces_right {left right : Cursor} (h : insertion.Facing left right) :
    insertion.Facing left right.skipSpaces ∧ right.skipSpaces.peek = some '#' := by
  rcases h.peek_right with hspace | hmark
  · rw [skipSpaces_of_space hspace]
    exact Facing.skipSpaces_right (h.next_right hspace)
  · have hne : right.peek ≠ some ' ' := by
      rw [hmark]
      decide
    rw [skipSpaces_of_ne hne]
    exact ⟨h, hmark⟩
termination_by right.rest.length
decreasing_by exact length_next_lt hspace

/-- A loop brings places together again if its round goes on alike from places that belong
together, and goes on in front of the comment line. -/
theorem beside_exhaust {left right : Cursor} {round : Cursor → Option Cursor}
    (hround : UsesText round)
    (hbeside : ∀ left right, insertion.Beside left right →
      (round left = none ∧ round right = none) ∨
        ∃ after other, round left = some after ∧ round right = some other ∧
          insertion.Near after other)
    (hfacing : ∀ left right, insertion.Facing left right →
      ∃ other, round right = some other ∧ insertion.Near left other)
    (h : insertion.Near left right) :
    insertion.Beside (left.exhaust round hround) (right.exhaust round hround) := by
  rcases h with h | h
  · rcases hbeside left right h with ⟨hleft, hright⟩ | ⟨after, other, hleft, hright, hnear⟩
    · rw [exhaust_of_none hround hleft, exhaust_of_none hround hright]
      exact h
    · rw [exhaust_of_some hround hleft, exhaust_of_some hround hright]
      exact beside_exhaust hround hbeside hfacing hnear
  · obtain ⟨other, hright, hnear⟩ := hfacing left right h
    rw [exhaust_of_some hround hright]
    exact beside_exhaust hround hbeside hfacing hnear
termination_by right.rest.length
decreasing_by
  · exact (hround right other hright).2
  · exact (hround right other hright).2

theorem Near.skip (h : insertion.Near left right) : insertion.Beside left.skip right.skip := by
  refine beside_exhaust layoutRound_usesText (fun left right h => ?_) (fun left right h => ?_) h
  · unfold layoutRound
    rw [h.peek_eq]
    split
    · rename_i hpeek
      exact .inr ⟨_, _, rfl, rfl, .inl (h.next_of_ne hpeek (by decide))⟩
    · rename_i hpeek
      exact .inr ⟨_, _, rfl, rfl, h.skipComment hpeek⟩
    · exact .inl ⟨rfl, rfl⟩
  · unfold layoutRound
    rcases h.peek_right with hpeek | hpeek
    · rw [hpeek]
      exact ⟨_, rfl, .inr (h.next_right hpeek)⟩
    · rw [hpeek]
      exact ⟨_, rfl, .inl (h.skipComment_right hpeek)⟩

theorem Near.skipCommentLines (h : insertion.Near left right) :
    insertion.Beside left.skipCommentLines right.skipCommentLines := by
  refine beside_exhaust commentLineRound_usesText (fun left right h => ?_)
    (fun left right h => ?_) h
  · have hspaces := h.skipSpaces
    unfold commentLineRound
    rw [hspaces.peek_eq]
    split
    · rename_i hpeek
      exact .inr ⟨_, _, rfl, rfl, hspaces.skipComment hpeek⟩
    · exact .inl ⟨rfl, rfl⟩
  · obtain ⟨hfacing, hpeek⟩ := h.skipSpaces_right
    unfold commentLineRound
    rw [if_pos hpeek]
    exact ⟨_, rfl, .inl (hfacing.skipComment_right hpeek)⟩

theorem Beside.idleLineRound (h : insertion.Beside left right) :
    (left.idleLineRound = none ∧ right.idleLineRound = none) ∨
      ∃ after other, left.idleLineRound = some after ∧ right.idleLineRound = some other ∧
        insertion.Near after other := by
  have hspaces := h.skipSpaces
  unfold Cursor.idleLineRound
  rw [hspaces.peek_eq]
  split
  · rename_i hpeek
    exact .inr ⟨_, _, rfl, rfl, hspaces.skipComment hpeek⟩
  · exact .inr ⟨_, _, rfl, rfl, hspaces.next⟩
  · exact .inl ⟨rfl, rfl⟩

theorem Beside.skipTrailingLines (h : insertion.Beside left right) :
    insertion.Beside left.skipTrailingLines right.skipTrailingLines := by
  have hidle := beside_exhaust idleLineRound_usesText (fun _ _ h => h.idleLineRound)
    (fun left right h => ?_) (.inl h)
  · have hlast := hidle.skipSpaces
    simp only [Cursor.skipTrailingLines, hlast.atEnd_eq]
    split
    · exact hlast
    · exact h
  · obtain ⟨hfacing, hpeek⟩ := h.skipSpaces_right
    unfold Cursor.idleLineRound
    rw [hpeek]
    exact ⟨_, rfl, .inl (hfacing.skipComment_right hpeek)⟩

end Insertion

end Lindenmayer
