import Lindenmayer.Cursor

/-! Each loop repeats a round that either leaves the loop or uses text up. -/

namespace Lindenmayer

namespace Cursor

def UsesText (round : Cursor → Option Cursor) : Prop :=
  ∀ cursor after, round cursor = some after →
    cursor.LeadsTo after ∧ after.rest.length < cursor.rest.length

def exhaust (round : Cursor → Option Cursor) (h : UsesText round) (cursor : Cursor) : Cursor :=
  match _hround : round cursor with
  | none => cursor
  | some after => exhaust round h after
termination_by cursor.rest.length
decreasing_by exact (h cursor after _hround).2

theorem exhaust_of_none {round : Cursor → Option Cursor} (h : UsesText round) {cursor : Cursor}
    (hround : round cursor = none) : exhaust round h cursor = cursor := by
  rw [exhaust]
  split
  · rfl
  · simp_all

theorem exhaust_of_some {round : Cursor → Option Cursor} (h : UsesText round)
    {cursor after : Cursor} (hround : round cursor = some after) :
    exhaust round h cursor = exhaust round h after := by
  rw [exhaust]
  split
  · simp_all
  · simp_all

theorem leadsTo_exhaust {round : Cursor → Option Cursor} (h : UsesText round)
    (cursor : Cursor) : cursor.LeadsTo (exhaust round h cursor) := by
  fun_induction exhaust round h cursor with
  | case1 cursor => exact .refl cursor
  | case2 cursor after hround ih => exact (h cursor after hround).1.trans ih

def skipSpaces (cursor : Cursor) : Cursor :=
  cursor.dropWhile (· = ' ')

/-- A comment from its number sign through the end of its line. -/
def skipComment (cursor : Cursor) : Cursor :=
  let body := if cursor.peek = some '#' then cursor.next else cursor
  let lineEnd := body.dropWhile (· ≠ '\n')
  if lineEnd.peek = some '\n' then lineEnd.next else lineEnd

theorem leadsTo_skipSpaces (cursor : Cursor) : cursor.LeadsTo cursor.skipSpaces :=
  cursor.leadsTo_dropWhile _

theorem leadsTo_lineRest (cursor : Cursor) :
    cursor.LeadsTo
      (if (cursor.dropWhile (· ≠ '\n')).peek = some '\n' then (cursor.dropWhile (· ≠ '\n')).next
      else cursor.dropWhile (· ≠ '\n')) := by
  split
  · exact (cursor.leadsTo_dropWhile _).trans (leadsTo_next _)
  · exact cursor.leadsTo_dropWhile _

theorem leadsTo_skipComment (cursor : Cursor) : cursor.LeadsTo cursor.skipComment := by
  simp only [skipComment]
  refine LeadsTo.trans ?_ (leadsTo_lineRest _)
  split
  · exact leadsTo_next cursor
  · exact .refl cursor

theorem length_skipComment_lt {cursor : Cursor} (h : cursor.peek = some '#') :
    cursor.skipComment.rest.length < cursor.rest.length := by
  simp only [skipComment, h, if_true]
  exact Nat.lt_of_le_of_lt (leadsTo_lineRest cursor.next).length_le (length_next_lt h)

def layoutRound (cursor : Cursor) : Option Cursor :=
  match cursor.peek with
  | some ' ' => some cursor.next
  | some '#' => some cursor.skipComment
  | _ => none

theorem layoutRound_usesText : UsesText layoutRound := by
  intro cursor after h
  unfold layoutRound at h
  split at h
  · rename_i hpeek
    obtain rfl := Option.some.inj h
    exact ⟨leadsTo_next cursor, length_next_lt hpeek⟩
  · rename_i hpeek
    obtain rfl := Option.some.inj h
    exact ⟨leadsTo_skipComment cursor, length_skipComment_lt hpeek⟩
  · contradiction

/-- Spaces and comments between two tokens. A line end outside of comments is left alone. -/
def skip (cursor : Cursor) : Cursor :=
  cursor.exhaust layoutRound layoutRound_usesText

/-- One line that holds nothing but a comment. -/
def commentLineRound (cursor : Cursor) : Option Cursor :=
  if cursor.skipSpaces.peek = some '#' then some cursor.skipSpaces.skipComment else none

theorem commentLineRound_usesText : UsesText commentLineRound := by
  intro cursor after h
  unfold commentLineRound at h
  split at h
  · rename_i hpeek
    obtain rfl := Option.some.inj h
    exact ⟨(leadsTo_skipSpaces cursor).trans (leadsTo_skipComment _),
      Nat.lt_of_lt_of_le (length_skipComment_lt hpeek) (leadsTo_skipSpaces cursor).length_le⟩
  · contradiction

def skipCommentLines (cursor : Cursor) : Cursor :=
  cursor.exhaust commentLineRound commentLineRound_usesText

/-- One line that holds nothing, or nothing but a comment. -/
def idleLineRound (cursor : Cursor) : Option Cursor :=
  match cursor.skipSpaces.peek with
  | some '#' => some cursor.skipSpaces.skipComment
  | some '\n' => some cursor.skipSpaces.next
  | _ => none

theorem idleLineRound_usesText : UsesText idleLineRound := by
  intro cursor after h
  unfold idleLineRound at h
  split at h
  · rename_i hpeek
    obtain rfl := Option.some.inj h
    exact ⟨(leadsTo_skipSpaces cursor).trans (leadsTo_skipComment _),
      Nat.lt_of_lt_of_le (length_skipComment_lt hpeek) (leadsTo_skipSpaces cursor).length_le⟩
  · rename_i hpeek
    obtain rfl := Option.some.inj h
    exact ⟨(leadsTo_skipSpaces cursor).trans (leadsTo_next _),
      Nat.lt_of_lt_of_le (length_next_lt hpeek) (leadsTo_skipSpaces cursor).length_le⟩
  · contradiction

/-- All that is left, if it is idle lines and spaces; nothing otherwise. -/
def skipTrailingLines (cursor : Cursor) : Cursor :=
  let last := (cursor.exhaust idleLineRound idleLineRound_usesText).skipSpaces
  if last.atEnd then last else cursor

theorem leadsTo_skip (cursor : Cursor) : cursor.LeadsTo cursor.skip :=
  leadsTo_exhaust _ cursor

theorem leadsTo_skipCommentLines (cursor : Cursor) : cursor.LeadsTo cursor.skipCommentLines :=
  leadsTo_exhaust _ cursor

theorem leadsTo_skipTrailingLines (cursor : Cursor) :
    cursor.LeadsTo cursor.skipTrailingLines := by
  simp only [skipTrailingLines]
  split
  · exact (leadsTo_exhaust _ cursor).trans (leadsTo_skipSpaces _)
  · exact .refl cursor

end Cursor

end Lindenmayer
