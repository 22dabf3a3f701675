import Lindenmayer.Proofs.Grammar.Trailing
import Lindenmayer.Proofs.Insertion.Places
import Lindenmayer.Proofs.Reading.Layout

namespace Lindenmayer

open Grammar

theorem IsClosed.length_lt {chars rest lines : List Char} (h : IsClosed lines)
    (happend : chars ++ rest = lines) (hchars : '\n' ∉ chars) : chars.length < lines.length := by
  apply @IsClosed.lt_length lines [] h
  rwa [List.append_nil, ← happend, List.take_left]

namespace Cursor

/-- The same place in a text with more at its end. -/
def extend (cursor : Cursor) (more : List Char) : Cursor :=
  ⟨cursor.rest ++ more, cursor.position⟩

@[simp] theorem rest_extend (cursor : Cursor) (more : List Char) :
    (cursor.extend more).rest = cursor.rest ++ more := rfl

@[simp] theorem position_extend (cursor : Cursor) (more : List Char) :
    (cursor.extend more).position = cursor.position := rfl

@[simp] theorem location_extend (cursor : Cursor) (more : List Char) :
    (cursor.extend more).location = cursor.location := rfl

theorem extend_extend (cursor : Cursor) (first second : List Char) :
    (cursor.extend first).extend second = cursor.extend (first ++ second) := by
  simp [extend]

theorem extend_drop {cursor : Cursor} {count : Nat} (h : count ≤ cursor.rest.length)
    (more : List Char) : (cursor.extend more).drop count = (cursor.drop count).extend more := by
  simp only [drop, extend, List.drop_append_of_le_length h, List.take_append_of_le_length h]

theorem peek_extend {cursor : Cursor} (h : cursor.rest ≠ []) (more : List Char) :
    (cursor.extend more).peek = cursor.peek := by
  obtain ⟨char, rest, hrest⟩ := List.exists_cons_of_ne_nil h
  rw [peek, peek, rest_extend, hrest, List.cons_append, List.head?_cons, List.head?_cons]

theorem extend_next {cursor : Cursor} (h : cursor.rest ≠ []) (more : List Char) :
    (cursor.extend more).next = cursor.next.extend more :=
  extend_drop (List.length_pos_iff.mpr h) more

theorem exists_extend_of_mem {cursor : Cursor} (h : '\n' ∈ cursor.rest) :
    ∃ (lines : Cursor) (last : List Char), IsClosed lines.rest ∧ cursor = lines.extend last := by
  obtain ⟨line, last, hrest, _⟩ := List.eq_append_cons_of_mem h
  refine ⟨⟨line ++ ['\n'], cursor.position⟩, last, ⟨line, rfl⟩, ?_⟩
  rw [extend, List.append_assoc, List.singleton_append, ← hrest]

theorem takeWhile_extend {cursor : Cursor} {accept : Char → Bool} (haccept : accept '\n' = false)
    (h : '\n' ∈ cursor.rest) (more : List Char) :
    (cursor.rest ++ more).takeWhile accept = cursor.rest.takeWhile accept := by
  obtain ⟨lines, last, closed, rfl⟩ := exists_extend_of_mem h
  rw [rest_extend, List.append_assoc, closed.takeWhile_append haccept,
    closed.takeWhile_append haccept]

theorem context_extend {cursor : Cursor} (h : '\n' ∈ cursor.rest) (more : List Char) :
    (cursor.extend more).context = cursor.context := by
  have hline : (cursor.rest ++ more).takeWhile (· ≠ '\n') = cursor.rest.takeWhile (· ≠ '\n') :=
    takeWhile_extend (by decide) h more
  have hfirst : (cursor.rest ++ more).take 1 = cursor.rest.take 1 :=
    List.take_append_of_le_length (List.length_pos_iff.mpr (List.ne_nil_of_mem h))
  simp only [context, rest_extend, hline, hfirst]

theorem expected_extend {cursor : Cursor} (h : '\n' ∈ cursor.rest) (more : List Char)
    (element : Element) : (cursor.extend more).expected element = cursor.expected element := by
  simp only [expected, context_extend h, location_extend]

theorem extend_dropWhile {cursor : Cursor} {accept : Char → Bool} (haccept : accept '\n' = false)
    (h : '\n' ∈ cursor.rest) (more : List Char) :
    (cursor.extend more).dropWhile accept = (cursor.dropWhile accept).extend more := by
  rw [dropWhile, rest_extend, takeWhile_extend haccept h, dropWhile, extend_drop]
  exact (List.takeWhile_prefix accept).length_le

theorem mem_dropWhile {cursor : Cursor} {accept : Char → Bool} (haccept : accept '\n' = false)
    (h : '\n' ∈ cursor.rest) : '\n' ∈ (cursor.dropWhile accept).rest := by
  rw [rest_dropWhile]
  rw [← @List.takeWhile_append_dropWhile _ accept cursor.rest, List.mem_append] at h
  refine h.resolve_left fun hmem => ?_
  have htrue := List.all_eq_true.mp List.all_takeWhile _ hmem
  rw [haccept] at htrue
  contradiction

theorem extend_skipSpaces {cursor : Cursor} (h : '\n' ∈ cursor.rest) (more : List Char) :
    (cursor.extend more).skipSpaces = cursor.skipSpaces.extend more :=
  extend_dropWhile (by decide) h more

theorem mem_skipSpaces {cursor : Cursor} (h : '\n' ∈ cursor.rest) :
    '\n' ∈ cursor.skipSpaces.rest :=
  mem_dropWhile (by decide) h

theorem extend_skipComment {cursor : Cursor} (h : '\n' ∈ cursor.rest)
    (hpeek : cursor.peek = some '#') (more : List Char) :
    (cursor.extend more).skipComment = cursor.skipComment.extend more := by
  have hne : cursor.rest ≠ [] := List.ne_nil_of_mem h
  have hbody : '\n' ∈ cursor.next.rest := by
    obtain ⟨body, hrest⟩ := peek_eq_some_iff.mp hpeek
    rw [hrest] at h
    rw [rest_next, hrest]
    exact (List.mem_cons.mp h).resolve_left (by decide)
  have hskip : (cursor.next.extend more).dropWhile (· ≠ '\n') =
      (cursor.next.dropWhile (· ≠ '\n')).extend more := extend_dropWhile (by decide) hbody more
  have hline : '\n' ∈ (cursor.next.dropWhile (· ≠ '\n')).rest := mem_dropWhile (by decide) hbody
  have hend : (cursor.next.dropWhile (· ≠ '\n')).peek = some '\n' := by
    rw [rest_dropWhile] at hline
    rcases dropWhile_ne_newline cursor.next.rest with hnil | ⟨rest, hrest⟩
    · rw [hnil] at hline
      contradiction
    · exact peek_eq_some_iff.mpr ⟨rest, by rw [rest_dropWhile, hrest]⟩
  simp only [skipComment, peek_extend hne, hpeek, if_true, extend_next hne, hskip,
    peek_extend (List.ne_nil_of_mem hline), hend, extend_next (List.ne_nil_of_mem hline)]

/-- A round that looks at nothing behind the line in which it stands. -/
def LooksInLine (round : Cursor → Option Cursor) : Prop :=
  ∀ cursor : Cursor, '\n' ∈ cursor.rest → ∀ more,
    round (cursor.extend more) = (round cursor).map (·.extend more)

theorem looksInLine_layoutRound : LooksInLine layoutRound := by
  intro cursor h more
  have hne := List.ne_nil_of_mem h
  simp only [layoutRound, peek_extend hne]
  split
  · rw [extend_next hne, Option.map_some]
  · rename_i hpeek
    rw [extend_skipComment h hpeek, Option.map_some]
  · rfl

theorem looksInLine_commentLineRound : LooksInLine commentLineRound := by
  intro cursor h more
  have hspaces := mem_skipSpaces h
  simp only [commentLineRound, extend_skipSpaces h, peek_extend (List.ne_nil_of_mem hspaces)]
  split
  · rename_i hpeek
    rw [extend_skipComment hspaces hpeek, Option.map_some]
  · rfl

theorem looksInLine_idleLineRound : LooksInLine idleLineRound := by
  intro cursor h more
  have hspaces := mem_skipSpaces h
  have hne := List.ne_nil_of_mem hspaces
  simp only [idleLineRound, extend_skipSpaces h, peek_extend hne]
  split
  · rename_i hpeek
    rw [extend_skipComment hspaces hpeek, Option.map_some]
  · rw [extend_next hne, Option.map_some]
  · rfl

theorem LeadsTo.notMem {source target : Cursor} (h : source.LeadsTo target)
    (hsource : '\n' ∉ source.rest) : '\n' ∉ target.rest := by
  obtain ⟨count, rfl⟩ := h
  exact mt List.mem_of_mem_drop hsource

theorem extend_exhaust {round : Cursor → Option Cursor} (h : UsesText round)
    (hround : LooksInLine round) (cursor : Cursor) (more : List Char) :
    '\n' ∉ (cursor.exhaust round h).rest ∨
      (cursor.extend more).exhaust round h = (cursor.exhaust round h).extend more := by
  fun_induction exhaust round h cursor with
  | case1 cursor hnone =>
      by_cases hmem : '\n' ∈ cursor.rest
      · refine .inr (exhaust_of_none h ?_)
        rw [hround cursor hmem, hnone, Option.map_none]
      · exact .inl hmem
  | case2 cursor after hsome ih =>
      by_cases hmem : '\n' ∈ cursor.rest
      · have hmore : round (cursor.extend more) = some (after.extend more) := by
          rw [hround cursor hmem, hsome, Option.map_some]
        rw [exhaust_of_some h hmore]
        exact ih
      · exact .inl (((h cursor after hsome).1.trans (leadsTo_exhaust h after)).notMem hmem)

theorem extend_layoutRound {cursor : Cursor} (h : cursor.rest ≠ []) (more : List Char) :
    (∃ after, layoutRound cursor = some after ∧ after.rest = []) ∨
      layoutRound (cursor.extend more) = (layoutRound cursor).map (·.extend more) := by
  by_cases hmem : '\n' ∈ cursor.rest
  · exact .inr (looksInLine_layoutRound cursor hmem more)
  · simp only [layoutRound, peek_extend h]
    split
    · exact .inr (by rw [extend_next h, Option.map_some])
    · rename_i hpeek
      refine .inl ⟨_, rfl, ?_⟩
      obtain ⟨body, hrest, hafter⟩ := comment_iff.mp (comment_skipComment hpeek)
      rw [hrest, List.mem_cons, not_or] at hmem
      rw [hafter, afterLine_of_notMem hmem.2]
    · exact .inr rfl

theorem extend_skip (cursor : Cursor) (more : List Char) :
    cursor.skip.rest = [] ∨ (cursor.extend more).skip = cursor.skip.extend more := by
  rw [skip, skip]
  fun_induction exhaust layoutRound layoutRound_usesText cursor with
  | case1 cursor hnone =>
      by_cases hrest : cursor.rest = []
      · exact .inl hrest
      · rcases extend_layoutRound hrest more with ⟨after, hsome, _⟩ | hmore
        · rw [hnone] at hsome
          contradiction
        · rw [hnone, Option.map_none] at hmore
          exact .inr (exhaust_of_none _ hmore)
  | case2 cursor after hsome ih =>
      have hrest : cursor.rest ≠ [] := by
        intro hnil
        have hless := (layoutRound_usesText cursor after hsome).2
        simp [hnil] at hless
      rcases extend_layoutRound hrest more with ⟨other, hother, hend⟩ | hmore
      · obtain rfl : after = other := Option.some.inj (hsome.symm.trans hother)
        have hleads := leadsTo_exhaust layoutRound_usesText after
        exact .inl (not_imp_not.mp hleads.ne_nil hend)
      · rw [hsome, Option.map_some] at hmore
        rw [exhaust_of_some _ hmore]
        exact ih

theorem extend_skipCommentLines (cursor : Cursor) (more : List Char) :
    '\n' ∉ cursor.skipCommentLines.rest ∨
      (cursor.extend more).skipCommentLines = cursor.skipCommentLines.extend more :=
  extend_exhaust _ looksInLine_commentLineRound cursor more

theorem extend_skipTrailingLines (cursor : Cursor) (more : List Char) :
    cursor.skipTrailingLines.rest = [] ∨
      (cursor.extend more).skipTrailingLines = cursor.skipTrailingLines.extend more := by
  by_cases hidle : Idle cursor.rest
  · exact .inl (rest_skipTrailingLines_of_idle hidle)
  · have hmore : ¬Idle (cursor.extend more).rest := fun h => hidle (Idle.of_append h)
    refine .inr ?_
    rw [skipTrailingLines_of_not_idle hidle, skipTrailingLines_of_not_idle hmore]

end Cursor

end Lindenmayer
