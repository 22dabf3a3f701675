import Mathlib.Data.List.DropRight
import Lindenmayer.Cursor

/-! A place parts the text in two; its line and column are counted in the text in front of it. -/

namespace Lindenmayer

namespace Location

/-- The place behind some text: one more than its line ends, and one more than the characters of
its last line. -/
def behind (before : List Char) : Location :=
  ⟨none, 1 + before.count '\n', 1 + (before.rtakeWhile (· ≠ '\n')).length⟩

theorem line_behind_append (before more : List Char) :
    (behind (before ++ more)).line = (behind before).line + more.count '\n' := by
  simp only [behind, List.count_append, Nat.add_assoc]

theorem column_behind_append {more : List Char} (h : '\n' ∉ more) (before : List Char) :
    (behind (before ++ more)).column = (behind before).column + more.length := by
  induction more using List.reverseRecOn with
  | nil => simp
  | append_singleton more char ih =>
      rw [List.mem_append, not_or, List.mem_singleton] at h
      have hchar : decide (char ≠ '\n') = true := decide_eq_true (Ne.symm h.2)
      have hcolumn := ih h.1
      simp only [behind] at hcolumn ⊢
      rw [← List.append_assoc, List.rtakeWhile_concat, if_pos hchar, List.length_append,
        List.length_append, List.length_singleton]
      omega

theorem eq_nil_of_behind_append {before more : List Char}
    (h : behind (before ++ more) = behind before) : more = [] := by
  have hline := congrArg line h
  rw [line_behind_append, Nat.add_eq_left, List.count_eq_zero] at hline
  have hcolumn := congrArg column h
  rw [column_behind_append hline, Nat.add_eq_left] at hcolumn
  exact List.length_eq_zero_iff.mp hcolumn

theorem eq_of_behind_eq {before after other otherAfter : List Char}
    (htext : before ++ after = other ++ otherAfter) (h : behind before = behind other) :
    before = other ∧ after = otherAfter := by
  rcases List.append_eq_append_iff.mp htext with ⟨more, rfl, rfl⟩ | ⟨more, rfl, rfl⟩
  · obtain rfl := eq_nil_of_behind_append h.symm
    simp
  · obtain rfl := eq_nil_of_behind_append h
    simp

end Location

theorem Position.advanceOver_start (before : List Char) :
    (start.advanceOver before).line = (Location.behind before).line ∧
      (start.advanceOver before).column = (Location.behind before).column := by
  induction before using List.reverseRecOn with
  | nil => exact ⟨rfl, rfl⟩
  | append_singleton before char ih =>
      rw [advanceOver_append, advanceOver_cons, advanceOver_nil, advance]
      by_cases hchar : char = '\n'
      · subst hchar
        rw [if_pos rfl, Location.line_behind_append, ih.1, Location.behind, Location.behind,
          List.rtakeWhile_concat, if_neg (by decide)]
        exact ⟨rfl, rfl⟩
      · have hmem : '\n' ∉ [char] := by
          rw [List.mem_singleton]
          exact Ne.symm hchar
        rw [if_neg hchar, Location.line_behind_append, Location.column_behind_append hmem, ih.1,
          ih.2, List.count_eq_zero.mpr hmem]
        exact ⟨rfl, rfl⟩

theorem Position.offset_advanceOver (position : Position) (chars : List Char) :
    (position.advanceOver chars).offset =
      position.offset + (String.ofList chars).utf8ByteSize := by
  induction chars generalizing position with
  | nil => rfl
  | cons char chars ih =>
      rw [advanceOver_cons, ih, String.ofList_cons, String.utf8ByteSize_append,
        String.utf8ByteSize_singleton, ← Nat.add_assoc]
      unfold advance
      split
      · rfl
      · rfl

namespace Cursor

theorem exists_split_of_leadsTo {text : List Char} {place : Cursor}
    (h : (ofChars text).LeadsTo place) :
    ∃ before, text = before ++ place.rest ∧ place.location = .behind before := by
  obtain ⟨count, rfl⟩ := h
  obtain ⟨hline, hcolumn⟩ := Position.advanceOver_start (text.take count)
  refine ⟨text.take count, (List.take_append_drop count text).symm, ?_⟩
  rw [location, position_drop]
  exact congrArg₂ (Location.mk none) hline hcolumn

theorem LeadsTo.offset_le {source target : Cursor} (h : source.LeadsTo target) :
    source.position.offset ≤ target.position.offset := by
  obtain ⟨count, rfl⟩ := h
  rw [position_drop, Position.offset_advanceOver]
  exact Nat.le_add_right _ _

theorem LeadsTo.offset_lt {source target : Cursor} (h : source.LeadsTo target)
    (hlength : target.rest.length < source.rest.length) :
    source.position.offset < target.position.offset := by
  obtain ⟨count, rfl⟩ := h
  have hne : String.ofList (source.rest.take count) ≠ "" := by
    intro hempty
    have htake := String.toList_eq_nil_iff.mpr hempty
    rw [String.toList_ofList, List.take_eq_nil_iff] at htake
    rcases htake with rfl | hnil
    · exact Nat.lt_irrefl _ hlength
    · rw [hnil] at hlength
      exact absurd hlength (Nat.not_lt_zero _)
  rw [position_drop, Position.offset_advanceOver]
  exact Nat.lt_add_of_pos_right (Nat.pos_of_ne_zero (mt String.utf8ByteSize_eq_zero_iff.mp hne))

theorem rest_eq_of_location_eq {before after : List Char} {place : Cursor}
    (h : (ofChars (before ++ after)).LeadsTo place) (hplace : place.location = .behind before) :
    place.rest = after := by
  obtain ⟨other, htext, hother⟩ := exists_split_of_leadsTo h
  exact (Location.eq_of_behind_eq htext (hplace.symm.trans hother)).2.symm

end Cursor

end Lindenmayer
