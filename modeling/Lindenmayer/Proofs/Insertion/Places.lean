import Mathlib.Data.List.TakeWhile
import Lindenmayer.Layout

/-! In front of the comment line places are the same, and behind it one is a line further down. -/

namespace Lindenmayer

/-- Spaces, a number sign, any text, and the end of the line. -/
inductive IsCommentLine : List Char → Prop
  | space {rest : List Char} (line : IsCommentLine rest) : IsCommentLine (' ' :: rest)
  | comment {body : List Char} (h : '\n' ∉ body) : IsCommentLine ('#' :: (body ++ ['\n']))

def Location.IsBefore (location : Location) (border : Position) : Prop :=
  location.line < border.line ∨ location.line = border.line ∧ location.column < border.column

instance (location : Location) (border : Position) : Decidable (location.IsBefore border) :=
  inferInstanceAs (Decidable (_ ∨ _))

def Location.below (location : Location) : Location :=
  { location with line := location.line + 1 }

namespace Position

structure Below (upper lower : Position) : Prop where
  line : lower.line = upper.line + 1
  column : lower.column = upper.column

theorem Below.advance {upper lower : Position} (h : Below upper lower) (char : Char) :
    Below (upper.advance char) (lower.advance char) := by
  unfold Position.advance
  split
  · exact ⟨congrArg (· + 1) h.line, rfl⟩
  · exact ⟨h.line, congrArg (· + 1) h.column⟩

theorem Below.advanceOver {upper lower : Position} (h : Below upper lower) (chars : List Char) :
    Below (upper.advanceOver chars) (lower.advanceOver chars) := by
  induction chars generalizing upper lower with
  | nil => exact h
  | cons char chars ih => exact ih (h.advance char)

theorem line_le_advanceOver (position : Position) (chars : List Char) :
    position.line ≤ (position.advanceOver chars).line := by
  induction chars generalizing position with
  | nil => exact Nat.le_refl _
  | cons char chars ih =>
      refine Nat.le_trans ?_ (ih (position.advance char))
      unfold advance
      split
      · exact Nat.le_succ _
      · exact Nat.le_refl _

theorem advance_newline (position : Position) :
    position.advance '\n' = ⟨position.offset + '\n'.utf8Size, position.line + 1, 1⟩ :=
  if_pos rfl

theorem line_advanceOver_of_notMem {chars : List Char} (h : '\n' ∉ chars) (position : Position) :
    (position.advanceOver chars).line = position.line := by
  induction chars generalizing position with
  | nil => rfl
  | cons char chars ih =>
      rw [List.mem_cons, not_or] at h
      obtain ⟨hchar, hchars⟩ := h
      rw [advanceOver_cons, ih hchars, advance, if_neg (Ne.symm hchar)]

theorem advanceOver_commentLine {line : List Char} (h : IsCommentLine line) (position : Position) :
    (position.advanceOver line).line = position.line + 1 ∧
      (position.advanceOver line).column = 1 := by
  induction h generalizing position with
  | space _ ih =>
      obtain ⟨hline, hcolumn⟩ := ih (position.advance ' ')
      exact ⟨hline, hcolumn⟩
  | @comment body hbody =>
      have hmark : '\n' ∉ '#' :: body := by
        rw [List.mem_cons, not_or]
        exact ⟨by decide, hbody⟩
      rw [← List.cons_append, advanceOver_append, advanceOver_cons, advance_newline,
        line_advanceOver_of_notMem hmark]
      exact ⟨rfl, rfl⟩

/-- A position at the border or behind it. -/
def Reaches (position border : Position) : Prop :=
  border.line < position.line ∨ border.line = position.line ∧ border.column ≤ position.column

theorem reaches_self (border : Position) : border.Reaches border :=
  .inr ⟨rfl, Nat.le_refl _⟩

theorem Reaches.advanceOver {position border : Position} (h : position.Reaches border)
    (chars : List Char) : (position.advanceOver chars).Reaches border := by
  induction chars generalizing position with
  | nil => exact h
  | cons char chars ih =>
      apply ih
      rw [Reaches, advance] at *
      split
      · rcases h with hline | ⟨hline, _⟩
        · exact .inl (Nat.lt_succ_of_lt hline)
        · exact .inl (hline ▸ Nat.lt_succ_self _)
      · rcases h with hline | ⟨hline, hcolumn⟩
        · exact .inl hline
        · exact .inr ⟨hline, Nat.le_succ_of_le hcolumn⟩

end Position

theorem Cursor.location_isBefore_iff {cursor : Cursor} {border : Position} :
    cursor.location.IsBefore border ↔ ¬cursor.position.Reaches border := by
  simp only [Location.IsBefore, Position.Reaches, Cursor.location]
  omega

/-- Where a comment line is put, the line itself, and what follows it. The place is the front of a
line. -/
structure Insertion where
  border : Position
  comment : List Char
  after : List Char
  isCommentLine : IsCommentLine comment
  atFront : border.column = 1

/-- An error in the text with the comment line, for one in the text without. -/
structure Insertion.Lowers (insertion : Insertion) (error other : SyntaxError) : Prop where
  fault : other.fault = error.fault
  location : other.location =
    if error.location.IsBefore insertion.border then error.location else error.location.below

/-- Lines, each with its end, and at least one. -/
def IsClosed (lines : List Char) : Prop :=
  ∃ line, lines = line ++ ['\n']

theorem IsClosed.mem {lines : List Char} (h : IsClosed lines) : '\n' ∈ lines := by
  obtain ⟨line, rfl⟩ := h
  simp

theorem IsClosed.drop {lines : List Char} (h : IsClosed lines) {count : Nat}
    (hcount : count < lines.length) : IsClosed (lines.drop count) := by
  obtain ⟨line, rfl⟩ := h
  rw [List.length_append] at hcount
  refine ⟨line.drop count, ?_⟩
  rw [List.drop_append_of_le_length (Nat.le_of_lt_succ hcount)]

theorem IsClosed.lt_length {lines rest : List Char} (h : IsClosed lines) {count : Nat}
    (hcount : '\n' ∉ (lines ++ rest).take count) : count < lines.length := by
  apply Nat.lt_of_not_le
  intro hle
  apply hcount
  rw [List.take_append, List.take_of_length_le hle]
  exact List.mem_append_left _ h.mem

theorem IsClosed.line_lt {lines : List Char} (h : IsClosed lines) (position : Position) :
    position.line < (position.advanceOver lines).line := by
  obtain ⟨line, rfl⟩ := h
  rw [Position.advanceOver_append, Position.advanceOver_cons, Position.advance_newline]
  exact Nat.lt_succ_of_le (position.line_le_advanceOver line)

theorem IsClosed.dropWhile_ne_nil {lines : List Char} (h : IsClosed lines) {accept : Char → Bool}
    (haccept : accept '\n' = false) : lines.dropWhile accept ≠ [] := by
  intro hnil
  have htrue := List.dropWhile_eq_nil_iff.mp hnil _ h.mem
  rw [haccept] at htrue
  contradiction

theorem IsClosed.takeWhile_append {lines : List Char} (h : IsClosed lines) {accept : Char → Bool}
    (haccept : accept '\n' = false) (rest : List Char) :
    (lines ++ rest).takeWhile accept = lines.takeWhile accept := by
  have hne := h.dropWhile_ne_nil haccept
  have hlength : (lines.takeWhile accept).length ≠ lines.length := by
    intro heq
    have hparts := congrArg List.length (@List.takeWhile_append_dropWhile _ accept lines)
    rw [List.length_append, heq] at hparts
    exact hne (List.length_eq_zero_iff.mp (Nat.left_eq_add.mp hparts.symm))
  rw [List.takeWhile_append, if_neg hlength]

theorem IsClosed.dropWhile_append {lines : List Char} (h : IsClosed lines) {accept : Char → Bool}
    (haccept : accept '\n' = false) (rest : List Char) :
    (lines ++ rest).dropWhile accept = lines.dropWhile accept ++ rest := by
  have hne := h.dropWhile_ne_nil haccept
  rw [List.dropWhile_append, if_neg (by simpa using hne)]

theorem IsClosed.dropWhile {lines : List Char} (h : IsClosed lines) {accept : Char → Bool}
    (haccept : accept '\n' = false) : IsClosed (lines.dropWhile accept) := by
  obtain ⟨line, rfl⟩ := h
  induction line with
  | nil =>
      rw [List.nil_append, List.dropWhile_cons_of_neg (by simp [haccept])]
      exact ⟨[], rfl⟩
  | cons char line ih =>
      rw [List.cons_append, List.dropWhile_cons]
      split
      · exact ih
      · exact ⟨char :: line, rfl⟩

theorem IsClosed.ne_nil {lines : List Char} (h : IsClosed lines) : lines ≠ [] :=
  List.ne_nil_of_mem h.mem

theorem IsClosed.tail {char : Char} {lines : List Char} (h : IsClosed (char :: lines))
    (hne : char ≠ '\n') : IsClosed lines := by
  obtain ⟨line, hline⟩ := h
  cases line with
  | nil => exact absurd (List.cons.inj hline).1 hne
  | cons first line => exact ⟨line, (List.cons.inj hline).2⟩

namespace Insertion

/-- The same place in both texts, with lines between it and the border. -/
structure Shares (insertion : Insertion) (lines : List Char) (left right : Cursor) : Prop where
  rest : left.rest = lines ++ insertion.after
  other : right.rest = lines ++ (insertion.comment ++ insertion.after)
  position : right.position = left.position
  border : left.position.advanceOver lines = insertion.border

/-- Places at or behind the border with the same text to come, one line apart. -/
structure Apart (insertion : Insertion) (left right : Cursor) : Prop where
  rest : right.rest = left.rest
  below : left.position.Below right.position
  reaches : left.position.Reaches insertion.border

/-- Places that belong together and at which a token may be read. -/
inductive Beside (insertion : Insertion) (left right : Cursor) : Prop
  | ahead {lines : List Char} (closed : IsClosed lines)
      (shares : insertion.Shares lines left right)
  | behind (apart : insertion.Apart left right)

/-- One place behind the border, the other in front of what is left of the comment line. -/
inductive Facing (insertion : Insertion) (left right : Cursor) : Prop
  | intro {gap : List Char} (line : IsCommentLine gap) (rest : left.rest = insertion.after)
      (other : right.rest = gap ++ insertion.after)
      (below : left.position.Below (right.position.advanceOver gap))
      (reaches : left.position.Reaches insertion.border)

def Near (insertion : Insertion) (left right : Cursor) : Prop :=
  insertion.Beside left right ∨ insertion.Facing left right

variable {insertion : Insertion} {left right : Cursor}

theorem Shares.facing (h : insertion.Shares [] left right) : insertion.Facing left right := by
  have hborder : left.position = insertion.border := h.border
  obtain ⟨hline, hcolumn⟩ :=
    Position.advanceOver_commentLine insertion.isCommentLine right.position
  refine .intro insertion.isCommentLine h.rest h.other ⟨?_, ?_⟩ ?_
  · rw [hline, h.position]
  · rw [hcolumn, hborder, insertion.atFront]
  · rw [hborder]
    exact Position.reaches_self _

theorem Shares.drop {lines : List Char} (h : insertion.Shares lines left right) {count : Nat}
    (hle : count ≤ lines.length) :
    insertion.Shares (lines.drop count) (left.drop count) (right.drop count) where
  rest := by rw [Cursor.rest_drop, h.rest, List.drop_append_of_le_length hle]
  other := by rw [Cursor.rest_drop, h.other, List.drop_append_of_le_length hle]
  position := by
    rw [Cursor.position_drop, Cursor.position_drop, h.position, h.rest, h.other,
      List.take_append_of_le_length hle, List.take_append_of_le_length hle]
  border := by
    rw [Cursor.position_drop, h.rest, List.take_append_of_le_length hle,
      ← Position.advanceOver_append, List.take_append_drop, h.border]

theorem Apart.drop (h : insertion.Apart left right) (count : Nat) :
    insertion.Apart (left.drop count) (right.drop count) where
  rest := by rw [Cursor.rest_drop, Cursor.rest_drop, h.rest]
  below := by
    rw [Cursor.position_drop, Cursor.position_drop, h.rest]
    exact h.below.advanceOver _
  reaches := h.reaches.advanceOver _

theorem Beside.drop (h : insertion.Beside left right) {count : Nat}
    (hcount : '\n' ∉ left.rest.take count) :
    insertion.Beside (left.drop count) (right.drop count) := by
  cases h with
  | ahead closed shares =>
      rw [shares.rest] at hcount
      have hlt := closed.lt_length hcount
      exact .ahead (closed.drop hlt) (shares.drop (Nat.le_of_lt hlt))
  | behind apart => exact .behind (apart.drop count)

theorem Beside.next (h : insertion.Beside left right) :
    insertion.Near left.next right.next := by
  cases h with
  | ahead closed shares =>
      obtain ⟨line, rfl⟩ := closed
      cases line with
      | nil => exact .inr (shares.drop (Nat.le_refl _)).facing
      | cons char line => exact .inl (.ahead ⟨line, rfl⟩ (shares.drop (Nat.succ_pos _)))
  | behind apart => exact .inl (.behind (apart.drop 1))

theorem Beside.takeWhile_eq (h : insertion.Beside left right) {accept : Char → Bool}
    (haccept : accept '\n' = false) :
    right.rest.takeWhile accept = left.rest.takeWhile accept := by
  cases h with
  | ahead closed shares =>
      rw [shares.rest, shares.other, closed.takeWhile_append haccept,
        closed.takeWhile_append haccept]
  | behind apart => rw [apart.rest]

theorem Beside.peek_eq (h : insertion.Beside left right) : right.peek = left.peek := by
  cases h with
  | ahead closed shares =>
      obtain ⟨line, rfl⟩ := closed
      rw [Cursor.peek, Cursor.peek, shares.rest, shares.other]
      cases line with
      | nil => rfl
      | cons char line => rfl
  | behind apart => rw [Cursor.peek, Cursor.peek, apart.rest]

theorem Beside.atEnd_eq (h : insertion.Beside left right) : right.atEnd = left.atEnd := by
  have hpeek := h.peek_eq
  rw [Cursor.peek, Cursor.peek] at hpeek
  rw [Cursor.atEnd, Cursor.atEnd]
  cases hleft : left.rest with
  | nil =>
      rw [hleft, List.head?_nil, List.head?_eq_none_iff] at hpeek
      rw [hpeek]
  | cons char rest =>
      rw [hleft, List.head?_cons, List.head?_eq_some_iff] at hpeek
      obtain ⟨other, hother⟩ := hpeek
      rw [hother]
      rfl

theorem Beside.dropWhile (h : insertion.Beside left right) {accept : Char → Bool}
    (haccept : accept '\n' = false) :
    insertion.Beside (left.dropWhile accept) (right.dropWhile accept) := by
  have hcount : '\n' ∉ left.rest.take (left.rest.takeWhile accept).length := by
    rw [← List.prefix_iff_eq_take.mp (List.takeWhile_prefix accept)]
    intro hmem
    have htrue := List.all_eq_true.mp List.all_takeWhile _ hmem
    rw [haccept] at htrue
    contradiction
  rw [Cursor.dropWhile, Cursor.dropWhile, h.takeWhile_eq haccept]
  exact h.drop hcount

theorem Beside.location_eq (h : insertion.Beside left right) :
    right.location =
      if left.location.IsBefore insertion.border then left.location else left.location.below := by
  cases h with
  | ahead closed shares =>
      have hbefore : left.location.IsBefore insertion.border := by
        rw [← shares.border]
        exact .inl (closed.line_lt left.position)
      rw [if_pos hbefore, Cursor.location, shares.position]
      rfl
  | behind apart =>
      rw [if_neg (mt Cursor.location_isBefore_iff.mp (not_not_intro apart.reaches)),
        Cursor.location, apart.below.line, apart.below.column]
      rfl

theorem Beside.context_eq (h : insertion.Beside left right) : right.context = left.context := by
  have hline : right.rest.takeWhile (· ≠ '\n') = left.rest.takeWhile (· ≠ '\n') :=
    h.takeWhile_eq (by decide)
  have hpeek := h.peek_eq
  rw [Cursor.peek, Cursor.peek] at hpeek
  simp only [Cursor.context, hline, List.take_one, hpeek]

theorem Beside.expected (h : insertion.Beside left right) (element : Element) :
    insertion.Lowers (left.expected element) (right.expected element) := by
  refine ⟨?_, h.location_eq⟩
  rw [Cursor.expected, Cursor.expected, h.context_eq]

theorem Beside.outOfRange (h : insertion.Beside left right) (element : Element)
    (value : List Char) :
    insertion.Lowers (left.outOfRange element value) (right.outOfRange element value) :=
  ⟨rfl, h.location_eq⟩

end Insertion

end Lindenmayer
