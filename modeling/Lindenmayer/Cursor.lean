import Lindenmayer.Diagnostic.SyntaxError

/-! A place in a text with the characters that are still to come. -/

namespace Lindenmayer

/-- The offset counts bytes of UTF-8 from zero, line and column count characters from one. -/
structure Position where
  offset : Nat
  line : Nat
  column : Nat
  deriving DecidableEq

namespace Position

def start : Position :=
  ⟨0, 1, 1⟩

def advance (position : Position) (char : Char) : Position :=
  if char = '\n' then ⟨position.offset + char.utf8Size, position.line + 1, 1⟩
  else ⟨position.offset + char.utf8Size, position.line, position.column + 1⟩

def advanceOver (position : Position) (chars : List Char) : Position :=
  chars.foldl advance position

@[simp] theorem advanceOver_nil (position : Position) : position.advanceOver [] = position := rfl

@[simp] theorem advanceOver_cons (position : Position) (char : Char) (chars : List Char) :
    position.advanceOver (char :: chars) = (position.advance char).advanceOver chars := rfl

@[simp] theorem advanceOver_append (position : Position) (left right : List Char) :
    position.advanceOver (left ++ right) = (position.advanceOver left).advanceOver right := by
  simp [advanceOver]

end Position

structure Cursor where
  rest : List Char
  position : Position
  deriving DecidableEq

namespace Cursor

def ofChars (chars : List Char) : Cursor :=
  ⟨chars, .start⟩

def peek (cursor : Cursor) : Option Char :=
  cursor.rest.head?

def atEnd (cursor : Cursor) : Bool :=
  cursor.rest.isEmpty

def drop (cursor : Cursor) (count : Nat) : Cursor :=
  ⟨cursor.rest.drop count, cursor.position.advanceOver (cursor.rest.take count)⟩

def next (cursor : Cursor) : Cursor :=
  cursor.drop 1

def dropWhile (cursor : Cursor) (accept : Char → Bool) : Cursor :=
  cursor.drop (cursor.rest.takeWhile accept).length

/-- The text between an earlier place and this one. -/
def since (cursor start : Cursor) : List Char :=
  start.rest.take (start.rest.length - cursor.rest.length)

def location (cursor : Cursor) : Location :=
  ⟨none, cursor.position.line, cursor.position.column⟩

def contextWidth : Nat :=
  40

/-- The rest of the line, cut to a width, or the line end itself when the line is done. -/
def context (cursor : Cursor) : List Char :=
  let line := cursor.rest.takeWhile (· ≠ '\n')
  if line = [] then cursor.rest.take 1 else line.take contextWidth

def expected (cursor : Cursor) (element : Element) : SyntaxError :=
  ⟨cursor.location, .expected element (String.ofList cursor.context)⟩

def outOfRange (cursor : Cursor) (element : Element) (value : List Char) : SyntaxError :=
  ⟨cursor.location, .outOfRange element (String.ofList value)⟩

@[simp] theorem rest_drop (cursor : Cursor) (count : Nat) :
    (cursor.drop count).rest = cursor.rest.drop count := rfl

@[simp] theorem position_drop (cursor : Cursor) (count : Nat) :
    (cursor.drop count).position =
      cursor.position.advanceOver (cursor.rest.take count) := rfl

@[simp] theorem drop_zero (cursor : Cursor) : cursor.drop 0 = cursor := rfl

theorem drop_drop (cursor : Cursor) (first second : Nat) :
    (cursor.drop first).drop second = cursor.drop (first + second) := by
  simp only [drop, List.drop_drop, mk.injEq, true_and]
  rw [← Position.advanceOver_append, List.take_add]

theorem since_drop {cursor : Cursor} {count : Nat} (h : count ≤ cursor.rest.length) :
    (cursor.drop count).since cursor = cursor.rest.take count := by
  rw [since, rest_drop, List.length_drop]
  congr 1
  omega

@[simp] theorem rest_next (cursor : Cursor) : cursor.next.rest = cursor.rest.tail := by
  simp [next]

@[simp] theorem rest_dropWhile (cursor : Cursor) (accept : Char → Bool) :
    (cursor.dropWhile accept).rest = cursor.rest.dropWhile accept := by
  have h : cursor.rest.takeWhile accept ++ cursor.rest.dropWhile accept = cursor.rest :=
    List.takeWhile_append_dropWhile
  calc
    (cursor.dropWhile accept).rest =
        (cursor.rest.takeWhile accept ++ cursor.rest.dropWhile accept).drop
          (cursor.rest.takeWhile accept).length := by rw [h]; rfl
    _ = cursor.rest.dropWhile accept := List.drop_left

def LeadsTo (source target : Cursor) : Prop :=
  ∃ count, target = source.drop count

theorem LeadsTo.refl (cursor : Cursor) : cursor.LeadsTo cursor :=
  ⟨0, rfl⟩

theorem LeadsTo.trans {first second third : Cursor}
    (hleft : first.LeadsTo second) (hright : second.LeadsTo third) : first.LeadsTo third := by
  obtain ⟨left, rfl⟩ := hleft
  obtain ⟨right, rfl⟩ := hright
  exact ⟨left + right, drop_drop _ _ _⟩

theorem leadsTo_drop (cursor : Cursor) (count : Nat) : cursor.LeadsTo (cursor.drop count) :=
  ⟨count, rfl⟩

theorem leadsTo_next (cursor : Cursor) : cursor.LeadsTo cursor.next :=
  ⟨1, rfl⟩

theorem leadsTo_dropWhile (cursor : Cursor) (accept : Char → Bool) :
    cursor.LeadsTo (cursor.dropWhile accept) :=
  ⟨_, rfl⟩

theorem LeadsTo.length_le {source target : Cursor} (h : source.LeadsTo target) :
    target.rest.length ≤ source.rest.length := by
  obtain ⟨count, rfl⟩ := h
  simp

theorem LeadsTo.ne_nil {source target : Cursor} (h : source.LeadsTo target)
    (htarget : target.rest ≠ []) : source.rest ≠ [] :=
  List.length_pos_iff.mp (Nat.lt_of_lt_of_le (List.length_pos_iff.mpr htarget) h.length_le)

theorem length_next_lt {cursor : Cursor} {char : Char} (h : cursor.peek = some char) :
    cursor.next.rest.length < cursor.rest.length := by
  obtain ⟨rest, hrest⟩ := List.head?_eq_some_iff.mp h
  simp [hrest]

end Cursor

end Lindenmayer
