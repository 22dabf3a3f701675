namespace Lindenmayer

inductive Symbol where
  | moveForward
  | jumpForward
  | letter (char : Char)
  deriving DecidableEq

namespace Symbol

def ofChar (char : Char) : Symbol :=
  if char = 'F' then moveForward
  else if char = 'f' then jumpForward
  else letter char

def char : Symbol → Char
  | moveForward => 'F'
  | jumpForward => 'f'
  | letter char => char

@[simp] theorem char_moveForward : moveForward.char = 'F' := rfl

@[simp] theorem char_jumpForward : jumpForward.char = 'f' := rfl

@[simp] theorem char_letter (char : Char) : (letter char).char = char := rfl

@[simp] theorem char_ofChar (char : Char) : (ofChar char).char = char := by
  unfold ofChar
  split
  · simp_all
  · split <;> simp_all

/-- A symbol that its own character is read as. -/
def IsCanonical (symbol : Symbol) : Prop :=
  ofChar symbol.char = symbol

instance (symbol : Symbol) : Decidable symbol.IsCanonical :=
  inferInstanceAs (Decidable (_ = _))

theorem isCanonical_ofChar (char : Char) : (ofChar char).IsCanonical := by
  simp [IsCanonical]

/-! The moves come first, then letters by code point. -/

def rank : Symbol → Nat
  | moveForward => 0
  | jumpForward => 1
  | letter char => char.toNat + 2

theorem rank_injective {left right : Symbol} (h : left.rank = right.rank) : left = right := by
  cases left <;> cases right <;> simp [rank] at h ⊢
  exact Char.toNat_inj.mp h

instance : LT Symbol := ⟨fun left right => left.rank < right.rank⟩

instance : LE Symbol := ⟨fun left right => left.rank ≤ right.rank⟩

instance (left right : Symbol) : Decidable (left < right) :=
  inferInstanceAs (Decidable (left.rank < right.rank))

instance (left right : Symbol) : Decidable (left ≤ right) :=
  inferInstanceAs (Decidable (left.rank ≤ right.rank))

instance : Ord Symbol := ⟨fun left right => compare left.rank right.rank⟩

theorem lt_iff {left right : Symbol} : left < right ↔ left.rank < right.rank := Iff.rfl

theorem lt_irrefl (symbol : Symbol) : ¬symbol < symbol :=
  Nat.lt_irrefl symbol.rank

theorem lt_trans {first second third : Symbol}
    (hleft : first < second) (hright : second < third) : first < third :=
  Nat.lt_trans hleft hright

theorem lt_of_not_lt_of_ne {left right : Symbol}
    (hlt : ¬left < right) (hne : left ≠ right) : right < left := by
  have hrank : left.rank ≠ right.rank := fun h => hne (rank_injective h)
  rw [lt_iff] at hlt ⊢
  omega

/-- The list in increasing order; equal symbols are alike, so their order does not show. -/
def sort (symbols : List Symbol) : List Symbol :=
  symbols.mergeSort (fun left right => decide (left ≤ right))

end Symbol

/-- A row of symbols: a starting row, or what a production puts in place of one symbol. -/
abbrev Word := List Symbol

def Word.chars (word : Word) : List Char :=
  word.map Symbol.char

@[simp] theorem Word.chars_nil : Word.chars [] = [] := rfl

@[simp] theorem Word.chars_cons (symbol : Symbol) (word : Word) :
    Word.chars (symbol :: word) = symbol.char :: Word.chars word := rfl

end Lindenmayer
