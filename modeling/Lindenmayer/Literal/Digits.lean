namespace Lindenmayer

structure Digits where
  chars : List Char
  isDigit : ∀ char ∈ chars, char.isDigit = true

namespace Digits

def value (digits : Digits) : Nat :=
  Nat.ofDigitChars 10 digits.chars 0

def append (left right : Digits) : Digits where
  chars := left.chars ++ right.chars
  isDigit char hmem := (List.mem_append.mp hmem).elim (left.isDigit char) (right.isDigit char)

instance : Append Digits := ⟨append⟩

@[simp] theorem chars_append (left right : Digits) :
    (left ++ right).chars = left.chars ++ right.chars := rfl

def empty : Digits :=
  ⟨[], nofun⟩

@[simp] theorem chars_empty : empty.chars = [] := rfl

def scan (source : List Char) : Digits × List Char :=
  (⟨source.takeWhile Char.isDigit, fun _ hmem => List.all_eq_true.mp List.all_takeWhile _ hmem⟩,
    source.dropWhile Char.isDigit)

@[simp] theorem chars_scan (source : List Char) :
    (scan source).1.chars = source.takeWhile Char.isDigit := rfl

@[simp] theorem rest_scan (source : List Char) :
    (scan source).2 = source.dropWhile Char.isDigit := rfl

theorem scan_append (source : List Char) :
    (scan source).1.chars ++ (scan source).2 = source := by
  simp

end Digits

inductive Sign where
  | absent
  | plus
  | minus
  deriving DecidableEq

namespace Sign

def chars : Sign → List Char
  | absent => []
  | plus => ['+']
  | minus => ['-']

@[simp] theorem chars_absent : absent.chars = [] := rfl

@[simp] theorem chars_plus : plus.chars = ['+'] := rfl

@[simp] theorem chars_minus : minus.chars = ['-'] := rfl

def isNegative : Sign → Bool
  | minus => true
  | _ => false

def apply (sign : Sign) (size : Nat) : Int :=
  if sign.isNegative then -(size : Int) else size

def scan : List Char → Sign × List Char
  | '+' :: rest => (plus, rest)
  | '-' :: rest => (minus, rest)
  | source => (absent, source)

theorem scan_append (source : List Char) :
    (scan source).1.chars ++ (scan source).2 = source := by
  unfold scan
  split <;> rfl

end Sign

end Lindenmayer
