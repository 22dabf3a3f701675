import Lindenmayer.Text.Extenders
import Lindenmayer.Text.Unprintable

namespace Lindenmayer.Text

/-- Shows by itself wherever it stands. An extender does only if it is a letter. -/
def isPlain (char : Char) : Bool :=
  (!extenders.contains char || letterExtenders.contains char) && !unprintable.contains char

def codePoint (char : Char) : List Char :=
  ['\\', 'u', '\x7b'] ++ Nat.toDigits 16 char.toNat ++ ['\x7d']

def escape (quote char : Char) : List Char :=
  if char = '\x00' then ['\\', '0']
  else if char = '\t' then ['\\', 't']
  else if char = '\r' then ['\\', 'r']
  else if char = '\n' then ['\\', 'n']
  else if char = '\\' ∨ char = quote then ['\\', char]
  else if isPlain char then [char]
  else codePoint char

def quoted (quote : Char) (chars : List Char) : List Char :=
  quote :: chars.flatMap (escape quote) ++ [quote]

def quotedString (chars : List Char) : List Char :=
  quoted '\x22' chars

def quotedChar (char : Char) : List Char :=
  quoted '\x27' [char]

/-- The characters that steer a terminal. -/
def IsControl (char : Char) : Prop :=
  char.toNat < 0x20 ∨ 0x7F ≤ char.toNat ∧ char.toNat < 0xA0

instance (char : Char) : Decidable (IsControl char) :=
  inferInstanceAs (Decidable (_ ∨ _))

theorem not_isPlain_of_isControl {char : Char} (h : IsControl char) : isPlain char = false := by
  have hcontains : unprintable.contains char = true := by
    rcases h with h | ⟨hlow, hhigh⟩
    · exact Ranges.contains_of_mem List.mem_cons_self (Nat.zero_le _) (Nat.le_of_lt_succ h)
    · exact Ranges.contains_of_mem (List.mem_cons_of_mem _ List.mem_cons_self) hlow
        (Nat.le_trans (Nat.le_of_lt_succ hhigh) (by decide))
  simp [isPlain, hcontains]

end Lindenmayer.Text
