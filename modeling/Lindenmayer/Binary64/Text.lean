import Lindenmayer.Binary64.Shortest

namespace Lindenmayer

namespace Binary64

def signText (negative : Bool) : List Char :=
  if negative then ['-'] else []

def text : Binary64 → List Char
  | nan => ['N', 'a', 'N']
  | infinite negative => signText negative ++ ['i', 'n', 'f']
  | finite negative magnitude => signText negative ++ magnitude.shortest.positional

@[simp] theorem text_nan : nan.text = ['N', 'a', 'N'] := rfl

@[simp] theorem text_infinite (negative : Bool) :
    (infinite negative).text = signText negative ++ ['i', 'n', 'f'] := rfl

@[simp] theorem text_finite (negative : Bool) (magnitude : Magnitude) :
    (finite negative magnitude).text =
      signText negative ++ magnitude.shortest.positional := rfl

/-- Powers of ten of the first digit for which the marked form writes all digits out. -/
def WrittenOut (leadingExponent : Int) : Prop :=
  -4 ≤ leadingExponent ∧ leadingExponent < 16

instance (leadingExponent : Int) : Decidable (WrittenOut leadingExponent) :=
  inferInstanceAs (Decidable (_ ∧ _))

def Magnitude.marked (magnitude : Magnitude) : List Char :=
  let decimal := magnitude.shortest
  if WrittenOut decimal.leadingExponent then
    if decimal.exponent < 0 then decimal.positional
    else decimal.positional ++ ['.', '0']
  else decimal.scientific

def marked : Binary64 → List Char
  | finite negative magnitude => signText negative ++ magnitude.marked
  | value => value.text

@[simp] theorem marked_nan : nan.marked = ['N', 'a', 'N'] := rfl

@[simp] theorem marked_infinite (negative : Bool) :
    (infinite negative).marked = signText negative ++ ['i', 'n', 'f'] := rfl

@[simp] theorem marked_finite (negative : Bool) (magnitude : Magnitude) :
    (finite negative magnitude).marked = signText negative ++ magnitude.marked := rfl

end Binary64

end Lindenmayer
