import Lindenmayer.Binary64.Rounding

namespace Lindenmayer

namespace Binary64

/-- A whole signed count of quanta, rounded; `negative` is the sign of an exact zero. -/
def ofQuanta (negative : Bool) (quanta : Int) : Binary64 :=
  if quanta = 0 then zero negative
  else ofRatio (decide (quanta < 0)) quanta.natAbs 1

def add : Binary64 → Binary64 → Binary64
  | nan, _ => nan
  | _, nan => nan
  | infinite left, infinite right => if left = right then infinite left else nan
  | infinite left, finite _ _ => infinite left
  | finite _ _, infinite right => infinite right
  | finite left first, finite right second =>
      ofQuanta (left && right) (signed left first.quanta + signed right second.quanta)

def neg : Binary64 → Binary64
  | nan => nan
  | infinite negative => infinite (!negative)
  | finite negative magnitude => finite (!negative) magnitude

def abs : Binary64 → Binary64
  | nan => nan
  | infinite _ => infinite false
  | finite _ magnitude => finite false magnitude

instance : Add Binary64 := ⟨add⟩

instance : Neg Binary64 := ⟨neg⟩

instance : Sub Binary64 := ⟨fun left right => left + -right⟩

/-- The running sum from the left. It starts at negative zero, the one number that changes no
other when added to it. -/
def sum (values : List Binary64) : Binary64 :=
  values.foldl (· + ·) (zero true)

@[simp] theorem sum_nil : sum [] = zero true := rfl

end Binary64

end Lindenmayer
