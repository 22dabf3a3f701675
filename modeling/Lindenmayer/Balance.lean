import Lindenmayer.Binary64.Arithmetic
import Lindenmayer.Binary64.Text
import Lindenmayer.Model

/-! Whether the alternatives of a predecessor add up to a certain choice, up to rounding. -/

namespace Lindenmayer

/-- A predecessor whose probabilities have another total than one. -/
structure Imbalance where
  predecessor : Symbol
  total : Binary64
  deriving DecidableEq

namespace Imbalance

def message (imbalance : Imbalance) : String :=
  "Probabilities for `" ++ .ofList [imbalance.predecessor.char] ++ "` add up to " ++
    .ofList imbalance.total.text ++ " instead of 1"

end Imbalance

namespace Binary64

/-- How far a total may lie from one: a thousand-millionth. -/
def tolerance : Binary64 :=
  ofDecimal false ⟨1, -9⟩

def IsUnbalanced (total : Binary64) : Prop :=
  tolerance < (total - one).abs

instance (total : Binary64) : Decidable total.IsUnbalanced :=
  inferInstanceAs (Decidable (_ < _))

end Binary64

def Table.Entry.total (entry : Table.Entry) : Binary64 :=
  .sum (entry.2.map Production.probability)

def Table.Entry.imbalance? (entry : Table.Entry) : Option Imbalance :=
  if entry.total.IsUnbalanced then some ⟨entry.1, entry.total⟩ else none

def Model.imbalances (model : Model) : List Imbalance :=
  model.productions.entries.filterMap Table.Entry.imbalance?

end Lindenmayer
