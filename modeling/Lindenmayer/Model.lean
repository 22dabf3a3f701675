import Lindenmayer.Table

/-! As for numbers, `=` tells every two models apart and `==` compares their numbers numerically. -/

namespace Lindenmayer

structure Model where
  generations : UInt32
  /-- Turning angle in degrees. -/
  angle : Binary64
  scale : Binary64
  /-- The word that generation zero consists of. -/
  seed : Word
  productions : Table
  deriving BEq, DecidableEq

namespace Model

def productionsFor (model : Model) (predecessor : Symbol) : Option (List Production) :=
  model.productions.lookup predecessor

def add (model : Model) (predecessor : Symbol) (production : Production) : Model :=
  { model with productions := model.productions.add predecessor production }

end Model

end Lindenmayer
