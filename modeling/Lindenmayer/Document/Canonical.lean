import Lindenmayer.Binary64.Text
import Lindenmayer.Model

namespace Lindenmayer

def Production.canonical (predecessor : Symbol) (production : Production) : List Char :=
  [predecessor.char, ' '] ++
    (if production.probability == .one then []
    else '(' :: production.probability.text ++ [')', ' ']) ++
    ['-', '>', ' '] ++ Word.chars production.successor ++ ['\n']

def Table.Entry.canonical (entry : Table.Entry) : List Char :=
  entry.2.flatMap (Production.canonical entry.1)

def Model.canonicalChars (model : Model) : List Char :=
  "generations:".toList ++ Nat.toDigits 10 model.generations.toNat ++ ['\n'] ++
    "angle:".toList ++ model.angle.text ++ ['\n'] ++
    "scale:".toList ++ model.scale.text ++ ['\n'] ++
    "axiom:".toList ++ Word.chars model.seed ++ ['\n'] ++
    model.productions.entries.flatMap Table.Entry.canonical

/-- A description of the model that is read as the model again, if it can be described at all. -/
def Model.canonical (model : Model) : String :=
  .ofList model.canonicalChars

end Lindenmayer
