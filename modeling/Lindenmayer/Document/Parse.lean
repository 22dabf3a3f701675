import Lindenmayer.Document.Header
import Lindenmayer.Document.Productions
import Lindenmayer.Model

namespace Lindenmayer

def Scanner.model : Scanner Model := do
  let generations ← generationsField
  let angle ← angleField
  let scale ← scaleField
  let seed ← seedField
  let productions ← productions
  return ⟨generations, angle, scale, seed, productions⟩

def Model.ofChars (chars : List Char) : Except SyntaxError Model :=
  match Scanner.model.run (.ofChars chars) with
  | (.error error, _) => .error error
  | (.ok model, after) =>
      if after.atEnd then .ok model else .error (after.expected .endOfInput)

/-- The model that a text describes, or the first thing that is wrong with it. -/
def Model.parse (text : String) : Except SyntaxError Model :=
  ofChars text.toList

end Lindenmayer
