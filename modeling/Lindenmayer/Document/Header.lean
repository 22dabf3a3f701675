import Lindenmayer.Document.Tokens

namespace Lindenmayer

def Scanner.field (keyword : List Char) (element : Element) (value : Scanner α) : Scanner α := do
  move Cursor.skip
  expectAll keyword element
  move Cursor.skip
  let result ← value
  lineEnd
  return result

namespace Scanner

attribute [local instance (high)] instPowNat

/-- A count that fits 32 bits. A literal beyond 64 bits is reported as it is written, a smaller one
as the number that it stands for. -/
def generations : Scanner UInt32 :=
  ⟨fun cursor =>
    match integer.run cursor with
    | (.error ⟨_, .outOfRange _ value⟩, after) =>
        (.error (cursor.outOfRange .generations value.toList), after)
    | (.error error, after) => (.error error, after)
    | (.ok value, after) =>
        if 0 ≤ value ∧ value < 2 ^ (32 : Nat) then (.ok (.ofNat value.toNat), after)
        else (.error (cursor.outOfRange .generations (toString value).toList), after)⟩

def generationsField : Scanner UInt32 :=
  field "generations:".toList .generations generations

def angleField : Scanner Binary64 :=
  field "angle:".toList .angle (number .number)

def scaleField : Scanner Binary64 :=
  field "scale:".toList .scale (number .number)

def seedField : Scanner Word :=
  field "axiom:".toList .seed symbols

theorem advances_generations : Advances generations := by
  intro cursor
  have hinteger := advances_integer cursor
  simp only [generations]
  split
  · rename_i heq
    rw [heq] at hinteger
    exact hinteger
  · rename_i heq
    rw [heq] at hinteger
    exact hinteger
  · rename_i heq
    rw [heq] at hinteger
    split <;> exact hinteger

end Scanner

end Lindenmayer
