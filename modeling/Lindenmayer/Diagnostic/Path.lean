/-! Two spellings of a path are equal when they name the same steps. -/

namespace Lindenmayer

structure Path where
  text : String
  deriving DecidableEq

namespace Path

def isAbsolute (path : Path) : Bool :=
  path.text.toList.head? == some '/'

/-- The pieces between separators, empty ones included. -/
def pieces : List Char → List (List Char)
  | [] => [[]]
  | char :: rest =>
      if char = '/' then [] :: pieces rest
      else
        match pieces rest with
        | [] => [[char]]
        | piece :: others => (char :: piece) :: others

def steps (path : Path) : List (List Char) :=
  let pieces := pieces path.text.toList
  let inner := pieces.filter (fun piece => piece ≠ [] && piece ≠ ['.'])
  if pieces.head? = some ['.'] then ['.'] :: inner else inner

instance : BEq Path :=
  ⟨fun left right => left.isAbsolute == right.isAbsolute && left.steps == right.steps⟩

end Path

end Lindenmayer
