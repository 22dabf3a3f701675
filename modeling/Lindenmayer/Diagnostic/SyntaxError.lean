import Lindenmayer.Diagnostic.Failure
import Lindenmayer.Diagnostic.Path
import Lindenmayer.Text.Quoted

/-! As elsewhere `=` tells every two errors apart, while `==` compares files by the steps of their
paths and failures to read by their kinds. -/

namespace Lindenmayer

inductive Element where
  | generations
  | angle
  | scale
  | seed
  | integer
  | number
  | symbol
  | newline
  | probability
  | closeParen
  | arrow
  | endOfInput
  deriving DecidableEq

def Element.text : Element → String
  | generations => "`generations:`"
  | angle => "`angle:`"
  | scale => "`scale:`"
  | seed => "`axiom:`"
  | integer => "integer"
  | number => "number"
  | symbol => "symbol"
  | newline => "newline"
  | probability => "probability"
  | closeParen => "`)`"
  | arrow => "`->`"
  | endOfInput => "end of input"

inductive Fault where
  | expected (element : Element) (found : String)
  | outOfRange (element : Element) (value : String)
  | unreadable (failure : ReadFailure)
  deriving DecidableEq

namespace Fault

/-- Failures to read are alike when their kinds are. -/
def beq : Fault → Fault → Bool
  | expected left found, expected right other => left == right && found == other
  | outOfRange left value, outOfRange right other => left == right && value == other
  | unreadable left, unreadable right => left == right
  | _, _ => false

instance : BEq Fault := ⟨beq⟩

def message : Fault → String
  | expected element found =>
      if found = "" then "Expecting " ++ element.text ++ " here: end of input"
      else "Expecting " ++ element.text ++ " here: " ++
        String.ofList (Text.quotedString found.toList)
  | outOfRange .generations value =>
      "Generations must be a non-negative integer, got `" ++ value ++ "`"
  | outOfRange .probability value =>
      "Probability must be in (0, 1], got `" ++ value ++ "`"
  | outOfRange element value =>
      "Value `" ++ value ++ "` is out of range for " ++ element.text
  | unreadable failure => "Read error: " ++ failure.message

end Fault

/-- A line and a column counted from one, or line zero for a text as a whole. -/
structure Location where
  file : Option Path
  line : Nat
  column : Nat
  deriving BEq, DecidableEq

namespace Location

def whole : Location :=
  ⟨none, 0, 0⟩

def text : Location → String
  | ⟨some file, 0, _⟩ => file.text
  | ⟨some file, line, column⟩ => file.text ++ ":" ++ toString line ++ ":" ++ toString column
  | ⟨none, 0, _⟩ => "input"
  | ⟨none, line, column⟩ => toString line ++ ":" ++ toString column

/-- An empty name stands for no file. -/
def inFile (location : Location) (file : String) : Location :=
  { location with file := if file = "" then none else some ⟨file⟩ }

end Location

structure SyntaxError where
  location : Location
  fault : Fault
  deriving BEq, DecidableEq

namespace SyntaxError

def ofFailure (failure : ReadFailure) : SyntaxError :=
  ⟨.whole, .unreadable failure⟩

def inFile (error : SyntaxError) (file : String) : SyntaxError :=
  { error with location := error.location.inFile file }

/-- The location in red, then the message in the terminal's own colour, both bold. -/
def display (error : SyntaxError) : String :=
  "\x1b[31;49;1m[" ++ error.location.text ++ "]\x1b[39;49;1m  " ++ error.fault.message ++ "\x1b[0m"

end SyntaxError

end Lindenmayer
