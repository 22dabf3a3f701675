import Lindenmayer.Document.Parse

/-! The bytes of all reads are one text, wherever they are cut. -/

namespace Lindenmayer

inductive Read where
  | bytes (chunk : ByteArray)
  | failed (failure : ReadFailure)

namespace Read

def gather : List Read → Except ReadFailure ByteArray
  | [] => .ok .empty
  | bytes chunk :: rest =>
      if chunk.size = 0 then .ok .empty
      else
        match gather rest with
        | .ok others => .ok (chunk ++ others)
        | .error failure => .error failure
  | failed failure :: rest =>
      if failure.kind = .interrupted then gather rest else .error failure

/-- The text that the bytes spell, which are checked as a whole. -/
def gatherText (reads : List Read) : Except ReadFailure String :=
  match gather reads with
  | .error failure => .error failure
  | .ok content =>
      match String.fromUTF8? content with
      | some text => .ok text
      | none => .error .notUtf8

end Read

def Model.parseReads (reads : List Read) : Except SyntaxError Model :=
  match Read.gatherText reads with
  | .error failure => .error (.ofFailure failure)
  | .ok text => parse text

end Lindenmayer
