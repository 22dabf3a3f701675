import Lindenmayer.Binary64.Text
import Lindenmayer.Model
import Lindenmayer.Text.Quoted

/-! An outline is a list of lines, each part indented below what it belongs to. -/

namespace Lindenmayer

abbrev Outline := List String

namespace Outline

def indent (lines : Outline) : Outline :=
  lines.map ("    " ++ ·)

def close (lines : Outline) (text : String) : Outline :=
  match lines with
  | [] => [text]
  | [line] => [line ++ text]
  | line :: rest => line :: close rest text

/-- Two outlines around a separator that shares a line with both. -/
def join (left : Outline) (separator : String) : Outline → Outline
  | [] => left.close separator
  | line :: rest => left.close (separator ++ line) ++ rest

/-- Parts between brackets, which stand on one line when there are none. -/
def block (left : String) (parts : List Outline) (right : String) : Outline :=
  match parts with
  | [] => [left ++ right]
  | parts => left :: parts.flatMap (fun part => indent (part.close ",")) ++ [right]

def field (name : String) (value : Outline) : Outline :=
  join [name] ": " value

@[simp] theorem block_nil (left right : String) : block left [] right = [left ++ right] := rfl

end Outline

open Outline

def Symbol.outline : Symbol → Outline
  | moveForward => ["MoveForward"]
  | jumpForward => ["JumpForward"]
  | letter char => block "Word(" [[.ofList (Text.quotedChar char)]] ")"

def Word.outline (word : Word) : Outline :=
  block "[" (word.map Symbol.outline) "]"

def Production.outline (production : Production) : Outline :=
  block "Production \x7b"
    [field "probability" [.ofList production.probability.marked],
      field "successor" (Word.outline production.successor)]
    "\x7d"

def Table.Entry.outline (entry : Table.Entry) : Outline :=
  join entry.1.outline ": " (block "[" (entry.2.map Production.outline) "]")

def Table.outline (table : Table) : Outline :=
  block "\x7b" (table.entries.map Table.Entry.outline) "\x7d"

def Model.outline (model : Model) : Outline :=
  block "LSystem \x7b"
    [field "generations" [toString model.generations.toNat],
      field "angle" [.ofList model.angle.marked],
      field "scale" [.ofList model.scale.marked],
      field "axiom" (Word.outline model.seed),
      field "productions" model.productions.outline]
    "\x7d"

def Model.outlineText (model : Model) : String :=
  "\n".intercalate model.outline

def Symbol.label : Symbol → String
  | moveForward => "MoveForward"
  | jumpForward => "JumpForward"
  | letter char => "Word(" ++ .ofList (Text.quotedChar char) ++ ")"

end Lindenmayer
