import Lindenmayer.Outline

/-! Outlines as text that is nested, each part as deep as the brackets around it. -/

namespace Lindenmayer

/-- What stands in front of a line inside so many brackets. -/
def margin (depth : Nat) : String :=
  .ofList (List.replicate (4 * depth) ' ')

theorem margin_succ (depth : Nat) : margin (depth + 1) = margin depth ++ "    " := by
  rw [margin, margin, Nat.mul_succ, ← List.replicate_append_replicate, String.ofList_append]
  rfl

/-- Brackets with each part between them on lines of its own, a comma behind it. -/
def nest (depth : Nat) (left : String) (parts : List String) (right : String) : String :=
  if parts = [] then left ++ right
  else
    left ++ "\n" ++ String.join (parts.map fun part => margin (depth + 1) ++ part ++ ",\n") ++
      margin depth ++ right

def Symbol.nested (depth : Nat) : Symbol → String
  | moveForward => "MoveForward"
  | jumpForward => "JumpForward"
  | letter char => nest depth "Word(" [.ofList (Text.quotedChar char)] ")"

def Word.nested (depth : Nat) (word : Word) : String :=
  nest depth "[" (word.map (Symbol.nested (depth + 1))) "]"

def Production.nested (depth : Nat) (production : Production) : String :=
  nest depth "Production \x7b"
    ["probability: " ++ .ofList production.probability.marked,
      "successor: " ++ Word.nested (depth + 1) production.successor]
    "\x7d"

def Table.Entry.nested (depth : Nat) (entry : Table.Entry) : String :=
  entry.1.nested depth ++ ": " ++
    nest depth "[" (entry.2.map (Production.nested (depth + 1))) "]"

def Table.nested (depth : Nat) (table : Table) : String :=
  nest depth "\x7b" (table.entries.map (Table.Entry.nested (depth + 1))) "\x7d"

def Model.nested (model : Model) : String :=
  nest 0 "LSystem \x7b"
    ["generations: " ++ toString model.generations.toNat,
      "angle: " ++ .ofList model.angle.marked,
      "scale: " ++ .ofList model.scale.marked,
      "axiom: " ++ Word.nested 1 model.seed,
      "productions: " ++ model.productions.nested 1]
    "\x7d"

namespace Outline

variable {lines : Outline}

/-- The text of lines that begin in a margin, the first one behind what stands there already. -/
def text (depth : Nat) (lines : Outline) : String :=
  ("\n" ++ margin depth).intercalate lines

@[simp] theorem text_singleton (depth : Nat) (line : String) : text depth [line] = line :=
  String.intercalate_singleton

theorem text_cons (depth : Nat) (line : String) (h : lines ≠ []) :
    text depth (line :: lines) = line ++ ("\n" ++ margin depth) ++ text depth lines :=
  String.intercalate_cons_of_ne_nil h

theorem text_append (depth : Nat) {more : Outline} (h : lines ≠ []) (hmore : more ≠ []) :
    text depth (lines ++ more) = text depth lines ++ ("\n" ++ margin depth) ++ text depth more :=
  String.intercalate_append_of_ne_nil h hmore

theorem indent_ne_nil (h : lines ≠ []) : indent lines ≠ [] :=
  mt List.map_eq_nil_iff.mp h

theorem close_ne_nil (lines : Outline) (text : String) : lines.close text ≠ [] := by
  fun_cases close lines text <;> nofun

theorem join_ne_nil (left : Outline) (separator : String) (right : Outline) :
    join left separator right ≠ [] := by
  cases right with
  | nil => exact close_ne_nil left separator
  | cons line rest => simp [join, close_ne_nil]

theorem block_ne_nil (left : String) (parts : List Outline) (right : String) :
    block left parts right ≠ [] := by
  cases parts <;> nofun

theorem text_close (depth : Nat) (behind : String) (h : lines ≠ []) :
    text depth (lines.close behind) = text depth lines ++ behind := by
  induction lines with
  | nil => contradiction
  | cons line rest ih =>
      cases rest with
      | nil => rw [close, text_singleton, text_singleton]
      | cons second rest =>
          have hrest : second :: rest ≠ [] := List.cons_ne_nil second rest
          have hclose : close (line :: second :: rest) behind =
              line :: close (second :: rest) behind := rfl
          rw [hclose, text_cons depth line (close_ne_nil _ _), text_cons depth line hrest, ih hrest]
          simp only [String.append_assoc]

theorem text_join (depth : Nat) {left right : Outline} (separator : String) (hleft : left ≠ [])
    (hright : right ≠ []) :
    text depth (join left separator right) =
      text depth left ++ separator ++ text depth right := by
  obtain ⟨line, rest, rfl⟩ := List.exists_cons_of_ne_nil hright
  rw [join]
  cases rest with
  | nil => rw [List.append_nil, text_close depth _ hleft, text_singleton, String.append_assoc]
  | cons second rest =>
      have hrest : second :: rest ≠ [] := List.cons_ne_nil second rest
      rw [text_append depth (close_ne_nil _ _) hrest, text_close depth _ hleft,
        text_cons depth line hrest]
      simp only [String.append_assoc]

theorem text_field (depth : Nat) (name : String) {value : Outline} (h : value ≠ []) :
    text depth (field name value) = name ++ ": " ++ text depth value := by
  rw [field, text_join depth ": " (List.cons_ne_nil name []) h, text_singleton]

theorem text_indent (depth : Nat) (h : lines ≠ []) :
    text depth (indent lines) = "    " ++ text (depth + 1) lines := by
  induction lines with
  | nil => contradiction
  | cons line rest ih =>
      cases rest with
      | nil => rw [indent, List.map_singleton, text_singleton, text_singleton]
      | cons second rest =>
          have hrest : second :: rest ≠ [] := List.cons_ne_nil second rest
          have hindent : indent (line :: second :: rest) =
              ("    " ++ line) :: indent (second :: rest) := rfl
          rw [hindent, text_cons depth _ (indent_ne_nil hrest), ih hrest,
            text_cons (depth + 1) line hrest, margin_succ]
          simp only [String.append_assoc]

theorem text_parts (depth : Nat) {parts : List Outline} (right : String)
    (h : ∀ part ∈ parts, part ≠ []) :
    margin depth ++ text depth (parts.flatMap (fun part => indent (part.close ",")) ++ [right]) =
      String.join ((parts.map (text (depth + 1))).map fun part =>
        margin (depth + 1) ++ part ++ ",\n") ++ margin depth ++ right := by
  induction parts with
  | nil => simp
  | cons part parts ih =>
      obtain ⟨hpart, hparts⟩ := List.forall_mem_cons.mp h
      have hcomma : ",\n" = "," ++ "\n" := rfl
      have hrest : parts.flatMap (fun part => indent (part.close ",")) ++ [right] ≠ [] :=
        List.append_ne_nil_of_right_ne_nil _ (List.cons_ne_nil right [])
      rw [List.flatMap_cons, List.append_assoc,
        text_append depth (indent_ne_nil (close_ne_nil part ",")) hrest,
        text_indent depth (close_ne_nil part ","), text_close (depth + 1) "," hpart]
      have hparts := ih hparts
      simp only [String.append_assoc, List.map_cons, String.join_cons, margin_succ,
        hcomma] at hparts ⊢
      rw [hparts]

theorem text_block (depth : Nat) (left : String) {parts : List Outline} (right : String)
    (h : ∀ part ∈ parts, part ≠ []) :
    text depth (block left parts right) =
      nest depth left (parts.map (text (depth + 1))) right := by
  cases parts with
  | nil => exact text_singleton depth (left ++ right)
  | cons part parts =>
      have hparts := text_parts depth right h
      have hblock : block left (part :: parts) right =
          left :: ((part :: parts).flatMap (fun part => indent (part.close ",")) ++ [right]) := rfl
      rw [hblock, text_cons depth left (List.append_ne_nil_of_right_ne_nil _ (List.cons_ne_nil _ _)),
        nest, if_neg (by simp), String.append_assoc, String.append_assoc, hparts]
      simp only [String.append_assoc]

end Outline

open Outline

theorem Symbol.outline_ne_nil (symbol : Symbol) : symbol.outline ≠ [] := by
  cases symbol with
  | moveForward => nofun
  | jumpForward => nofun
  | letter char =>
      rw [outline]
      exact block_ne_nil _ _ _

theorem Symbol.text_outline (depth : Nat) (symbol : Symbol) :
    text depth symbol.outline = symbol.nested depth := by
  cases symbol with
  | moveForward => exact text_singleton depth _
  | jumpForward => exact text_singleton depth _
  | letter char =>
      rw [outline, text_block depth _ _ (by simp), List.map_singleton, text_singleton]
      rfl

theorem Word.text_outline (depth : Nat) (word : Word) :
    text depth (Word.outline word) = Word.nested depth word := by
  have hsymbols : ∀ part ∈ word.map Symbol.outline, part ≠ [] :=
    List.forall_mem_map.mpr fun symbol _ => symbol.outline_ne_nil
  rw [outline, text_block depth "[" "]" hsymbols, List.map_map, nested]
  congr 2
  funext symbol
  exact symbol.text_outline (depth + 1)

theorem Production.text_outline (depth : Nat) (production : Production) :
    text depth production.outline = production.nested depth := by
  have hsuccessor : Word.outline production.successor ≠ [] := block_ne_nil _ _ _
  rw [outline, text_block depth _ _ (by simp [field, join_ne_nil]), List.map_cons,
    List.map_singleton, text_field _ _ (List.cons_ne_nil _ []), text_field _ _ hsuccessor,
    text_singleton, Word.text_outline]
  rfl

theorem Table.Entry.text_outline (depth : Nat) (entry : Table.Entry) :
    text depth entry.outline = entry.nested depth := by
  have hproductions : ∀ part ∈ entry.2.map Production.outline, part ≠ [] :=
    List.forall_mem_map.mpr fun _ _ => block_ne_nil _ _ _
  rw [outline, text_join depth ": " entry.1.outline_ne_nil (block_ne_nil _ _ _),
    entry.1.text_outline, text_block depth "[" "]" hproductions, List.map_map, nested]
  congr 3
  funext production
  exact production.text_outline (depth + 1)

theorem Table.text_outline (depth : Nat) (table : Table) :
    text depth table.outline = table.nested depth := by
  have hentries : ∀ part ∈ table.entries.map Table.Entry.outline, part ≠ [] :=
    List.forall_mem_map.mpr fun entry _ => join_ne_nil _ _ _
  rw [outline, text_block depth _ _ hentries, List.map_map, nested]
  congr 2
  funext entry
  exact entry.text_outline (depth + 1)

theorem Model.text_outline (model : Model) : text 0 model.outline = model.nested := by
  have hword : Word.outline model.seed ≠ [] := block_ne_nil _ _ _
  have htable : model.productions.outline ≠ [] := block_ne_nil _ _ _
  rw [outline, text_block 0 _ _ (by simp [field, join_ne_nil])]
  simp only [List.map_cons, List.map_nil]
  rw [text_field _ _ (List.cons_ne_nil _ []), text_field _ _ (List.cons_ne_nil _ []),
    text_field _ _ (List.cons_ne_nil _ []), text_field _ _ hword, text_field _ _ htable]
  simp only [text_singleton, Word.text_outline, Table.text_outline]
  rfl

theorem Model.outlineText_eq (model : Model) : model.outlineText = model.nested :=
  model.text_outline

end Lindenmayer
