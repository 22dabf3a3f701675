import Lindenmayer.Proofs.Grammar.Taking
import Lindenmayer.Proofs.Reading.Lines

namespace Lindenmayer

open Grammar

structure Fields where
  generations : UInt32
  angle : Binary64
  scale : Binary64
  seed : Word
  deriving DecidableEq

namespace Fields

def model (fields : Fields) (productions : Table) : Model :=
  ⟨fields.generations, fields.angle, fields.scale, fields.seed, productions⟩

@[simp] theorem productions_model (fields : Fields) (table : Table) :
    (fields.model table).productions = table := rfl

end Fields

def Model.head (model : Model) : Fields :=
  ⟨model.generations, model.angle, model.scale, model.seed⟩

@[simp] theorem Model.head_model (fields : Fields) (table : Table) :
    (fields.model table).head = fields := rfl

namespace Grammar

/-- A head at the front of a text. -/
inductive Head (source : List Char) (fields : Fields) (rest : List Char) : Prop
  | intro {second third fourth : List Char}
      (generations : Field "generations:".toList Count source fields.generations second)
      (angle : Field "angle:".toList Number second fields.angle third)
      (scale : Field "scale:".toList Number third fields.scale fourth)
      (seed : Field "axiom:".toList Run fourth fields.seed rest)

/-- A head wherever it stands. -/
def IsHead (head : List Char) (fields : Fields) : Prop :=
  ∀ rest, Head (head ++ rest) fields rest

theorem Head.document {source rest : List Char} {fields : Fields}
    {lines : List (Symbol × Production)} {table : Table} (head : Head source fields rest)
    (read : Lines rest lines) (h : table.Collects lines) :
    Document source (fields.model table) := by
  obtain ⟨generations, angle, scale, seed⟩ := head
  exact .intro generations angle scale seed read h

theorem Document.exists_head {source : List Char} {model : Model} (h : Document source model) :
    ∃ rest lines, Head source model.head rest ∧ Lines rest lines ∧
      model.productions.Collects lines := by
  obtain ⟨generations, angle, scale, seed, lines, table⟩ := h
  exact ⟨_, _, .intro generations angle scale seed, lines, table⟩

theorem Head.takes {source rest : List Char} {fields : Fields} (head : Head source fields rest)
    (h : rest ≠ []) : Takes (Head · fields ·) source rest := by
  obtain ⟨generations, angle, scale, seed⟩ := head
  have hscale := seed.tokenAhead (startsToken_cons (by decide))
  have hangle := scale.tokenAhead (startsToken_cons (by decide))
  have hgenerations := angle.tokenAhead (startsToken_cons (by decide))
  obtain ⟨first, rfl, hfirst⟩ :=
    generations.takes (by decide) Count.takes Integer.startsToken hgenerations.ne_nil
  obtain ⟨second, rfl, hsecond⟩ :=
    angle.takes (by decide) Number.takes Number.startsToken hangle.ne_nil
  obtain ⟨third, rfl, hthird⟩ :=
    scale.takes (by decide) Number.takes Number.startsToken hscale.ne_nil
  obtain ⟨fourth, rfl, hfourth⟩ := seed.takes (by decide) Run.takes Run.startsToken h
  refine ⟨first ++ (second ++ (third ++ fourth)), by simp only [List.append_assoc],
    fun other => ?_⟩
  simp only [List.append_assoc]
  exact .intro (hfirst _) (hsecond _) (hthird _) (hfourth other)

theorem isHead_of_head {head rest : List Char} {fields : Fields}
    (h : Head (head ++ rest) fields rest) (hrest : rest ≠ []) : IsHead head fields := by
  obtain ⟨taken, htaken, htakes⟩ := h.takes hrest
  obtain rfl := List.append_cancel_right htaken
  exact htakes

end Grammar

namespace Scanner

instance : LawfulMonad Scanner :=
  .mk' Scanner
    (fun scanner => congrArg mk <| funext fun cursor => by
      change (scanner >>= fun value => Pure.pure value).run cursor = _
      rw [run_bind]
      split <;> simp_all)
    (fun value next => rfl)
    (fun scanner next last => congrArg mk <| funext fun cursor => by
      change ((scanner >>= next) >>= last).run cursor = (scanner >>= fun _ => _).run cursor
      simp only [run_bind]
      cases scanner.run cursor with
      | mk outcome after => cases outcome <;> rfl)

/-- The fields that hold numbers. -/
def numberFields : Scanner (UInt32 × Binary64 × Binary64) := do
  let generations ← generationsField
  let angle ← angleField
  let scale ← scaleField
  return (generations, angle, scale)

def fields : Scanner Fields := do
  let (generations, angle, scale) ← numberFields
  let seed ← seedField
  return ⟨generations, angle, scale, seed⟩

theorem model_eq : Scanner.model = do
    let fields ← fields
    let productions ← productions
    return fields.model productions := by
  simp [Scanner.model, fields, numberFields, Fields.model]

theorem head_of_run {cursor after : Cursor} {head : Fields}
    (h : fields.run cursor = (.ok head, after)) (hrest : after.rest ≠ []) :
    Head cursor.rest head after.rest := by
  simp only [fields, numberFields, run_bind_eq_ok_iff, run_pure, Prod.mk.injEq,
    Except.ok.injEq] at h
  obtain ⟨_, _, ⟨generations, second, hgenerations, angle, third, hangle, scale, fourth, hscale,
    rfl, rfl⟩, seed, _, hseed, rfl, rfl⟩ := h
  have hgenerations := (generationsField_of_run hgenerations).resolve_right
    (field_ne_nil (startsToken_cons (by decide)) hangle)
  have hangle := (numberField_of_run hangle).resolve_right
    (field_ne_nil (startsToken_cons (by decide)) hscale)
  have hscale := (numberField_of_run hscale).resolve_right
    (field_ne_nil (startsToken_cons (by decide)) hseed)
  have hseed := (seedField_of_run hseed).resolve_right hrest
  exact .intro hgenerations hangle hscale hseed

theorem run_of_head {cursor : Cursor} {head : Fields} {rest : List Char}
    (h : Head cursor.rest head rest) (hahead : TokenAhead rest) :
    ∃ after, fields.run cursor = (.ok head, after) ∧ Layout rest after.rest := by
  obtain ⟨generations, angle, scale, seed⟩ := h
  have hangle : StartsToken "angle:".toList := startsToken_cons (by decide)
  have hscale : StartsToken "scale:".toList := startsToken_cons (by decide)
  have hseed : StartsToken "axiom:".toList := startsToken_cons (by decide)
  obtain ⟨second, hsecond, layout⟩ := run_generationsField generations (angle.tokenAhead hangle)
  obtain ⟨third, hthird, layout⟩ := run_numberField .angle hangle (angle.of_layout hangle layout)
    (scale.tokenAhead hscale)
  obtain ⟨fourth, hfourth, layout⟩ := run_numberField .scale hscale
    (scale.of_layout hscale layout) (seed.tokenAhead hseed)
  obtain ⟨after, hafter, layout⟩ := run_seedField (seed.of_layout hseed layout) hahead
  refine ⟨after, ?_, layout⟩
  have hnumbers : numberFields.run cursor =
      (.ok (head.generations, head.angle, head.scale), fourth) := by
    rw [numberFields, run_bind_of_ok hsecond, angleField, run_bind_of_ok hthird, scaleField,
      run_bind_of_ok hfourth]
    rfl
  rw [fields, run_bind_of_ok hnumbers]
  exact run_bind_of_ok hafter _

theorem isHead_of_run {chars : List Char} {char : Char} {head : Fields} {after : Cursor}
    (h : fields.run (.ofChars (chars ++ [char])) = (.ok head, after)) (hrest : after.rest = [char]) :
    IsHead chars head :=
  isHead_of_head (hrest ▸ head_of_run h (hrest ▸ List.cons_ne_nil _ _)) (List.cons_ne_nil _ _)

end Scanner

end Lindenmayer
