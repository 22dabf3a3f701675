import Lindenmayer.Literal.Number
import Lindenmayer.Scanner
import Lindenmayer.Symbol

namespace Lindenmayer

namespace Scanner

attribute [local instance (high)] instPowNat

/-- The end of a line, as such or at the end of a comment. -/
def lineBreak : Scanner Unit := do
  move Cursor.skipSpaces
  match (← here).peek with
  | some '#' => move Cursor.skipComment
  | some '\n' => move Cursor.next
  | _ => failExpected .newline

/-- The end of a line and the comment lines behind it. Blank lines belong to it only when nothing
else follows them. -/
def lineEnd : Scanner Unit := do
  lineBreak
  move Cursor.skipCommentLines
  move Cursor.skipTrailingLines

/-- Whole numbers that fit a signed word of 64 bits. -/
def FitsWord (value : Int) : Prop :=
  -2 ^ (63 : Nat) ≤ value ∧ value < 2 ^ (63 : Nat)

instance (value : Int) : Decidable (FitsWord value) :=
  inferInstanceAs (Decidable (_ ∧ _))

def integer : Scanner Int :=
  ⟨fun cursor =>
    match IntegerLiteral.scan cursor.rest with
    | none => (.error (cursor.expected .integer), cursor)
    | some (literal, _) =>
        let after := cursor.drop literal.chars.length
        if FitsWord literal.value then (.ok literal.value, after)
        else (.error (cursor.outOfRange .integer literal.chars), after)⟩

/-- A finite number; `element` is what a failure calls it. -/
def number (element : Element) : Scanner Binary64 :=
  ⟨fun cursor =>
    match NumberLiteral.scan cursor.rest with
    | none => (.error (cursor.expected element), cursor)
    | some (literal, _) =>
        let after := cursor.drop literal.chars.length
        if literal.value.isFinite then (.ok literal.value, after)
        else (.error (cursor.outOfRange element literal.chars), after)⟩

def symbol : Scanner Symbol := do
  match ← takeIf (fun char => char ≠ ' ' && char ≠ '\n') with
  | some char => return .ofChar char
  | none => failExpected .symbol

/-- One more symbol of a row, unless the line or its comment-free part is over. -/
def symbolRound : Scanner (Round Symbol) := do
  move Cursor.skipSpaces
  match (← here).peek with
  | none => return .stop
  | some '\n' => return .stop
  | some '#' => return .stop
  | some _ => return .more (← symbol)

theorem advances_lineBreak : Advances lineBreak := by
  refine advances_bind (advances_move Cursor.leadsTo_skipSpaces) (fun _ => ?_)
  refine advances_bind advances_here (fun cursor => ?_)
  split
  · exact advances_move Cursor.leadsTo_skipComment
  · exact advances_move Cursor.leadsTo_next
  · exact advances_failExpected _

theorem advances_lineEnd : Advances lineEnd :=
  advances_bind advances_lineBreak
    (fun _ => advances_bind (advances_move Cursor.leadsTo_skipCommentLines)
      (fun _ => advances_move Cursor.leadsTo_skipTrailingLines))

theorem advances_integer : Advances integer := by
  intro cursor
  simp only [integer]
  split
  · exact .refl cursor
  · split <;> exact cursor.leadsTo_drop _

theorem advances_number (element : Element) : Advances (number element) := by
  intro cursor
  simp only [number]
  split
  · exact .refl cursor
  · split <;> exact cursor.leadsTo_drop _

theorem advances_symbol : Advances symbol := by
  refine advances_bind (advances_takeIf _) (fun found => ?_)
  cases found with
  | none => exact advances_failExpected _
  | some char => exact advances_pure _

theorem consumes_symbol : Consumes symbol := by
  intro cursor value after hrun
  simp only [symbol] at hrun
  rw [run_bind] at hrun
  split at hrun
  · rename_i found middle hfound
    cases found with
    | none => simp at hrun
    | some char =>
        simp only [run_pure, Prod.mk.injEq] at hrun
        exact hrun.2 ▸ length_takeIf_lt hfound
  · simp at hrun

theorem advances_symbolRound : Advances symbolRound := by
  refine advances_bind (advances_move Cursor.leadsTo_skipSpaces) (fun _ => ?_)
  refine advances_bind advances_here (fun cursor => ?_)
  split
  · exact advances_pure _
  · exact advances_pure _
  · exact advances_pure _
  · exact advances_bind advances_symbol (fun _ => advances_pure _)

theorem symbolRound_usesText : UsesText symbolRound := by
  intro cursor item after hrun
  simp only [symbolRound, run_bind, run_move, run_here] at hrun
  split at hrun
  · simp at hrun
  · simp at hrun
  · simp at hrun
  · rw [run_bind] at hrun
    split at hrun
    · rename_i first middle hfirst
      simp only [run_pure, Prod.mk.injEq] at hrun
      exact Nat.lt_of_lt_of_le (hrun.2 ▸ consumes_symbol _ first middle hfirst)
        cursor.leadsTo_skipSpaces.length_le
    · simp at hrun

def symbols : Scanner Word := do
  move Cursor.skip
  let first ← symbol
  let others ← collect symbolRound symbolRound_usesText
  return first :: others

theorem advances_symbols : Advances symbols := by
  refine advances_bind (advances_move Cursor.leadsTo_skip) (fun _ => ?_)
  refine advances_bind advances_symbol (fun _ => ?_)
  exact advances_bind (advances_collect _ advances_symbolRound) (fun _ => advances_pure _)

end Scanner

end Lindenmayer
