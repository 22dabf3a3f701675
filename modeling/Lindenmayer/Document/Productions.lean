import Lindenmayer.Binary64.Text
import Lindenmayer.Document.Tokens
import Lindenmayer.Table

namespace Lindenmayer

namespace Scanner

/-- A number in parentheses, or certainty without them. That the number may stand for a probability
is asked only after the closing parenthesis. -/
def probability : Scanner Binary64 := do
  if ← eat '(' then
    move Cursor.skip
    let start ← here
    let value ← number .probability
    move Cursor.skip
    expect ')' .closeParen
    if value.IsProbability then return value
    else fail (start.outOfRange .probability value.text)
  else return .one

def production : Scanner (Symbol × Production) := do
  move Cursor.skip
  let predecessor ← symbol
  move Cursor.skip
  let probability ← probability
  move Cursor.skip
  expectAll ['-', '>'] .arrow
  let successor ← symbols
  return (predecessor, ⟨probability, successor⟩)

/-- One line; it is the last one if nothing follows it or its end. -/
def productionRound : Scanner (Round (Symbol × Production)) := do
  let line ← production
  if (← here).atEnd then return .last line
  else
    lineEnd
    if (← here).atEnd then return .last line
    else return .more line

theorem advances_probability : Advances probability := by
  refine advances_bind (advances_eat '(') (fun found => ?_)
  cases found with
  | false => exact advances_pure _
  | true =>
      refine advances_bind (advances_move Cursor.leadsTo_skip) (fun _ => ?_)
      refine advances_bind advances_here (fun start => ?_)
      refine advances_bind (advances_number _) (fun value => ?_)
      refine advances_bind (advances_move Cursor.leadsTo_skip) (fun _ => ?_)
      refine advances_bind (advances_expect _ _) (fun _ => ?_)
      split
      · exact advances_pure _
      · exact advances_fail _

theorem advances_afterPredecessor (predecessor : Symbol) :
    Advances (do
      move Cursor.skip
      let probability ← probability
      move Cursor.skip
      expectAll ['-', '>'] .arrow
      let successor ← symbols
      return (predecessor, (⟨probability, successor⟩ : Production))) := by
  refine advances_bind (advances_move Cursor.leadsTo_skip) (fun _ => ?_)
  refine advances_bind advances_probability (fun _ => ?_)
  refine advances_bind (advances_move Cursor.leadsTo_skip) (fun _ => ?_)
  refine advances_bind (advances_expectAll _ _) (fun _ => ?_)
  exact advances_bind advances_symbols (fun _ => advances_pure _)

theorem advances_production : Advances production :=
  advances_bind (advances_move Cursor.leadsTo_skip)
    (fun _ => advances_bind advances_symbol advances_afterPredecessor)

theorem consumes_production : Consumes production :=
  consumes_bind_of_next (advances_move Cursor.leadsTo_skip)
    (fun _ => consumes_bind_of_first consumes_symbol advances_afterPredecessor)

theorem advances_afterProduction (line : Symbol × Production) :
    Advances (do
      if (← here).atEnd then return Round.last line
      else
        lineEnd
        if (← here).atEnd then return .last line
        else return .more line) := by
  refine advances_bind advances_here (fun cursor => ?_)
  split
  · exact advances_pure _
  · refine advances_bind advances_lineEnd (fun _ => ?_)
    refine advances_bind advances_here (fun after => ?_)
    split <;> exact advances_pure _

theorem advances_productionRound : Advances productionRound :=
  advances_bind advances_production advances_afterProduction

theorem productionRound_usesText : UsesText productionRound :=
  (consumes_bind_of_first consumes_production advances_afterProduction).usesText

def productionLines : Scanner (List (Symbol × Production)) :=
  collect productionRound productionRound_usesText

def productions : Scanner Table :=
  return .ofList (← productionLines)

end Scanner

end Lindenmayer
