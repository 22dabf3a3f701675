import Lindenmayer.Scanner

/-! Two scanners side by side, from related places to related places. -/

namespace Lindenmayer

namespace Scanner

variable {α β γ δ : Type}

inductive Agrees (Errors : SyntaxError → SyntaxError → Prop) (Values : α → β → Prop)
    (After : Cursor → Cursor → Prop) : Scan α → Scan β → Prop
  | ok {value : α} {other : β} {left right : Cursor} (values : Values value other)
      (after : After left right) : Agrees Errors Values After (.ok value, left) (.ok other, right)
  | error {error other : SyntaxError} {left right : Cursor} (errors : Errors error other) :
      Agrees Errors Values After (.error error, left) (.error other, right)

def Couples (Errors : SyntaxError → SyntaxError → Prop) (Before : Cursor → Cursor → Prop)
    (Values : α → β → Prop) (After : Cursor → Cursor → Prop)
    (scanner : Scanner α) (other : Scanner β) : Prop :=
  ∀ left right, Before left right →
    Agrees Errors Values After (scanner.run left) (other.run right)

/-- Items of two rounds that leave their loops alike. -/
inductive Round.Agrees (Values : α → β → Prop) : Round α → Round β → Prop
  | stop : Agrees Values .stop .stop
  | last {item : α} {other : β} (values : Values item other) :
      Agrees Values (.last item) (.last other)
  | more {item : α} {other : β} (values : Values item other) :
      Agrees Values (.more item) (.more other)

variable {Errors : SyntaxError → SyntaxError → Prop}
  {Before Middle After : Cursor → Cursor → Prop}

theorem couples_pure {Values : α → β → Prop} {value : α} {other : β}
    (h : Values value other) :
    Couples Errors Before Values Before (Pure.pure value) (Pure.pure other) :=
  fun _ _ hbefore => .ok h hbefore

theorem couples_bind {Values : α → β → Prop} {Results : γ → δ → Prop} {scanner : Scanner α}
    {other : Scanner β} {next : α → Scanner γ} {otherNext : β → Scanner δ}
    (hscanner : Couples Errors Before Values Middle scanner other)
    (hnext : ∀ value otherValue, Values value otherValue →
      Couples Errors Middle Results After (next value) (otherNext otherValue)) :
    Couples Errors Before Results After (scanner >>= next) (other >>= otherNext) := by
  intro left right hbefore
  have hfirst := hscanner left right hbefore
  rw [run_bind, run_bind]
  generalize scanner.run left = result at hfirst
  generalize other.run right = otherResult at hfirst
  cases hfirst with
  | ok values after => exact hnext _ _ values _ _ after
  | error errors => exact .error errors

theorem couples_here : Couples Errors Before Before Before here here :=
  fun _ _ hbefore => .ok hbefore hbefore

theorem couples_move {advance : Cursor → Cursor}
    (h : ∀ left right, Before left right → After (advance left) (advance right)) :
    Couples Errors Before Eq After (move advance) (move advance) :=
  fun left right hbefore => .ok rfl (h left right hbefore)

theorem couples_fail {Values : α → β → Prop} {error other : SyntaxError}
    (h : Errors error other) : Couples Errors Before Values After (fail error) (fail other) :=
  fun _ _ _ => .error h

theorem couples_failExpected {Values : α → β → Prop} {element : Element}
    (h : ∀ left right, Before left right →
      Errors (left.expected element) (right.expected element)) :
    Couples Errors Before Values After (failExpected element) (failExpected element) :=
  fun left right hbefore => .error (h left right hbefore)

theorem couples_ite {Values : α → β → Prop} {condition : Prop} [Decidable condition]
    {yes no : Scanner α} {otherYes otherNo : Scanner β}
    (hyes : condition → Couples Errors Before Values After yes otherYes)
    (hno : ¬condition → Couples Errors Before Values After no otherNo) :
    Couples Errors Before Values After (if condition then yes else no)
      (if condition then otherYes else otherNo) := by
  by_cases h : condition
  · rw [if_pos h, if_pos h]
    exact hyes h
  · rw [if_neg h, if_neg h]
    exact hno h

theorem agrees_collect {round : Scanner (Round α)} (h : UsesText round)
    (hround : Couples Errors Before (Round.Agrees Eq) Before round round) (left right : Cursor)
    (hbefore : Before left right) :
    Agrees Errors Eq Before ((collect round h).run left) ((collect round h).run right) := by
  have hfirst := hround left right hbefore
  generalize hleft : round.run left = result at hfirst
  generalize hright : round.run right = other at hfirst
  cases hfirst with
  | error errors =>
      rw [run_collect_of_error h hleft, run_collect_of_error h hright]
      exact .error errors
  | @ok _ _ next otherNext values after =>
      cases values with
      | stop =>
          rw [run_collect_of_stop h hleft, run_collect_of_stop h hright]
          exact .ok rfl after
      | last values =>
          rw [run_collect_of_last h hleft, run_collect_of_last h hright, values]
          exact .ok rfl after
      | more values =>
          have hothers := agrees_collect h hround next otherNext after
          rw [run_collect_of_more h hleft, run_collect_of_more h hright, values]
          generalize (collect round h).run next = items at hothers
          generalize (collect round h).run otherNext = otherItems at hothers
          cases hothers with
          | ok others final => exact .ok (congrArg _ others) final
          | error errors => exact .error errors
termination_by left.rest.length
decreasing_by exact h _ _ _ hleft

theorem couples_collect {round : Scanner (Round α)} (h : UsesText round)
    (hround : Couples Errors Before (Round.Agrees Eq) Before round round) :
    Couples Errors Before Eq Before (collect round h) (collect round h) :=
  agrees_collect h hround

end Scanner

end Lindenmayer
