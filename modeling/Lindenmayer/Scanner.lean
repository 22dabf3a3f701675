import Lindenmayer.Layout

/-! A scanner gives a value or an error with the place where it stopped, also when it fails. -/

namespace Lindenmayer

abbrev Scan (α : Type) : Type :=
  Except SyntaxError α × Cursor

structure Scanner (α : Type) where
  run : Cursor → Scan α

namespace Scanner

def pure (value : α) : Scanner α :=
  ⟨fun cursor => (.ok value, cursor)⟩

def bind (scanner : Scanner α) (next : α → Scanner β) : Scanner β :=
  ⟨fun cursor =>
    match scanner.run cursor with
    | (.ok value, after) => (next value).run after
    | (.error error, after) => (.error error, after)⟩

instance : Monad Scanner where
  pure := Scanner.pure
  bind := Scanner.bind

@[simp] theorem run_pure (value : α) (cursor : Cursor) :
    (Pure.pure value : Scanner α).run cursor = (.ok value, cursor) := rfl

theorem run_bind (scanner : Scanner α) (next : α → Scanner β) (cursor : Cursor) :
    (scanner >>= next).run cursor =
      match scanner.run cursor with
      | (.ok value, after) => (next value).run after
      | (.error error, after) => (.error error, after) := rfl

theorem run_bind_of_ok {scanner : Scanner α} {cursor after : Cursor} {value : α}
    (h : scanner.run cursor = (.ok value, after)) (next : α → Scanner β) :
    (scanner >>= next).run cursor = (next value).run after := by
  rw [run_bind, h]

theorem run_bind_of_error {scanner : Scanner α} {cursor after : Cursor} {error : SyntaxError}
    (h : scanner.run cursor = (.error error, after)) (next : α → Scanner β) :
    (scanner >>= next).run cursor = (.error error, after) := by
  rw [run_bind, h]

def here : Scanner Cursor :=
  ⟨fun cursor => (.ok cursor, cursor)⟩

def move (advance : Cursor → Cursor) : Scanner Unit :=
  ⟨fun cursor => (.ok (), advance cursor)⟩

def fail (error : SyntaxError) : Scanner α :=
  ⟨fun cursor => (.error error, cursor)⟩

def failExpected (element : Element) : Scanner α :=
  ⟨fun cursor => (.error (cursor.expected element), cursor)⟩

@[simp] theorem run_here (cursor : Cursor) : here.run cursor = (.ok cursor, cursor) := rfl

@[simp] theorem run_move (advance : Cursor → Cursor) (cursor : Cursor) :
    (move advance).run cursor = (.ok (), advance cursor) := rfl

@[simp] theorem run_fail (error : SyntaxError) (cursor : Cursor) :
    (fail error : Scanner α).run cursor = (.error error, cursor) := rfl

@[simp] theorem run_failExpected (element : Element) (cursor : Cursor) :
    (failExpected element : Scanner α).run cursor =
      (.error (cursor.expected element), cursor) := rfl

def takeIf (accept : Char → Bool) : Scanner (Option Char) :=
  ⟨fun cursor =>
    match cursor.peek with
    | some char => if accept char then (.ok (some char), cursor.next) else (.ok none, cursor)
    | none => (.ok none, cursor)⟩

def eat (char : Char) : Scanner Bool := do
  return (← takeIf (· = char)).isSome

def expect (char : Char) (element : Element) : Scanner Unit := do
  if ← eat char then return () else failExpected element

/-- All of the characters in a row, or none of them. -/
def expectAll (chars : List Char) (element : Element) : Scanner Unit :=
  ⟨fun cursor =>
    if chars.isPrefixOf cursor.rest then (.ok (), cursor.drop chars.length)
    else (.error (cursor.expected element), cursor)⟩

inductive Round (α : Type) where
  /-- The loop is left with what was found before. -/
  | stop
  /-- The loop is left with one more item. -/
  | last (item : α)
  /-- One more item, and another round. -/
  | more (item : α)

def UsesText (round : Scanner (Round α)) : Prop :=
  ∀ cursor item after, round.run cursor = (.ok (.more item), after) →
    after.rest.length < cursor.rest.length

def runCollect (round : Scanner (Round α)) (h : UsesText round) (cursor : Cursor) :
    Scan (List α) :=
  match _hround : round.run cursor with
  | (.error error, after) => (.error error, after)
  | (.ok .stop, after) => (.ok [], after)
  | (.ok (.last item), after) => (.ok [item], after)
  | (.ok (.more item), after) =>
      match runCollect round h after with
      | (.ok items, final) => (.ok (item :: items), final)
      | (.error error, final) => (.error error, final)
termination_by cursor.rest.length
decreasing_by exact h cursor item after _hround

def collect (round : Scanner (Round α)) (h : UsesText round) : Scanner (List α) :=
  ⟨runCollect round h⟩

@[simp] theorem run_collect (round : Scanner (Round α)) (h : UsesText round) (cursor : Cursor) :
    (collect round h).run cursor = runCollect round h cursor := rfl

theorem run_collect_of_error {round : Scanner (Round α)} (h : UsesText round)
    {cursor after : Cursor} {error : SyntaxError}
    (hround : round.run cursor = (.error error, after)) :
    (collect round h).run cursor = (.error error, after) := by
  rw [run_collect, runCollect]
  split <;> simp_all

theorem run_collect_of_stop {round : Scanner (Round α)} (h : UsesText round)
    {cursor after : Cursor} (hround : round.run cursor = (.ok .stop, after)) :
    (collect round h).run cursor = (.ok [], after) := by
  rw [run_collect, runCollect]
  split <;> simp_all

theorem run_collect_of_last {round : Scanner (Round α)} (h : UsesText round)
    {cursor after : Cursor} {item : α}
    (hround : round.run cursor = (.ok (.last item), after)) :
    (collect round h).run cursor = (.ok [item], after) := by
  rw [run_collect, runCollect]
  split <;> simp_all

theorem run_collect_of_more {round : Scanner (Round α)} (h : UsesText round)
    {cursor after : Cursor} {item : α}
    (hround : round.run cursor = (.ok (.more item), after)) :
    (collect round h).run cursor =
      match (collect round h).run after with
      | (.ok items, final) => (.ok (item :: items), final)
      | (.error error, final) => (.error error, final) := by
  rw [run_collect, runCollect]
  split <;> simp_all

theorem run_collect_eq {round : Scanner (Round α)} (h : UsesText round) (cursor : Cursor) :
    (collect round h).run cursor =
      (round >>= fun
        | .stop => Pure.pure []
        | .last item => Pure.pure [item]
        | .more item => do return item :: (← collect round h)).run cursor := by
  cases hround : round.run cursor with
  | mk outcome after =>
      cases outcome with
      | error error => rw [run_collect_of_error h hround, run_bind_of_error hround]
      | ok round =>
          rw [run_bind_of_ok hround]
          cases round with
          | stop => rw [run_collect_of_stop h hround, run_pure]
          | last item => rw [run_collect_of_last h hround, run_pure]
          | more item =>
              rw [run_collect_of_more h hround, run_bind]
              split <;> simp_all

def Advances (scanner : Scanner α) : Prop :=
  ∀ cursor : Cursor, cursor.LeadsTo (scanner.run cursor).2

theorem Advances.leadsTo {scanner : Scanner α} (h : Advances scanner) {cursor after : Cursor}
    {outcome : Except SyntaxError α} (hrun : scanner.run cursor = (outcome, after)) :
    cursor.LeadsTo after := by
  have hafter := h cursor
  rw [hrun] at hafter
  exact hafter

theorem advances_pure (value : α) : Advances (Pure.pure value : Scanner α) :=
  fun cursor => .refl cursor

theorem advances_bind {scanner : Scanner α} {next : α → Scanner β}
    (hscanner : Advances scanner) (hnext : ∀ value, Advances (next value)) :
    Advances (scanner >>= next) := by
  intro cursor
  rw [run_bind]
  split
  · rename_i value after hfirst
    exact (hscanner.leadsTo hfirst).trans (hnext value after)
  · rename_i error after hfirst
    exact hscanner.leadsTo hfirst

theorem advances_here : Advances here :=
  fun cursor => .refl cursor

theorem advances_move {advance : Cursor → Cursor}
    (h : ∀ cursor : Cursor, cursor.LeadsTo (advance cursor)) : Advances (move advance) :=
  h

theorem advances_fail (error : SyntaxError) : Advances (fail error : Scanner α) :=
  fun cursor => .refl cursor

theorem advances_failExpected (element : Element) :
    Advances (failExpected element : Scanner α) :=
  fun cursor => .refl cursor

theorem advances_takeIf (accept : Char → Bool) : Advances (takeIf accept) := by
  intro cursor
  simp only [takeIf]
  split
  · split
    · exact Cursor.leadsTo_next cursor
    · exact .refl cursor
  · exact .refl cursor

theorem advances_eat (char : Char) : Advances (eat char) :=
  advances_bind (advances_takeIf _) (fun _ => advances_pure _)

theorem advances_expect (char : Char) (element : Element) : Advances (expect char element) := by
  refine advances_bind (advances_eat char) (fun found => ?_)
  cases found
  · exact advances_failExpected element
  · exact advances_pure ()

theorem advances_expectAll (chars : List Char) (element : Element) :
    Advances (expectAll chars element) := by
  intro cursor
  simp only [expectAll]
  split
  · exact cursor.leadsTo_drop _
  · exact .refl cursor

theorem advances_collect {round : Scanner (Round α)} (h : UsesText round)
    (hround : Advances round) : Advances (collect round h) := by
  intro cursor
  change cursor.LeadsTo (runCollect round h cursor).2
  fun_induction runCollect round h cursor with
  | case1 cursor error after hfirst => exact hround.leadsTo hfirst
  | case2 cursor after hfirst => exact hround.leadsTo hfirst
  | case3 cursor item after hfirst => exact hround.leadsTo hfirst
  | case4 cursor item after hfirst items final hfinal ih =>
      rw [hfinal] at ih
      exact (hround.leadsTo hfirst).trans ih
  | case5 cursor item after hfirst error final hfinal ih =>
      rw [hfinal] at ih
      exact (hround.leadsTo hfirst).trans ih

def Consumes (scanner : Scanner α) : Prop :=
  ∀ cursor value after, scanner.run cursor = (.ok value, after) →
    after.rest.length < cursor.rest.length

theorem Consumes.usesText {round : Scanner (Round α)} (h : Consumes round) : UsesText round :=
  fun cursor item after hrun => h cursor (.more item) after hrun

theorem consumes_bind_of_first {scanner : Scanner α} {next : α → Scanner β}
    (hscanner : Consumes scanner) (hnext : ∀ value, Advances (next value)) :
    Consumes (scanner >>= next) := by
  intro cursor value after hrun
  rw [run_bind] at hrun
  split at hrun
  · rename_i first middle hfirst
    exact Nat.lt_of_le_of_lt ((hnext first).leadsTo hrun).length_le
      (hscanner cursor first middle hfirst)
  · simp at hrun

theorem consumes_bind_of_next {scanner : Scanner α} {next : α → Scanner β}
    (hscanner : Advances scanner) (hnext : ∀ value, Consumes (next value)) :
    Consumes (scanner >>= next) := by
  intro cursor value after hrun
  rw [run_bind] at hrun
  split at hrun
  · rename_i first middle hfirst
    exact Nat.lt_of_lt_of_le (hnext first middle value after hrun)
      (hscanner.leadsTo hfirst).length_le
  · simp at hrun

theorem length_takeIf_lt {accept : Char → Bool} {cursor after : Cursor} {char : Char}
    (h : (takeIf accept).run cursor = (.ok (some char), after)) :
    after.rest.length < cursor.rest.length := by
  simp only [takeIf] at h
  split at h
  · rename_i found hpeek
    split at h
    · simp only [Prod.mk.injEq, Except.ok.injEq] at h
      exact h.2 ▸ Cursor.length_next_lt hpeek
    · simp at h
  · simp at h

end Scanner

end Lindenmayer
