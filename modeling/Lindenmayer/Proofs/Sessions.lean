import Lindenmayer.Proofs.Faults.Complaints
import Lindenmayer.Proofs.Faults.Places

/-! Steps of every kind in any order, each one from where the step before it has stopped. -/

namespace Lindenmayer

open Grammar Scanner

inductive Step where
  | next
  | peek
  | eat (char : Char)
  | expect (char : Char) (element : Element)
  | expectAll (chars : List Char) (element : Element)
  | skipSpaces
  | skip
  | lineEnd
  | integer
  | number (element : Element)
  | symbol
  | symbols
  | probability
  | production
  | productions
  | generations
  | generationsField
  | angleField
  | scaleField
  | seedField
  | model

namespace Step

def Result : Step → Type
  | next | peek => Option Char
  | eat _ => Bool
  | expect _ _ | expectAll _ _ | skipSpaces | skip | lineEnd => Unit
  | integer => Int
  | number _ | probability | angleField | scaleField => Binary64
  | symbol => Symbol
  | symbols | seedField => Word
  | production => Symbol × Production
  | productions => Table
  | generations | generationsField => UInt32
  | model => Model

def scanner : (step : Step) → Scanner step.Result
  | next => takeIf fun _ => true
  | peek => do return (← here).peek
  | eat char => Scanner.eat char
  | expect char element => Scanner.expect char element
  | expectAll chars element => Scanner.expectAll chars element
  | skipSpaces => move Cursor.skipSpaces
  | skip => move Cursor.skip
  | lineEnd => Scanner.lineEnd
  | integer => Scanner.integer
  | number element => Scanner.number element
  | symbol => Scanner.symbol
  | symbols => Scanner.symbols
  | probability => Scanner.probability
  | production => Scanner.production
  | productions => Scanner.productions
  | generations => Scanner.generations
  | generationsField => Scanner.generationsField
  | angleField => Scanner.angleField
  | scaleField => Scanner.scaleField
  | seedField => Scanner.seedField
  | model => Scanner.model

def complaints : Step → List Complaint
  | next | peek | eat _ | skipSpaces | skip => []
  | expect _ element | expectAll _ element => [.missing element]
  | lineEnd => [.missing .newline]
  | integer => [.missing .integer, .whole .integer]
  | number element => [.missing element, .decimal element]
  | symbol | symbols => [.missing .symbol]
  | probability => [.missing .probability, .decimal .probability, .missing .closeParen, .weight]
  | production | productions => lineComplaints
  | generations => [.missing .integer, .whole .generations]
  | generationsField =>
      [.missing .generations, .missing .integer, .whole .generations, .missing .newline]
  | angleField => [.missing .angle, .missing .number, .decimal .number, .missing .newline]
  | scaleField => [.missing .scale, .missing .number, .decimal .number, .missing .newline]
  | seedField => [.missing .seed, .missing .symbol, .missing .newline]
  | model => textComplaints

end Step

theorem complains_step (step : Step) : Complains step.complaints step.scanner := by
  cases step with
  | next => exact complains_takeIf _
  | peek => exact complains_bind complains_here fun _ => complains_pure _
  | eat char => exact complains_eat char
  | expect char element => exact complains_expect List.mem_cons_self
  | expectAll chars element => exact complains_expectAll List.mem_cons_self
  | skipSpaces => exact complains_move Cursor.leadsTo_skipSpaces
  | skip => exact complains_move Cursor.leadsTo_skip
  | lineEnd => exact complains_lineEnd (by decide)
  | integer => exact complains_integer (by decide) (by decide)
  | number element => exact complains_number List.mem_cons_self (.tail _ List.mem_cons_self)
  | symbol => exact complains_symbol (by decide)
  | symbols => exact complains_symbols (by decide)
  | probability => exact complains_probability
  | production => exact complains_production
  | productions => exact complains_productions
  | generations => exact complains_generations (by decide) (by decide)
  | generationsField => exact complains_generationsField
  | angleField => exact complains_numberField _ _
  | scaleField => exact complains_numberField _ _
  | seedField => exact complains_seedField
  | model => exact complains_model

inductive Action where
  | step (step : Step)
  /-- Back to an earlier place, counted from the latest. -/
  | reset (age : Nat)

structure Session where
  cursor : Cursor
  earlier : List Cursor

namespace Session

def start (text : String) : Session :=
  ⟨.ofChars text.toList, []⟩

def perform (session : Session) : Action → Session
  | .step step => ⟨(step.scanner.run session.cursor).2, session.cursor :: session.earlier⟩
  | .reset age => ⟨session.earlier.getD age session.cursor, session.cursor :: session.earlier⟩

def performAll (session : Session) (actions : List Action) : Session :=
  actions.foldl perform session

/-- All places lie in one text, at or behind a place of it. -/
structure ComesFrom (session : Session) (origin : Cursor) : Prop where
  cursor : origin.LeadsTo session.cursor
  earlier : ∀ place ∈ session.earlier, origin.LeadsTo place

theorem ComesFrom.perform {session : Session} {origin : Cursor} (h : session.ComesFrom origin)
    (action : Action) : (session.perform action).ComesFrom origin := by
  have hearlier : ∀ place ∈ session.cursor :: session.earlier, origin.LeadsTo place :=
    List.forall_mem_cons.mpr ⟨h.cursor, h.earlier⟩
  cases action with
  | step step => exact ⟨h.cursor.trans ((complains_step step).advances _), hearlier⟩
  | reset age =>
      refine ⟨?_, hearlier⟩
      simp only [Session.perform, List.getD_eq_getElem?_getD]
      cases hplace : session.earlier[age]? with
      | none => exact h.cursor
      | some place => exact h.earlier place (List.mem_of_getElem? hplace)

theorem ComesFrom.performAll {session : Session} {origin : Cursor} (h : session.ComesFrom origin)
    (actions : List Action) : (session.performAll actions).ComesFrom origin := by
  induction actions generalizing session with
  | nil => exact h
  | cons action actions ih => exact ih (h.perform action)

end Session

namespace Cursor

/-- The text is parted in two where the cursor stands: what is still to come is the second part, and
its offset, line and column are counted over the first. -/
def StandsIn (cursor : Cursor) (text : String) : Prop :=
  ∃ before after : String, text = before ++ after ∧ cursor.rest = after.toList ∧
    cursor.position.offset = before.utf8ByteSize ∧ cursor.location = .behind before.toList

theorem standsIn_of_leadsTo {text : String} {cursor : Cursor}
    (h : (ofChars text.toList).LeadsTo cursor) : cursor.StandsIn text := by
  obtain ⟨count, rfl⟩ := h
  obtain ⟨hline, hcolumn⟩ := Position.advanceOver_start (text.toList.take count)
  refine ⟨.ofList (text.toList.take count), .ofList (text.toList.drop count), ?_, ?_, ?_, ?_⟩
  · rw [← String.ofList_append, List.take_append_drop, String.ofList_toList]
  · rw [String.toList_ofList]
    rfl
  · rw [position_drop, Position.offset_advanceOver]
    exact Nat.zero_add _
  · rw [String.toList_ofList]
    exact congrArg₂ (Location.mk none) hline hcolumn

theorem StandsIn.isValid {text : String} {cursor : Cursor} (h : cursor.StandsIn text) :
    String.Pos.Raw.IsValid text ⟨cursor.position.offset⟩ := by
  obtain ⟨before, after, htext, _, hoffset, _⟩ := h
  refine String.Pos.Raw.isValid_iff_exists_append.mpr ⟨before, after, htext, ?_⟩
  rw [hoffset]
  rfl

end Cursor

namespace Scanner

theorem eat_of_false {char : Char} {cursor after : Cursor}
    (h : (eat char).run cursor = (.ok false, after)) : after = cursor := by
  by_cases hpeek : cursor.peek = some char
  · obtain ⟨rest, hrest⟩ := Cursor.peek_eq_some_iff.mp hpeek
    simp [run_eat_of_cons hrest] at h
  · rw [run_eat_of_peek_ne hpeek] at h
    exact (Prod.mk.inj h).2.symm

theorem run_integer_of_none {cursor : Cursor}
    (h : ∀ literal : IntegerLiteral, ¬literal.chars <+: cursor.rest) :
    integer.run cursor = (.error (cursor.expected .integer), cursor) := by
  rw [run_integer, IntegerLiteral.scan_eq_none_iff.mpr h]

theorem spaces_of_lineEnd {cursor after : Cursor} {error : SyntaxError}
    (h : lineEnd.run cursor = (.error error, after)) :
    (∀ char ∈ after.since cursor, char = ' ') ∧
      ∀ char, after.peek = some char → StandsForSymbol char := by
  obtain ⟨hround, rfl, _⟩ := error_of_lineEnd h
  constructor
  · have hsince : cursor.skipSpaces.since cursor = cursor.rest.takeWhile (· = ' ') := by
      rw [Cursor.skipSpaces, Cursor.dropWhile,
        Cursor.since_drop (List.takeWhile_prefix _).length_le]
      exact (List.prefix_iff_eq_take.mp (List.takeWhile_prefix _)).symm
    intro char hmem
    rw [hsince] at hmem
    exact of_decide_eq_true (List.mem_takeWhile_imp (p := (· = ' ')) hmem)
  · intro char hpeek
    obtain ⟨hnewline, hmark⟩ := Cursor.idleLineRound_eq_none_iff.mp hround
    refine ⟨?_, ?_, ?_⟩
    · rintro rfl
      exact cursor.peek_skipSpaces hpeek
    · rintro rfl
      exact hnewline hpeek
    · rintro rfl
      exact hmark hpeek

end Scanner

/-- At any time in a session the cursor stands at a place in the text, where no step but a return
moves it back. What a step misses is what stands where it leaves the cursor, a number out of range
lies in front of that place and its error at the front of the number. Single characters and tokens
that are not there leave the cursor where it was, and so does a line end, but for spaces. -/
theorem session_invariant (text : String) (actions : List Action) :
    ∀ cursor, cursor = ((Session.start text).performAll actions).cursor →
      (String.Pos.Raw.IsValid text ⟨cursor.position.offset⟩ ∧ cursor.StandsIn text) ∧
      (∀ (step : Step) outcome after, step.scanner.run cursor = (outcome, after) →
        cursor.position.offset ≤ after.position.offset ∧
        ∀ error, outcome = .error error → Cursor.Stopped step.complaints cursor after error ∧
          ∀ element found, error.fault = .expected element found →
            error = after.expected element) ∧
      (∀ char after, (eat char).run cursor = (.ok false, after) → after = cursor) ∧
      (∀ char element error after, (expect char element).run cursor = (.error error, after) →
        after = cursor) ∧
      (∀ chars element error after,
        (expectAll chars element).run cursor = (.error error, after) → after = cursor) ∧
      (∀ error after, symbol.run cursor = (.error error, after) → after = cursor) ∧
      ((∀ literal : IntegerLiteral, ¬literal.chars <+: cursor.rest) →
        integer.run cursor = (.error (cursor.expected .integer), cursor)) ∧
      (∀ element, (∀ literal : NumberLiteral, ¬literal.chars <+: cursor.rest) →
        (number element).run cursor = (.error (cursor.expected element), cursor)) ∧
      ∀ error after, lineEnd.run cursor = (.error error, after) →
        (∀ char ∈ after.since cursor, char = ' ') ∧
          ∀ char, after.peek = some char → StandsForSymbol char := by
  intro cursor hcursor
  have hstart : (Session.start text).ComesFrom (.ofChars text.toList) := ⟨.refl _, nofun⟩
  have hstands : cursor.StandsIn text :=
    Cursor.standsIn_of_leadsTo (hcursor ▸ (hstart.performAll actions).cursor)
  refine ⟨⟨hstands.isValid, hstands⟩, fun step outcome after hrun => ?_, fun _ _ => eat_of_false,
    fun _ _ _ _ hrun => (error_of_expect hrun).2, fun _ _ _ _ hrun => (error_of_expectAll hrun).2,
    fun _ _ hrun => (error_of_symbol hrun).2, run_integer_of_none,
    fun element h => run_number_of_none (NumberLiteral.scan_eq_none_iff.mpr h) element,
    fun _ _ => spaces_of_lineEnd⟩
  have hstep := complains_step step
  refine ⟨(hstep.advances.leadsTo hrun).offset_le, ?_⟩
  rintro error rfl
  have hstopped := hstep.stopped hrun
  exact ⟨hstopped, fun element found hfault => (hstopped.missing_mem hfault).2⟩

/-- Behind a letter of two bytes, where the session has come back to from a missed line end. -/
theorem session_invariant_reset :
    ∃ cursor, ((Session.start "é -1\n").performAll
        [.step .symbol, .step .lineEnd, .reset 0]).cursor = cursor ∧
      cursor = ⟨" -1\n".toList, ⟨2, 1, 2⟩⟩ ∧ String.Pos.Raw.IsValid "é -1\n" ⟨2⟩ ∧
      (∃ error after, lineEnd.run cursor = (.error error, after) ∧
        cursor.position.offset ≤ after.position.offset ∧
        Cursor.Stopped [.missing .newline] cursor after error ∧
        ∀ char ∈ after.since cursor, char = ' ') ∧
      (eat '-').run cursor = (.ok false, cursor) ∧
      (∃ error, (expect '-' .arrow).run cursor = (.error error, cursor)) ∧
      (∃ error, (expectAll ['-', '1'] .arrow).run cursor = (.error error, cursor)) ∧
      (∃ error, symbol.run cursor = (.error error, cursor)) ∧
      integer.run cursor = (.error (cursor.expected .integer), cursor) ∧
      (number .scale).run cursor = (.error (cursor.expected .scale), cursor) := by
  have hcursor : ⟨" -1\n".toList, ⟨2, 1, 2⟩⟩ = ((Session.start "é -1\n").performAll
      [.step .symbol, .step .lineEnd, .reset 0]).cursor := by decide +kernel
  obtain ⟨⟨hvalid, _⟩, hstep, heat, hexpect, hexpectAll, hsymbol, hinteger, hnumber, hlineEnd⟩ :=
    session_invariant "é -1\n" [.step .symbol, .step .lineEnd, .reset 0] _ hcursor
  have hend : (lineEnd.run ⟨" -1\n".toList, ⟨2, 1, 2⟩⟩).1 =
      .error ⟨⟨none, 1, 3⟩, .expected .newline "-1"⟩ := by decide +kernel
  obtain ⟨hforward, hstopped⟩ := hstep .lineEnd _ _ (run_of_fst hend)
  refine ⟨_, rfl, hcursor.symm, hvalid, ?_⟩
  rw [← hcursor]
  refine ⟨⟨_, _, run_of_fst hend, hforward, (hstopped _ rfl).1, (hlineEnd _ _ (run_of_fst hend)).1⟩,
    ?_, ?_, ?_, ?_, hinteger (IntegerLiteral.scan_eq_none_iff.mp rfl),
    hnumber .scale (NumberLiteral.scan_eq_none_iff.mp rfl)⟩
  · have hrun : ((eat '-').run ⟨" -1\n".toList, ⟨2, 1, 2⟩⟩).1 = .ok false := by decide +kernel
    have hrun := run_of_fst hrun
    rw [hrun, heat _ _ hrun]
  · have hrun : ((expect '-' .arrow).run ⟨" -1\n".toList, ⟨2, 1, 2⟩⟩).1 =
        .error ⟨⟨none, 1, 2⟩, .expected .arrow " -1"⟩ := by decide +kernel
    have hrun := run_of_fst hrun
    exact ⟨_, by rw [hrun, hexpect _ _ _ _ hrun]⟩
  · have hrun : ((expectAll ['-', '1'] .arrow).run ⟨" -1\n".toList, ⟨2, 1, 2⟩⟩).1 =
        .error ⟨⟨none, 1, 2⟩, .expected .arrow " -1"⟩ := by decide +kernel
    have hrun := run_of_fst hrun
    exact ⟨_, by rw [hrun, hexpectAll _ _ _ _ hrun]⟩
  · have hrun : (symbol.run ⟨" -1\n".toList, ⟨2, 1, 2⟩⟩).1 =
        .error ⟨⟨none, 1, 2⟩, .expected .symbol " -1"⟩ := by decide +kernel
    have hrun := run_of_fst hrun
    exact ⟨_, by rw [hrun, hsymbol _ _ hrun]⟩

end Lindenmayer
