import Lindenmayer.Proofs.BlankLine.Places
import Lindenmayer.Proofs.Extension.Tokens
import Lindenmayer.Proofs.Faults.Places
import Lindenmayer.Proofs.Parsing

/-! Between two lines a blank line stops every scan, since no element may begin at its end. -/

namespace Lindenmayer

open Grammar Scanner

namespace BlankLine

variable {α β : Type} {blank : BlankLine}

/-- A scan that finds the end of the blank line where an element should be. -/
def Reports (blank : BlankLine) (scan : Scan α) : Prop :=
  ∃ element after, scan = (.error (blank.stop.expected element), after)

/-- The scans of both texts: if the text without the blank line is read, then the other is read
alike up to the same place, or stands at the blank line, or has failed there. -/
inductive Keeps (blank : BlankLine) (Rest : α → Cursor → Prop) : Scan α → Scan α → Prop
  | failed {error : SyntaxError} {after : Cursor} {scan : Scan α} :
      Keeps blank Rest (.error error, after) scan
  | reported {scan other : Scan α} (reports : blank.Reports other) : Keeps blank Rest scan other
  | ahead {value : α} {left right : Cursor} (ahead : blank.Ahead left right) :
      Keeps blank Rest (.ok value, left) (.ok value, right)
  | stalled {value other : α} {left right : Cursor} (rest : Rest other right) :
      Keeps blank Rest (.ok value, left) (.ok other, right)

/-- A scanner that keeps pace ahead of the blank line, and at the blank line either stays there or
fails. -/
structure Holds (blank : BlankLine) (Before : Cursor → Prop) (Rest : α → Cursor → Prop)
    (scanner : Scanner α) : Prop where
  ahead : ∀ left right, blank.Ahead left right →
    blank.Keeps Rest (scanner.run left) (scanner.run right)
  stalled : ∀ right, Before right → blank.Reports (scanner.run right) ∨
    ∃ value after, scanner.run right = (.ok value, after) ∧ Rest value after

/-- No place; for scanners that do not stand at the blank line before or after. -/
def Never (_ : Cursor) : Prop :=
  False

variable {Before Middle : Cursor → Prop} {Rest : β → Cursor → Prop}

theorem holds_pure (value : α) : blank.Holds Before (fun _ => Before) (Pure.pure value) :=
  ⟨fun _ _ h => .ahead h, fun right h => .inr ⟨value, right, rfl, h⟩⟩

theorem reports_bind {scanner : Scanner α} {next : α → Scanner β} {right : Cursor}
    (h : blank.Reports (scanner.run right)) : blank.Reports ((scanner >>= next).run right) := by
  obtain ⟨element, after, hrun⟩ := h
  exact ⟨element, after, run_bind_of_error hrun next⟩

theorem holds_bind {Next : α → Cursor → Prop} {scanner : Scanner α} {next : α → Scanner β}
    (hscanner : blank.Holds Before Next scanner)
    (hnext : ∀ value, blank.Holds (Next value) Rest (next value)) :
    blank.Holds Before Rest (scanner >>= next) := by
  constructor
  · intro left right h
    have hfirst := hscanner.ahead left right h
    generalize hleft : scanner.run left = scan at hfirst
    generalize hright : scanner.run right = other at hfirst
    cases hfirst with
    | failed =>
        rw [run_bind_of_error hleft]
        exact .failed
    | reported reports => exact .reported (reports_bind (hright ▸ reports))
    | ahead ahead =>
        rw [run_bind_of_ok hleft, run_bind_of_ok hright]
        exact (hnext _).ahead _ _ ahead
    | @stalled value other after otherAfter rest =>
        rw [run_bind_of_ok hleft, run_bind_of_ok hright]
        rcases (hnext other).stalled _ rest with hreports | ⟨result, final, hrun, hrest⟩
        · exact .reported hreports
        · rw [hrun]
          cases (next value).run after with
          | mk outcome last =>
              cases outcome with
              | ok _ => exact .stalled hrest
              | error _ => exact .failed
  · intro right h
    rcases hscanner.stalled right h with hreports | ⟨value, after, hrun, hrest⟩
    · exact .inl (reports_bind hreports)
    · rw [run_bind_of_ok hrun]
      exact (hnext value).stalled after hrest

theorem holds_of_staysInLine {scanner : Scanner α} (h : StaysInLine scanner)
    (hbefore : ∀ right, Before right → blank.Reports (scanner.run right)) :
    blank.Holds Before (fun _ => Never) scanner := by
  refine ⟨fun left right ahead => ?_, fun right hright => .inl (hbefore right hright)⟩
  cases ahead with
  | @intro lines closed border =>
      rcases h lines closed with ⟨error, herror⟩ | ⟨value, count, hcount, hvalue⟩
      · obtain ⟨after, hrun⟩ := herror blank.after
        rw [hrun]
        exact .failed
      · rw [hvalue, hvalue]
        exact .ahead (.drop closed border hcount)

theorem holds_token {scanner : Scanner α} (h : StaysInLine scanner)
    (hstop : blank.Reports (scanner.run blank.stop)) :
    blank.Holds (· = blank.stop) (fun _ => Never) scanner :=
  holds_of_staysInLine h fun _ hright => hright ▸ hstop

theorem holds_ahead {scanner : Scanner α} (h : StaysInLine scanner) :
    blank.Holds Never (fun _ => Never) scanner :=
  holds_of_staysInLine h fun _ hright => hright.elim

theorem holds_move {advance : Cursor → Cursor} {After : Cursor → Prop}
    (hahead : ∀ left right, blank.Ahead left right →
      blank.Ahead (advance left) (advance right) ∨ After (advance right))
    (hstalled : ∀ right, Before right → After (advance right)) :
    blank.Holds Before (fun _ => After) (move advance) := by
  refine ⟨fun left right ahead => ?_, fun right h => .inr ⟨(), _, rfl, hstalled right h⟩⟩
  rcases hahead left right ahead with h | h
  · exact .ahead h
  · exact .stalled h

theorem holds_skip : blank.Holds blank.Stalled (fun _ => (· = blank.stop)) (move Cursor.skip) :=
  holds_move (fun _ _ ahead => ahead.skip) fun _ h => h.skip

/-- At the blank line a loop stands in front of another round, which has to fail or stay there. -/
theorem reports_collect {round : Scanner (Round α)} (h : UsesText round)
    (hround : blank.Holds blank.Stalled
      (fun found right => (∃ item, found = .more item) ∧ blank.Stalled right) round)
    (right : Cursor) (hright : blank.Stalled right) :
    blank.Reports ((collect round h).run right) := by
  rw [run_collect_eq]
  rcases hround.stalled right hright with hreports | ⟨_, after, hrun, ⟨item, rfl⟩, hafter⟩
  · exact reports_bind hreports
  · rw [run_bind_of_ok hrun]
    exact reports_bind (reports_collect h hround after hafter)
termination_by right.rest.length
decreasing_by exact h right item after hrun

theorem keeps_collect {round : Scanner (Round α)} (h : UsesText round)
    (hround : blank.Holds blank.Stalled
      (fun found right => (∃ item, found = .more item) ∧ blank.Stalled right) round)
    (left right : Cursor) (ahead : blank.Ahead left right) :
    blank.Keeps (fun _ => Never) ((collect round h).run left) ((collect round h).run right) := by
  have hfirst := hround.ahead left right ahead
  rw [run_collect_eq h left, run_collect_eq h right]
  generalize hleft : round.run left = scan at hfirst
  generalize hright : round.run right = other at hfirst
  cases hfirst with
  | failed =>
      rw [run_bind_of_error hleft]
      exact .failed
  | reported reports => exact .reported (reports_bind (hright ▸ reports))
  | @stalled value _ after otherAfter rest =>
      obtain ⟨⟨item, rfl⟩, hafter⟩ := rest
      rw [run_bind_of_ok hright]
      exact .reported (reports_bind (reports_collect h hround otherAfter hafter))
  | @ahead found after otherAfter hnext =>
      rw [run_bind_of_ok hleft, run_bind_of_ok hright]
      cases found with
      | stop => exact .ahead hnext
      | last item => exact .ahead hnext
      | more item =>
          have hothers := keeps_collect h hround after otherAfter hnext
          simp only [run_bind]
          generalize (collect round h).run after = scan at hothers
          generalize hother : (collect round h).run otherAfter = other at hothers
          cases hothers with
          | failed => exact .failed
          | reported reports =>
              obtain ⟨element, final, rfl⟩ := reports
              exact .reported ⟨element, final, rfl⟩
          | ahead hfinal => exact .ahead hfinal
          | stalled hnever => exact hnever.elim
termination_by left.rest.length
decreasing_by exact h left item after hleft

theorem holds_collect {round : Scanner (Round α)} (h : UsesText round)
    (hround : blank.Holds blank.Stalled
      (fun found right => (∃ item, found = .more item) ∧ blank.Stalled right) round) :
    blank.Holds blank.Stalled (fun _ => Never) (collect round h) :=
  ⟨keeps_collect h hround, fun right hright => .inl (reports_collect h hround right hright)⟩

theorem holds_unlessAtEnd {yes no : Scanner β} (hno : blank.Holds Before Rest no)
    (hbefore : ∀ right, Before right → blank.Stalled right) :
    blank.Holds Before Rest (do if (← here).atEnd then yes else no) := by
  have hrun : ∀ cursor : Cursor, ¬Idle cursor.rest →
      (here >>= fun cursor => if cursor.atEnd then yes else no).run cursor = no.run cursor := by
    intro cursor hidle
    rw [run_bind_of_ok (run_here _), if_neg (mt atEnd_iff.mp (not_idle_ne_nil hidle))]
  refine ⟨fun left right ahead => ?_, fun right h => ?_⟩
  · rw [hrun left ahead.not_idle.1, hrun right ahead.not_idle.2]
    exact hno.ahead left right ahead
  · rw [hrun right (hbefore right h).not_idle]
    exact hno.stalled right h

theorem holds_lineBreak : blank.Holds Never (fun _ => blank.Stalled) lineBreak := by
  refine ⟨fun left right ahead => ?_, fun right h => h.elim⟩
  rw [run_lineBreak, run_lineBreak]
  rcases ahead.round Cursor.idleLineRound_usesText Cursor.looksInLine_idleLineRound with
    ⟨hleft, _⟩ | ⟨after, other, hleft, hright, hnext | rfl⟩
  · rw [hleft]
    exact .failed
  · rw [hleft, hright]
    exact .ahead hnext
  · rw [hleft, hright]
    exact .stalled blank.stalled_front

theorem holds_lineEnd : blank.Holds Never (fun _ => blank.Stalled) lineEnd := by
  have hcomments : blank.Holds blank.Stalled (fun _ => blank.Stalled)
      (move Cursor.skipCommentLines) :=
    holds_move (fun _ _ ahead => ahead.skipCommentLines) fun _ h => by rwa [h.skipCommentLines]
  refine holds_bind holds_lineBreak fun _ => holds_bind hcomments fun _ => ?_
  -- What follows the blank line is not idle, so no line in front of it trails.
  refine holds_move (fun left right ahead => ?_) fun right h => ?_
  · rw [Cursor.skipTrailingLines_of_not_idle ahead.not_idle.1,
      Cursor.skipTrailingLines_of_not_idle ahead.not_idle.2]
    exact .inl ahead
  · rwa [Cursor.skipTrailingLines_of_not_idle h.not_idle]

theorem reports_symbol : blank.Reports (symbol.run blank.stop) := by
  refine ⟨.symbol, blank.stop, run_symbol_of_refused fun char hpeek => .inr ?_⟩
  rw [blank.peek_stop] at hpeek
  exact (Option.some.inj hpeek).symm

theorem reports_expectAll {char : Char} {chars : List Char} (element : Element) (h : char ≠ '\n') :
    blank.Reports ((expectAll (char :: chars) element).run blank.stop) := by
  refine ⟨element, blank.stop, ?_⟩
  have hprefix : (char :: chars).isPrefixOf blank.stop.rest = false := by
    rw [blank.rest_stop, List.isPrefixOf_cons_cons, beq_eq_false_iff_ne.mpr h, Bool.false_and]
  simp only [expectAll, hprefix]
  rfl

theorem isClosed_newline : IsClosed ['\n'] :=
  ⟨[], rfl⟩

theorem reports_number (element : Element) : blank.Reports ((number element).run blank.stop) := by
  refine ⟨element, blank.stop, ?_⟩
  have hscan : NumberLiteral.scan blank.stop.rest = none := by
    have hlocal := NumberLiteral.scan_append_fst blank.after isClosed_newline
    rw [blank.rest_stop]
    exact Option.map_eq_none_iff.mp hlocal
  simp only [number, hscan]

theorem reports_generations : blank.Reports (generations.run blank.stop) := by
  refine ⟨.integer, blank.stop, run_generations_of_none ?_⟩
  have hlocal := IntegerLiteral.scan_append_fst blank.after isClosed_newline
  rw [blank.rest_stop]
  exact Option.map_eq_none_iff.mp hlocal

theorem holds_symbols : blank.Holds blank.Stalled (fun _ => Never) symbols := by
  refine holds_bind holds_skip fun _ => ?_
  refine holds_bind (holds_token staysInLine_symbol reports_symbol) fun _ => ?_
  refine holds_bind (holds_ahead (staysInLine_collect _ staysInLine_symbolRound)) fun _ => ?_
  exact holds_pure _

theorem Holds.of_before {Later : Cursor → Prop} {scanner : Scanner β}
    (h : blank.Holds Before Rest scanner) (hlater : ∀ right, Later right → Before right) :
    blank.Holds Later Rest scanner :=
  ⟨h.ahead, fun right hright => h.stalled right (hlater right hright)⟩

theorem holds_field {keyword : List Char} (element : Element) {value : Scanner α} {char : Char}
    {chars : List Char} (hkeyword : keyword = char :: chars) (hnewline : '\n' ∉ keyword)
    (hvalue : blank.Holds (· = blank.stop) (fun _ => Never) value) :
    blank.Holds blank.Stalled (fun _ => blank.Stalled) (field keyword element value) := by
  have hstop : blank.Reports ((expectAll keyword element).run blank.stop) := by
    rw [hkeyword, List.mem_cons, not_or] at hnewline
    rw [hkeyword]
    exact reports_expectAll element (Ne.symm hnewline.1)
  refine holds_bind holds_skip fun _ => ?_
  refine holds_bind (holds_token (staysInLine_expectAll element hnewline) hstop) fun _ => ?_
  refine holds_bind (holds_skip.of_before fun _ h => h.elim) fun _ => ?_
  refine holds_bind hvalue fun _ => ?_
  exact holds_bind holds_lineEnd fun _ => holds_pure _

theorem keeps_closing {left right : Cursor} (ahead : blank.Ahead left right) (start other : Cursor)
    (value : Binary64) {After : Binary64 → Cursor → Prop} :
    blank.Keeps After
      (if left.skip.peek = some ')' then
        (if value.IsProbability then .ok value
          else .error (start.outOfRange .probability value.text), left.skip.next)
      else (.error (left.skip.expected .closeParen), left.skip))
      (if right.skip.peek = some ')' then
        (if value.IsProbability then .ok value
          else .error (other.outOfRange .probability value.text), right.skip.next)
      else (.error (right.skip.expected .closeParen), right.skip)) := by
  rcases ahead.skip with hskip | hstop
  · rw [hskip.peek_eq]
    by_cases hpeek : left.skip.peek = some ')'
    · rw [if_pos hpeek, if_pos hpeek]
      split
      · exact .ahead (hskip.next hpeek (by decide))
      · exact .failed
    · rw [if_neg hpeek]
      exact .failed
  · have hpeek : blank.stop.peek ≠ some ')' := by
      rw [blank.peek_stop]
      decide
    rw [hstop, if_neg hpeek]
    exact .reported ⟨.closeParen, blank.stop, rfl⟩

theorem holds_probability :
    blank.Holds (· = blank.stop) (fun _ => (· = blank.stop)) probability := by
  refine ⟨fun left right ahead => ?_, fun right hstop => .inr ⟨.one, right, ?_, hstop⟩⟩
  · by_cases hpeek : left.peek = some '('
    · obtain ⟨inner, hleft⟩ := Cursor.peek_eq_some_iff.mp hpeek
      obtain ⟨otherInner, hright⟩ := Cursor.peek_eq_some_iff.mp (ahead.peek_eq.trans hpeek)
      rw [run_probability_of_cons hleft, run_probability_of_cons hright]
      rcases (ahead.next hpeek (by decide)).skip with hskip | hstop
      · have hnumber := (holds_ahead (staysInLine_number .probability)).ahead _ _ hskip
        generalize (number .probability).run left.next.skip = scan at hnumber
        generalize (number .probability).run right.next.skip = other at hnumber
        cases hnumber with
        | failed => exact .failed
        | reported reports =>
            obtain ⟨element, after, rfl⟩ := reports
            exact .reported ⟨element, after, rfl⟩
        | ahead hbehind => exact keeps_closing hbehind _ _ _
        | stalled hnever => exact hnever.elim
      · obtain ⟨element, after, hrun⟩ := @reports_number blank .probability
        rw [hstop, hrun]
        exact .reported ⟨element, after, rfl⟩
    · have hright : right.peek ≠ some '(' := by rwa [ahead.peek_eq]
      rw [run_probability_of_peek_ne hpeek, run_probability_of_peek_ne hright]
      exact .ahead ahead
  · apply run_probability_of_peek_ne
    rw [hstop, blank.peek_stop]
    decide

theorem holds_production : blank.Holds blank.Stalled (fun _ => Never) production := by
  have harrow : StaysInLine (expectAll ['-', '>'] .arrow) := staysInLine_expectAll _ (by decide)
  refine holds_bind holds_skip fun _ => ?_
  refine holds_bind (holds_token staysInLine_symbol reports_symbol) fun _ => ?_
  refine holds_bind (holds_skip.of_before fun _ h => h.elim) fun _ => ?_
  refine holds_bind holds_probability fun _ => ?_
  refine holds_bind (holds_skip.of_before fun _ h => h ▸ blank.stalled_stop) fun _ => ?_
  refine holds_bind (holds_token harrow (reports_expectAll .arrow (by decide))) fun _ => ?_
  refine holds_bind (holds_symbols.of_before fun _ h => h.elim) fun _ => ?_
  exact holds_pure _

theorem holds_productionRound :
    blank.Holds blank.Stalled
      (fun found right => (∃ item, found = .more item) ∧ blank.Stalled right) productionRound := by
  refine holds_bind holds_production fun line => ?_
  refine holds_unlessAtEnd ?_ fun _ h => h.elim
  refine holds_bind holds_lineEnd fun _ => ?_
  refine holds_unlessAtEnd ?_ fun _ h => h
  exact ⟨fun _ _ ahead => .ahead ahead, fun right h => .inr ⟨.more line, right, rfl, ⟨line, rfl⟩, h⟩⟩

theorem holds_model : blank.Holds blank.Stalled (fun _ => Never) Scanner.model := by
  have hnumber : blank.Holds (· = blank.stop) (fun _ => Never) (number .number) :=
    holds_token (staysInLine_number .number) (reports_number .number)
  have hcount : blank.Holds (· = blank.stop) (fun _ => Never) generations :=
    holds_token staysInLine_generations reports_generations
  refine holds_bind (holds_field _ rfl (by decide) hcount) fun _ => ?_
  refine holds_bind (holds_field _ rfl (by decide) hnumber) fun _ => ?_
  refine holds_bind (holds_field _ rfl (by decide) hnumber) fun _ => ?_
  refine holds_bind (holds_field _ rfl (by decide)
    (holds_symbols.of_before fun _ h => h ▸ blank.stalled_stop)) fun _ => ?_
  refine holds_bind (holds_bind (holds_collect _ holds_productionRound) fun _ => holds_pure _)
    fun _ => holds_pure _

theorem reports_model {before after : List Char} {spaces : Nat} {final : Cursor} {model : Model}
    (h : ¬Idle after) (hbefore : before = [] ∨ IsClosed before)
    (hrun : Scanner.model.run (.ofChars (before ++ after)) = (.ok model, final))
    (hfinal : final.rest = []) :
    (behind before after spaces h).Reports (Scanner.model.run
      (.ofChars (before ++ (List.replicate spaces ' ' ++ '\n' :: after)))) := by
  have hmodel := @holds_model (behind before after spaces h)
  rcases hbefore with rfl | closed
  · rcases hmodel.stalled _ (stalled_front _) with hreports | ⟨_, _, _, hnever⟩
    · exact hreports
    · exact hnever.elim
  · have hkeeps : (behind before after spaces h).Keeps (fun _ => Never)
        (Scanner.model.run (.ofChars (before ++ after)))
        (Scanner.model.run (.ofChars (before ++ (List.replicate spaces ' ' ++ '\n' :: after)))) :=
      hmodel.ahead _ _ (@Ahead.intro _ (.ofChars before) closed rfl)
    rw [hrun] at hkeeps
    generalize Scanner.model.run (.ofChars (before ++ (_ ++ _))) = scan at hkeeps ⊢
    cases hkeeps with
    | reported reports => exact reports
    | ahead ahead => exact absurd hfinal (not_idle_ne_nil ahead.not_idle.1)
    | stalled hnever => exact hnever.elim

end BlankLine

def blankLine (spaces : Nat) : String :=
  String.ofList (List.replicate spaces ' ' ++ ['\n'])

namespace Model

theorem parse_append_idle {idle : String} (h : Idle idle.toList) (text : String) (model : Model) :
    parse (text ++ idle) = .ok model ↔ parse text = .ok model := by
  rw [(parse_eq_ok_iff _).1, (parse_eq_ok_iff _).1, String.toList_append]
  exact document_append_iff h

theorem parse_blankLine_of_idle {before after : String} {model : Model}
    (h : parse (before ++ after) = .ok model) (hidle : Idle after.toList) (spaces : Nat) :
    parse (before ++ blankLine spaces ++ after) = .ok model := by
  have hblank : Idle (blankLine spaces ++ after).toList := by
    rw [blankLine, String.toList_append, String.toList_ofList, List.append_assoc]
    exact (spaces_replicate spaces _).layout.idle (idle_newline.mpr hidle)
  rw [String.append_assoc, parse_append_idle hblank]
  exact (parse_append_idle hidle before model).mp h

theorem parse_blankLine_of_not_idle {before after : String} {model : Model}
    (hbefore : before = "" ∨ IsClosed before.toList) (h : parse (before ++ after) = .ok model)
    (hidle : ¬Idle after.toList) (spaces : Nat) :
    ∃ element, parse (before ++ blankLine spaces ++ after) =
      .error ⟨⟨none, 1 + before.toList.count '\n', spaces + 1⟩, .expected element "\n"⟩ := by
  have hlines : before.toList = [] ∨ IsClosed before.toList :=
    hbefore.imp_left (congrArg String.toList)
  have hdocument := document_of_parse h
  rw [String.toList_append] at hdocument
  obtain ⟨final, hrun, hfinal⟩ :=
    @Scanner.run_of_document (.ofChars (before.toList ++ after.toList)) _ hdocument
  obtain ⟨element, last, hreports⟩ := BlankLine.reports_model hidle hlines hrun hfinal
  refine ⟨element, parse_eq_error_iff.mpr ⟨last, ?_⟩⟩
  have htext : (before ++ blankLine spaces ++ after).toList =
      before.toList ++ (List.replicate spaces ' ' ++ '\n' :: after.toList) := by
    simp [blankLine]
  rw [htext, hreports, Cursor.expected, BlankLine.location_stop hidle hlines,
    BlankLine.context_stop]

/-- A blank line is never a separator but always allowed at the end. Put between two lines of a text
that is read, it is where an element is missed, unless nothing but idle lines follows it; and idle
lines at the end of any text change nothing. -/
theorem parse_blankLine :
    (∀ (before after : String) (spaces : Nat) (model : Model),
      before = "" ∨ IsClosed before.toList → parse (before ++ after) = .ok model →
        (Idle after.toList → parse (before ++ blankLine spaces ++ after) = .ok model) ∧
        (¬Idle after.toList → ∃ element, parse (before ++ blankLine spaces ++ after) =
          .error ⟨⟨none, 1 + before.toList.count '\n', spaces + 1⟩,
            .expected element "\n"⟩)) ∧
    ∀ text idle : String, Idle idle.toList → ∀ model : Model,
      parse (text ++ idle) = .ok model ↔ parse text = .ok model := by
  refine ⟨fun before after spaces model hbefore h => ⟨fun hidle => ?_, fun hidle => ?_⟩, ?_⟩
  · exact parse_blankLine_of_idle h hidle spaces
  · exact parse_blankLine_of_not_idle hbefore h hidle spaces
  · exact fun text idle hidle model => parse_append_idle hidle text model

theorem parse_blankLine_inside :
    ∃ model, parse "generations:1\nangle:0\nscale:1\naxiom:F\nF#\n->f" = .ok model ∧
      (∃ element, parse "generations:1\nangle:0\nscale:1\naxiom:F\nF#\n  \n->f" =
        .error ⟨⟨none, 6, 3⟩, .expected element "\n"⟩) ∧
      parse "generations:1\nangle:0\nscale:1\naxiom:F\nF#\n->f\n # end" = .ok model := by
  have hparse : parse ("generations:1\nangle:0\nscale:1\naxiom:F\nF#\n" ++ "->f") =
      .ok ⟨1, .zero false, .one, [.moveForward],
        .ofList [(.moveForward, ⟨.one, [.jumpForward]⟩)]⟩ := by decide +kernel
  have hbefore : IsClosed "generations:1\nangle:0\nscale:1\naxiom:F\nF#\n".toList :=
    ⟨"generations:1\nangle:0\nscale:1\naxiom:F\nF#".toList, rfl⟩
  have hafter : ¬Idle "->f".toList := (startsToken_cons (by decide)).not_idle
  have hidle : Idle "\n # end".toList :=
    .line .done .newline (.line (.space .done) (.comment (.last (by decide))) (.spaces .done))
  have hblank := (parse_blankLine.1 _ _ 2 _ (.inr hbefore) hparse).2 hafter
  have htrailing := (parse_blankLine.2 _ _ hidle _).mpr hparse
  exact ⟨_, hparse, hblank, htrailing⟩

end Model

end Lindenmayer
