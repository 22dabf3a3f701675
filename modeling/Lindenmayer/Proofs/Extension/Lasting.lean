import Lindenmayer.Proofs.Extension.Tokens
import Lindenmayer.Proofs.Faults.Places
import Lindenmayer.Proofs.Faults.Tracing
import Lindenmayer.Proofs.Parsing

/-! A scan of a longer text goes the same way until it comes to a line without an end. -/

namespace Lindenmayer

open Grammar

namespace Scanner

variable {α β : Type}

/-- The scans of a text and of a longer one, from the same place. They go the same way or the first
has come to the line without an end, where it stops or finds its error. -/
inductive Lasts (more : List Char) (start : Cursor) : Scan α → Scan α → Prop
  | ok (value : α) (after : Cursor) : Lasts more start (.ok value, after) (.ok value, after.extend more)
  | error (error : SyntaxError) (after other : Cursor) :
      Lasts more start (.error error, after) (.error error, other)
  | unfinished {value : α} {after : Cursor} {scan : Scan α} (h : '\n' ∉ after.rest) :
      Lasts more start (.ok value, after) scan
  | pending {error : SyntaxError} {after place : Cursor} {scan : Scan α}
      (leads : start.LeadsTo place) (location : error.location = place.location)
      (h : '\n' ∉ place.rest) : Lasts more start (.error error, after) scan

structure Lasting (scanner : Scanner α) : Prop where
  traces : Traces scanner
  lasts : ∀ (cursor : Cursor) (more : List Char), '\n' ∈ cursor.rest →
    Lasts more cursor (scanner.run cursor) (scanner.run (cursor.extend more))

theorem Lasts.of_leadsTo {more : List Char} {start middle : Cursor} {scan other : Scan α}
    (h : Lasts more middle scan other) (hstart : start.LeadsTo middle) :
    Lasts more start scan other := by
  cases h with
  | ok value after => exact .ok value after
  | error error after other => exact .error error after other
  | unfinished h => exact .unfinished h
  | pending leads location h => exact .pending (hstart.trans leads) location h

theorem Traces.lasts_of_notMem {scanner : Scanner α} (h : Traces scanner) {cursor : Cursor}
    (hline : '\n' ∉ cursor.rest) (more : List Char) (scan : Scan α) :
    Lasts more cursor (scanner.run cursor) scan := by
  cases hrun : scanner.run cursor with
  | mk outcome after =>
      cases outcome with
      | ok value => exact .unfinished ((h.advances.leadsTo hrun).notMem hline)
      | error error =>
          obtain ⟨place, hplace, hexplains⟩ := h.explains hrun
          exact .pending hplace hexplains.location_eq (hplace.notMem hline)

theorem Lasting.lasts_extend {scanner : Scanner α} (h : Lasting scanner) (cursor : Cursor)
    (more : List Char) :
    Lasts more cursor (scanner.run cursor) (scanner.run (cursor.extend more)) := by
  by_cases hline : '\n' ∈ cursor.rest
  · exact h.lasts cursor more hline
  · exact h.traces.lasts_of_notMem hline more _

theorem StaysInLine.run_extend {scanner : Scanner α} (h : StaysInLine scanner) {cursor : Cursor}
    (hline : '\n' ∈ cursor.rest) (more : List Char) :
    (∃ error after other, scanner.run cursor = (.error error, after) ∧
      scanner.run (cursor.extend more) = (.error error, other)) ∨
    ∃ value after, scanner.run cursor = (.ok value, after) ∧
      scanner.run (cursor.extend more) = (.ok value, after.extend more) := by
  obtain ⟨lines, last, closed, rfl⟩ := Cursor.exists_extend_of_mem hline
  rw [Cursor.extend_extend]
  rcases h lines closed with ⟨error, herror⟩ | ⟨value, count, _, hvalue⟩
  · obtain ⟨after, hleft⟩ := herror last
    obtain ⟨other, hright⟩ := herror (last ++ more)
    exact .inl ⟨error, after, other, hleft, hright⟩
  · refine .inr ⟨value, _, hvalue last, ?_⟩
    rw [Cursor.extend_extend]
    exact hvalue (last ++ more)

theorem lasting_of_staysInLine {scanner : Scanner α} (htraces : Traces scanner)
    (hstays : StaysInLine scanner) : Lasting scanner := by
  refine ⟨htraces, fun cursor more hline => ?_⟩
  rcases hstays.run_extend hline more with ⟨error, after, other, hleft, hright⟩ |
    ⟨value, after, hleft, hright⟩
  · rw [hleft, hright]
    exact .error error after other
  · rw [hleft, hright]
    exact .ok value after

theorem lasting_pure (value : α) : Lasting (Pure.pure value : Scanner α) :=
  lasting_of_staysInLine (traces_pure value) (staysInLine_pure value)

theorem lasting_move {advance : Cursor → Cursor}
    (hadvance : ∀ cursor : Cursor, cursor.LeadsTo (advance cursor))
    (h : ∀ (cursor : Cursor) (more : List Char),
      '\n' ∉ (advance cursor).rest ∨ advance (cursor.extend more) = (advance cursor).extend more) :
    Lasting (move advance) := by
  refine ⟨traces_move hadvance, fun cursor more _ => ?_⟩
  rw [run_move, run_move]
  rcases h cursor more with hline | hmore
  · exact .unfinished hline
  · rw [hmore]
    exact .ok () _

theorem lasts_bind {scanner : Scanner α} {next : α → Scanner β} (hscanner : Lasting scanner)
    (htraces : ∀ value, Traces (next value)) {cursor : Cursor} {more : List Char}
    (hnext : ∀ value after, scanner.run cursor = (.ok value, after) →
      Lasts more after ((next value).run after) ((next value).run (after.extend more))) :
    Lasts more cursor ((scanner >>= next).run cursor)
      ((scanner >>= next).run (cursor.extend more)) := by
  have hfirst := hscanner.lasts_extend cursor more
  rw [run_bind, run_bind]
  generalize hleft : scanner.run cursor = scan at hfirst
  generalize scanner.run (cursor.extend more) = other at hfirst
  cases hfirst with
  | ok value after =>
      exact (hnext value after hleft).of_leadsTo (hscanner.traces.advances.leadsTo hleft)
  | error error after other => exact .error error after other
  | @unfinished value after other hend =>
      have hleads := hscanner.traces.advances.leadsTo hleft
      exact ((htraces value).lasts_of_notMem hend more _).of_leadsTo hleads
  | pending leads location hend => exact .pending leads location hend

theorem lasting_bind {scanner : Scanner α} {next : α → Scanner β} (hscanner : Lasting scanner)
    (hnext : ∀ value, Lasting (next value)) : Lasting (scanner >>= next) := by
  refine ⟨traces_bind hscanner.traces fun value => (hnext value).traces, fun cursor more _ => ?_⟩
  exact lasts_bind hscanner (fun value => (hnext value).traces)
    fun value after _ => (hnext value).lasts_extend after more

theorem lasts_collect {round : Scanner (Round α)} (h : UsesText round) (hround : Lasting round)
    (cursor : Cursor) (more : List Char) :
    Lasts more cursor ((collect round h).run cursor)
      ((collect round h).run (cursor.extend more)) := by
  have htraces : ∀ item, Traces (do return item :: (← collect round h)) := fun _ =>
    traces_bind (traces_collect h hround.traces) fun _ => traces_pure _
  rw [run_collect_eq h cursor, run_collect_eq h (cursor.extend more)]
  refine lasts_bind hround (fun found => ?_) (fun found after hfound => ?_)
  · cases found with
    | stop => exact traces_pure _
    | last item => exact traces_pure _
    | more item => exact htraces item
  · cases found with
    | stop => exact .ok _ after
    | last item => exact .ok _ after
    | more item =>
        have hothers := lasts_collect h hround after more
        simp only [run_bind]
        generalize (collect round h).run after = scan at hothers
        generalize (collect round h).run (after.extend more) = other at hothers
        cases hothers with
        | ok others final => exact .ok _ final
        | error error final other => exact .error error final other
        | unfinished hend => exact .unfinished hend
        | pending leads location hend => exact .pending leads location hend
termination_by cursor.rest.length
decreasing_by exact h cursor item after hfound

theorem lasting_collect {round : Scanner (Round α)} (h : UsesText round)
    (hround : Lasting round) : Lasting (collect round h) :=
  ⟨traces_collect h hround.traces, fun cursor more _ => lasts_collect h hround cursor more⟩

theorem lasting_unlessAtEnd {yes no : Scanner α} (hyes : Traces yes) (hno : Lasting no) :
    Lasting (do if (← here).atEnd then yes else no) := by
  refine ⟨?_, fun cursor more hline => ?_⟩
  · refine traces_bind traces_here fun cursor => ?_
    split
    · exact hyes
    · exact hno.traces
  · have hleft : cursor.atEnd ≠ true := mt atEnd_iff.mp (List.ne_nil_of_mem hline)
    have hright : (cursor.extend more).atEnd ≠ true :=
      mt atEnd_iff.mp (List.append_ne_nil_of_left_ne_nil (List.ne_nil_of_mem hline) more)
    rw [run_bind_of_ok (run_here _), run_bind_of_ok (run_here _), if_neg hleft, if_neg hright]
    exact hno.lasts cursor more hline

theorem lasting_skip : Lasting (move Cursor.skip) :=
  lasting_move Cursor.leadsTo_skip fun cursor more =>
    (cursor.extend_skip more).imp_left fun hend hmem => List.ne_nil_of_mem hmem hend

theorem lasting_lineBreak : Lasting lineBreak := by
  refine ⟨traces_lineBreak, fun cursor more hline => ?_⟩
  rw [run_lineBreak, run_lineBreak, Cursor.looksInLine_idleLineRound cursor hline]
  cases cursor.idleLineRound with
  | none =>
      rw [Option.map_none, Cursor.extend_skipSpaces hline,
        Cursor.expected_extend (Cursor.mem_skipSpaces hline)]
      exact .error _ _ _
  | some after => exact .ok () after

theorem lasting_lineEnd : Lasting lineEnd := by
  refine lasting_bind lasting_lineBreak fun _ => ?_
  refine lasting_bind (lasting_move Cursor.leadsTo_skipCommentLines Cursor.extend_skipCommentLines)
    fun _ => ?_
  exact lasting_move Cursor.leadsTo_skipTrailingLines fun cursor more =>
    (cursor.extend_skipTrailingLines more).imp_left fun hend hmem => List.ne_nil_of_mem hmem hend

theorem lasting_symbols : Lasting symbols := by
  refine lasting_bind lasting_skip fun _ => ?_
  refine lasting_bind (lasting_of_staysInLine traces_symbol staysInLine_symbol) fun _ => ?_
  have hround := lasting_of_staysInLine traces_symbolRound staysInLine_symbolRound
  exact lasting_bind (lasting_collect _ hround) fun _ => lasting_pure _

theorem lasting_expectAll {chars : List Char} (element : Element) (h : '\n' ∉ chars) :
    Lasting (expectAll chars element) :=
  lasting_of_staysInLine (traces_expectAll chars element) (staysInLine_expectAll element h)

theorem lasting_field {keyword : List Char} (element : Element) {value : Scanner α}
    (hkeyword : '\n' ∉ keyword) (hvalue : Lasting value) :
    Lasting (field keyword element value) := by
  refine lasting_bind lasting_skip fun _ => ?_
  refine lasting_bind (lasting_expectAll element hkeyword) fun _ => ?_
  refine lasting_bind lasting_skip fun _ => ?_
  refine lasting_bind hvalue fun _ => ?_
  exact lasting_bind lasting_lineEnd fun _ => lasting_pure _

/-- The closing parenthesis is looked for behind layout that may come to the end of the text. Then it
is missing there, and the number in front of it is not looked at any more. -/
theorem lasts_closing (start behind : Cursor) (value : Binary64) (more : List Char) :
    Lasts more behind
      (if behind.skip.peek = some ')' then
        (if value.IsProbability then .ok value
          else .error (start.outOfRange .probability value.text), behind.skip.next)
      else (.error (behind.skip.expected .closeParen), behind.skip))
      (if (behind.extend more).skip.peek = some ')' then
        (if value.IsProbability then .ok value
          else .error (start.outOfRange .probability value.text), (behind.extend more).skip.next)
      else (.error ((behind.extend more).skip.expected .closeParen), (behind.extend more).skip)) := by
  by_cases hend : behind.skip.rest = []
  · have hpeek : behind.skip.peek ≠ some ')' := by simp [Cursor.peek, hend]
    rw [if_neg hpeek]
    exact .pending behind.leadsTo_skip rfl (hend ▸ List.not_mem_nil)
  · rw [(behind.extend_skip more).resolve_left hend, Cursor.peek_extend hend]
    by_cases hpeek : behind.skip.peek = some ')'
    · rw [if_pos hpeek, if_pos hpeek, Cursor.extend_next hend]
      split
      · exact .ok value _
      · exact .error _ _ _
    · rw [if_neg hpeek, if_neg hpeek]
      by_cases hline : '\n' ∈ behind.skip.rest
      · rw [Cursor.expected_extend hline]
        exact .error _ _ _
      · exact .pending behind.leadsTo_skip rfl hline

theorem lasting_probability : Lasting probability := by
  refine ⟨traces_probability, fun cursor more hline => ?_⟩
  have hne := List.ne_nil_of_mem hline
  by_cases hpeek : cursor.peek = some '('
  · obtain ⟨inner, hrest⟩ := Cursor.peek_eq_some_iff.mp hpeek
    have hmore : (cursor.extend more).rest = '(' :: (inner ++ more) := by
      rw [Cursor.rest_extend, hrest, List.cons_append]
    have hleads : cursor.LeadsTo cursor.next.skip :=
      cursor.leadsTo_next.trans (Cursor.leadsTo_skip _)
    by_cases hstart : '\n' ∈ cursor.next.skip.rest
    · have hskip := (cursor.next.extend_skip more).resolve_left (List.ne_nil_of_mem hstart)
      rw [run_probability_of_cons hrest, run_probability_of_cons hmore, Cursor.extend_next hne,
        hskip]
      rcases (staysInLine_number .probability).run_extend hstart more with
        ⟨error, after, other, hleft, hright⟩ | ⟨value, behind, hleft, hright⟩
      · rw [hleft, hright]
        exact .error error after other
      · have hbehind := hleads.trans ((advances_number _).leadsTo hleft)
        rw [hleft, hright]
        exact (lasts_closing _ behind value more).of_leadsTo hbehind
    · -- The number is on a line without an end, and no error of a weight stands in front of it.
      cases hrun : probability.run cursor with
      | mk outcome after =>
          cases outcome with
          | ok value => exact .unfinished ((leadsTo_of_probability hrest hrun).notMem hstart)
          | error error =>
              obtain ⟨place, hplace, hexplains⟩ := explains_probability hrest hrun
              exact .pending (hleads.trans hplace) hexplains.location_eq (hplace.notMem hstart)
  · have hmore : (cursor.extend more).peek ≠ some '(' := by rwa [Cursor.peek_extend hne]
    rw [run_probability_of_peek_ne hpeek, run_probability_of_peek_ne hmore]
    exact .ok _ cursor

theorem lasting_production : Lasting production := by
  refine lasting_bind lasting_skip fun _ => ?_
  refine lasting_bind (lasting_of_staysInLine traces_symbol staysInLine_symbol) fun _ => ?_
  refine lasting_bind lasting_skip fun _ => ?_
  refine lasting_bind lasting_probability fun _ => ?_
  refine lasting_bind lasting_skip fun _ => ?_
  refine lasting_bind (lasting_expectAll .arrow (by decide)) fun _ => ?_
  exact lasting_bind lasting_symbols fun _ => lasting_pure _

theorem lasting_productionRound : Lasting productionRound := by
  refine lasting_bind lasting_production fun line => ?_
  refine lasting_unlessAtEnd (traces_pure _) ?_
  refine lasting_bind lasting_lineEnd fun _ => ?_
  exact lasting_unlessAtEnd (traces_pure _) (lasting_pure _)

theorem lasting_model : Lasting Scanner.model := by
  have hnumber := lasting_of_staysInLine traces_number (staysInLine_number .number)
  have hcount := lasting_of_staysInLine traces_generations staysInLine_generations
  refine lasting_bind (lasting_field _ (by decide) hcount) fun _ => ?_
  refine lasting_bind (lasting_field _ (by decide) hnumber) fun _ => ?_
  refine lasting_bind (lasting_field _ (by decide) hnumber) fun _ => ?_
  refine lasting_bind (lasting_field _ (by decide) lasting_symbols) fun _ => ?_
  refine lasting_bind ?_ fun _ => lasting_pure _
  exact lasting_bind (lasting_collect _ lasting_productionRound) fun _ => lasting_pure _

end Scanner

namespace Model

/-- An error in a line that has its end is found again in every text that goes on from there, the
same in each of its parts. -/
theorem parse_append_of_error {before after : String} {error : SyntaxError}
    (h : parse (before ++ after) = .error error)
    (hplace : error.location = .behind before.toList) (hline : '\n' ∈ after.toList)
    (more : String) : parse (before ++ after ++ more) = .error error := by
  obtain ⟨final, hrun⟩ := parse_eq_error_iff.mp h
  have hlasts := Scanner.lasting_model.lasts_extend (.ofChars (before ++ after).toList) more.toList
  rw [hrun] at hlasts
  generalize hmore : Scanner.model.run (Cursor.extend _ _) = scan at hlasts
  cases hlasts with
  | error error final other =>
      refine parse_eq_error_iff.mpr ⟨other, ?_⟩
      rw [String.toList_append]
      exact hmore
  | pending leads location hend =>
      rw [String.toList_append] at leads
      rw [Cursor.rest_eq_of_location_eq leads (location.symm.trans hplace)] at hend
      exact absurd hline hend

theorem parse_append_of_blank_line :
    parse "generations:1\n\nx" = .error ⟨⟨none, 2, 1⟩, .expected .angle "\n"⟩ ∧
      '\n' ∈ "\nx".toList ∧
      parse "generations:1\n\nx\nangle:1\n" =
        .error ⟨⟨none, 2, 1⟩, .expected .angle "\n"⟩ := by
  have hparse : parse ("generations:1\n" ++ "\nx") =
      .error ⟨⟨none, 2, 1⟩, .expected .angle "\n"⟩ := by decide +kernel
  have hline : '\n' ∈ "\nx".toList := by decide
  exact ⟨hparse, hline, parse_append_of_error hparse rfl hline "\nangle:1\n"⟩

end Model

end Lindenmayer
