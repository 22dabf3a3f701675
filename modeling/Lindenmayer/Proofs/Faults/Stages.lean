import Lindenmayer.Proofs.Faults.Complaints
import Lindenmayer.Proofs.Faults.Places
import Lindenmayer.Proofs.Reading.Floating
import Lindenmayer.Proofs.Parsing

namespace Lindenmayer

open Scanner

namespace Cursor

theorem context_of_rest_eq_nil {cursor : Cursor} (h : cursor.rest = []) : cursor.context = [] := by
  rw [context, h]
  rfl

end Cursor

namespace Model

/-- An element is missing in the text, and nothing is wrong in front of that. -/
def Misses (text : String) (element : Element) : Prop :=
  ∃ location found, parse text = .error ⟨location, .expected element found⟩

/-- A number in the text is out of range as that element, and nothing is wrong in front of it. -/
def Exceeds (text : String) (element : Element) : Prop :=
  ∃ location value, parse text = .error ⟨location, .outOfRange element value⟩

/-- The four fields can be read. -/
def HasHead (text : String) : Prop :=
  ∃ head, (Scanner.fields.run (.ofChars text.toList)).1 = .ok head

/-- The three fields that hold numbers can be read. -/
def HasNumbers (text : String) : Prop :=
  ∃ numbers, (numberFields.run (.ofChars text.toList)).1 = .ok numbers

theorem stopped_of_parse {text : String} {error : SyntaxError} (h : parse text = .error error) :
    ∃ start after, Cursor.Stopped textComplaints start after error := by
  obtain ⟨after, hrun⟩ := parse_eq_error_iff.mp h
  exact ⟨_, after, complains_model.stopped hrun⟩

theorem HasHead.stopped {text : String} {error : SyntaxError} (head : HasHead text)
    (h : parse text = .error error) :
    ∃ start after, Cursor.Stopped lineComplaints start after error := by
  obtain ⟨after, hrun⟩ := parse_eq_error_iff.mp h
  obtain ⟨fields, hfields⟩ := head
  rw [model_eq, run_bind_of_ok (run_of_fst hfields), run_bind_eq_error_iff] at hrun
  rcases hrun with hlines | ⟨_, _, _, hpure⟩
  · exact ⟨_, after, complains_productions.stopped hlines⟩
  · simp at hpure

theorem error_of_seedField {cursor after : Cursor} {error : SyntaxError} {found : String}
    (h : seedField.run cursor = (.error error, after))
    (hfault : error.fault = .expected .newline found) :
    after.rest = [] ∧ error = after.expected .newline := by
  have hkeyword : Complains [.missing .seed] (expectAll "axiom:".toList .seed) :=
    complains_expectAll (by decide)
  have hsymbols : Complains [.missing .symbol] symbols := complains_symbols (by decide)
  rw [seedField, field, run_bind_of_ok (run_move _ _)] at h
  rcases run_bind_eq_error_iff.mp h with hfirst | ⟨_, keyed, _, h⟩
  · exact absurd ((hkeyword.stopped hfirst).missing_mem hfault).1 (by decide)
  · rw [run_bind_of_ok (run_move _ _)] at h
    rcases run_bind_eq_error_iff.mp h with hsecond | ⟨word, behind, hword, h⟩
    · exact absurd ((hsymbols.stopped hsecond).missing_mem hfault).1 (by decide)
    · rcases run_bind_eq_error_iff.mp h with hend | ⟨_, _, _, hpure⟩
      · have hrest := rest_eq_nil_of_lineEnd (endsRun_of_symbols hword) hend
        obtain ⟨_, rfl, rfl⟩ := error_of_lineEnd hend
        rw [Cursor.rest_skipSpaces, hrest]
        exact ⟨rfl, rfl⟩
      · simp at hpure

theorem HasNumbers.newline_at_end {text found : String} {location : Location}
    (numbers : HasNumbers text)
    (h : parse text = .error ⟨location, .expected .newline found⟩) :
    found = "" ∧ location = .behind text.toList := by
  obtain ⟨after, hrun⟩ := parse_eq_error_iff.mp h
  have hleads := complains_model.advances.leadsTo hrun
  obtain ⟨⟨generations, angle, scale⟩, hnumbers⟩ := numbers
  rw [model_eq, fields, bind_assoc, run_bind_of_ok (run_of_fst hnumbers), bind_assoc,
    run_bind_eq_error_iff] at hrun
  have hend : after.rest = [] ∧
      (⟨location, .expected .newline found⟩ : SyntaxError) = after.expected .newline := by
    rcases hrun with hseed | ⟨_, _, _, hrun⟩
    · exact error_of_seedField hseed rfl
    · rw [pure_bind, run_bind_eq_error_iff] at hrun
      rcases hrun with hlines | ⟨_, _, _, hpure⟩
      · exact absurd ((complains_productions.stopped hlines).missing_mem rfl).1 (by decide)
      · simp at hpure
  obtain ⟨before, htext, hlocation⟩ := Cursor.exists_split_of_leadsTo hleads
  obtain ⟨hplace, hfault⟩ := SyntaxError.mk.inj hend.2
  rw [hend.1, List.append_nil] at htext
  refine ⟨?_, by rw [hplace, hlocation, htext]⟩
  rw [(Fault.expected.inj hfault).2, Cursor.context_of_rest_eq_nil hend.1]

theorem hasHead_sample (lines : String)
    (h : (Scanner.fields.run (.ofChars ("generations:1\nangle:0\nscale:1\naxiom:F\n" ++
      lines).toList)).1 = .ok ⟨1, .zero false, .one, [.moveForward]⟩) :
    HasHead ("generations:1\nangle:0\nscale:1\naxiom:F\n" ++ lines) :=
  ⟨_, h⟩

theorem misses_behind_head {element : Element}
    (h : element ∈ [.symbol, .probability, .closeParen, .arrow]) :
    ∃ text, HasHead text ∧ Misses text element := by
  simp only [List.mem_cons, List.not_mem_nil, or_false] at h
  rcases h with rfl | rfl | rfl | rfl
  · exact ⟨_, hasHead_sample "" (by decide +kernel), ⟨none, 5, 1⟩, "", by decide +kernel⟩
  · exact ⟨_, hasHead_sample "F(" (by decide +kernel), ⟨none, 5, 3⟩, "", by decide +kernel⟩
  · exact ⟨_, hasHead_sample "F(1" (by decide +kernel), ⟨none, 5, 4⟩, "", by decide +kernel⟩
  · exact ⟨_, hasHead_sample "F" (by decide +kernel), ⟨none, 5, 2⟩, "", by decide +kernel⟩

theorem exceeds_behind_head : ∃ text, HasHead text ∧ Exceeds text .probability :=
  ⟨_, hasHead_sample "F(2)->F" (by decide +kernel), ⟨none, 5, 3⟩, "2", by decide +kernel⟩

theorem exists_misses {element : Element} (h : element ≠ .endOfInput) :
    ∃ text, Misses text element := by
  have behind : ∀ {element : Element}, element ∈ [.symbol, .probability, .closeParen, .arrow] →
      ∃ text, Misses text element := fun hmem =>
    let ⟨text, _, hmisses⟩ := misses_behind_head hmem
    ⟨text, hmisses⟩
  cases element with
  | generations => exact ⟨"", ⟨none, 1, 1⟩, "", by decide +kernel⟩
  | angle => exact ⟨"generations:1\n", ⟨none, 2, 1⟩, "", by decide +kernel⟩
  | scale => exact ⟨"generations:1\nangle:0\n", ⟨none, 3, 1⟩, "", by decide +kernel⟩
  | seed => exact ⟨"generations:1\nangle:0\nscale:1\n", ⟨none, 4, 1⟩, "", by decide +kernel⟩
  | integer => exact ⟨"generations:", ⟨none, 1, 13⟩, "", by decide +kernel⟩
  | number => exact ⟨"generations:1\nangle:", ⟨none, 2, 7⟩, "", by decide +kernel⟩
  | newline => exact ⟨"generations:1", ⟨none, 1, 14⟩, "", by decide +kernel⟩
  | symbol => exact behind (by decide)
  | probability => exact behind (by decide)
  | closeParen => exact behind (by decide)
  | arrow => exact behind (by decide)
  | endOfInput => exact absurd rfl h

theorem exists_exceeds {element : Element} (h : element ∈ [.generations, .number, .probability]) :
    ∃ text, Exceeds text element := by
  simp only [List.mem_cons, List.not_mem_nil, or_false] at h
  rcases h with rfl | rfl | rfl
  · exact ⟨"generations:-1\n", ⟨none, 1, 13⟩, "-1", by decide +kernel⟩
  · exact ⟨"generations:1\nangle:1e400\n", ⟨none, 2, 7⟩, "1e400", by decide +kernel⟩
  · obtain ⟨text, _, hexceeds⟩ := exceeds_behind_head
    exact ⟨text, hexceeds⟩

theorem Misses.ne_endOfInput {text : String} {element : Element} (h : Misses text element) :
    element ≠ .endOfInput := by
  obtain ⟨location, found, herror⟩ := h
  obtain ⟨start, after, hstopped⟩ := stopped_of_parse herror
  have hmem := (hstopped.missing_mem rfl).1
  rintro rfl
  exact absurd hmem (by decide)

theorem Exceeds.mem {text : String} {element : Element} (h : Exceeds text element) :
    element ∈ [.generations, .number, .probability] := by
  obtain ⟨location, value, herror⟩ := h
  obtain ⟨start, after, hstopped⟩ := stopped_of_parse herror
  have hmem := hstopped.outside_mem rfl
  cases element <;> first | decide | exact absurd hmem (by decide)

theorem HasHead.misses_mem {text : String} {element : Element} (head : HasHead text)
    (h : Misses text element) : element ∈ [.symbol, .probability, .closeParen, .arrow] := by
  obtain ⟨location, found, herror⟩ := h
  obtain ⟨start, after, hstopped⟩ := head.stopped herror
  have hmem := (hstopped.missing_mem rfl).1
  cases element <;> first | decide | exact absurd hmem (by decide)

theorem HasHead.exceeds_eq {text : String} {element : Element} (head : HasHead text)
    (h : Exceeds text element) : element = .probability := by
  obtain ⟨location, value, herror⟩ := h
  obtain ⟨start, after, hstopped⟩ := head.stopped herror
  have hmem := hstopped.outside_mem rfl
  cases element <;> first | rfl | exact absurd hmem (by decide)

theorem not_unreadable_of_parse {text : String} {error : SyntaxError} (failure : ReadFailure)
    (h : parse text = .error error) : error.fault ≠ .unreadable failure := by
  obtain ⟨start, after, hstopped⟩ := stopped_of_parse h
  exact hstopped.not_unreadable

/-- The faults that a text can have at all, and those that it can have below its head. Reading lines
ends with the text; behind a line its end is never missing, and behind a symbol no further symbol;
the line of the starting row misses its end only where the text is over. What is collected as a
number is one, and no number is asked about its range that is none. -/
theorem faults_by_stage :
    (∀ element, (∃ text, Misses text element) ↔ element ≠ .endOfInput) ∧
    (∀ element, (∃ text, Exceeds text element) ↔
      element ∈ [.generations, .number, .probability]) ∧
    (∀ text location failure, parse text ≠ .error ⟨location, .unreadable failure⟩) ∧
    (∀ cursor table after, Scanner.productions.run cursor = (.ok table, after) → after.atEnd = true) ∧
    (∀ element, (∃ text, HasHead text ∧ Misses text element) ↔
      element ∈ [.symbol, .probability, .closeParen, .arrow]) ∧
    (∀ element, (∃ text, HasHead text ∧ Exceeds text element) ↔ element = .probability) ∧
    (∀ cursor line after, production.run cursor = (.ok line, after) → after.atEnd = false →
      ∃ final, lineEnd.run after = (.ok (), final)) ∧
    (∀ cursor, ∃ round after, symbolRound.run cursor = (.ok round, after)) ∧
    (∀ text location found, HasNumbers text →
      parse text = .error ⟨location, .expected .newline found⟩ →
        found = "" ∧ location = .behind text.toList) ∧
    (∀ element cursor outcome after, (number element).run cursor = (outcome, after) →
      after ≠ cursor → IsFloating (after.since cursor) ∧
        ∃ value, Binary64.ofText? (after.since cursor) = some value ∧
          outcome = if value.isFinite then .ok value
            else .error (cursor.outOfRange element (after.since cursor))) ∧
    (∀ cursor value after, (number .probability).run cursor = (.ok value, after) →
      value ≠ .nan) := by
  refine ⟨fun element => ⟨fun ⟨_, h⟩ => h.ne_endOfInput, exists_misses⟩,
    fun element => ⟨fun ⟨_, h⟩ => h.mem, exists_exceeds⟩, ?_, ?_,
    fun element => ⟨fun ⟨_, head, h⟩ => head.misses_mem h, misses_behind_head⟩, ?_, ?_, ?_,
    fun _ _ _ numbers h => numbers.newline_at_end h, fun _ _ _ _ => floating_of_run, ?_⟩
  · intro text location failure h
    exact not_unreadable_of_parse failure h rfl
  · intro cursor table after h
    simp only [Scanner.productions, run_bind_eq_ok_iff, run_pure, Prod.mk.injEq] at h
    obtain ⟨lines, _, hlines, _, rfl⟩ := h
    exact atEnd_iff.mpr (lines_of_run hlines).2
  · intro element
    constructor
    · rintro ⟨_, head, h⟩
      exact head.exceeds_eq h
    · rintro rfl
      exact exceeds_behind_head
  · intro cursor line after h hmore
    refine (run_lineEnd_of_production h).resolve_left ?_
    rw [hmore]
    exact Bool.false_ne_true
  · intro cursor
    rcases run_symbolRound cursor with ⟨hstop, _⟩ | ⟨symbol, hmore⟩
    · exact ⟨_, _, hstop⟩
    · exact ⟨_, _, hmore⟩
  · intro cursor value after h
    obtain ⟨literal, rest, _, rfl, hfinite, _⟩ := scan_of_number h
    exact Binary64.ne_nan_of_isFinite hfinite

theorem faults_by_stage_unended :
    (∃ table after, Scanner.productions.run (.ofChars "F->f\n#".toList) = (.ok table, after) ∧
      after.atEnd = true) ∧
    (∃ line after final, production.run (.ofChars "F->f #".toList) = (.ok line, after) ∧
      lineEnd.run after = (.ok (), final)) ∧
    parse "generations:1\nangle:0\nscale:1\naxiom:F " =
      .error ⟨⟨none, 4, 9⟩, .expected .newline ""⟩ ∧
    ⟨none, 4, 9⟩ = Location.behind "generations:1\nangle:0\nscale:1\naxiom:F ".toList ∧
    (∃ value after, (number .probability).run (.ofChars "+1.e0ex".toList) = (.ok value, after) ∧
      IsFloating (after.since (.ofChars "+1.e0ex".toList)) ∧ value ≠ .nan) := by
  obtain ⟨_, _, _, hend, _, _, hline, _, hnewline, hnumber, hnan⟩ := faults_by_stage
  refine ⟨?_, ?_, ?_, ?_, ?_⟩
  · have hrun : (Scanner.productions.run (.ofChars "F->f\n#".toList)).1 =
        .ok (.ofList [(.moveForward, ⟨.one, [.jumpForward]⟩)]) := by decide +kernel
    have hrun := run_of_fst hrun
    exact ⟨_, _, hrun, hend _ _ _ hrun⟩
  · have hrun : (production.run (.ofChars "F->f #".toList)).1 =
        .ok (.moveForward, ⟨.one, [.jumpForward]⟩) := by decide +kernel
    have hrun := run_of_fst hrun
    obtain ⟨final, hfinal⟩ := hline _ _ _ hrun (by decide +kernel)
    exact ⟨_, _, final, hrun, hfinal⟩
  · decide +kernel
  · exact (hnewline "generations:1\nangle:0\nscale:1\naxiom:F " ⟨none, 4, 9⟩ ""
      ⟨(1, .zero false, .one), by decide +kernel⟩ (by decide +kernel)).2
  · have hrun : ((number .probability).run (.ofChars "+1.e0ex".toList)).1 = .ok .one := by
      decide +kernel
    have hrun := run_of_fst hrun
    exact ⟨_, _, hrun, (hnumber _ _ _ _ hrun (by decide +kernel)).1, hnan _ _ _ hrun⟩

end Model

end Lindenmayer
