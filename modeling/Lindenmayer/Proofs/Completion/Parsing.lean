import Lindenmayer.Proofs.Completion.Parts
import Lindenmayer.Proofs.Faults.Places

/-! A number that cannot be a weight is only found out once its parenthesis is closed. -/

namespace Lindenmayer

namespace Grammar

/-- A weight as it is written, without the layout behind it. -/
inductive Bracketed : List Char → Binary64 → List Char → Prop
  | absent {rest : List Char} : Bracketed rest .one rest
  | present {inner number behind rest : List Char} {value : Binary64}
      (opening : Layout inner number) (read : Number number value behind)
      (closing : Layout behind (')' :: rest)) (allowed : value.IsProbability) :
      Bracketed ('(' :: inner) value rest

/-- A weight that is broken off in front of its closing parenthesis and cannot be a weight. -/
inductive OpenWeight : List Char → List Char → Prop
  | intro {inner number behind rest : List Char} {value : Binary64} (opening : Layout inner number)
      (read : Number number value behind) (closing : Layout behind rest)
      (range : ¬value.IsProbability) : OpenWeight ('(' :: inner) rest

inductive OpenLine : List Char → List Char → Prop
  | intro {char : Char} {source behind weight rest : List Char}
      (opening : Layout source (char :: behind)) (symbol : StandsForSymbol char)
      (layout : Layout behind weight) (weighted : OpenWeight weight rest) : OpenLine source rest

inductive OpenLines : List Char → List Char → Prop
  | last {source rest : List Char} (line : OpenLine source rest) : OpenLines source rest
  | more {source behind next rest : List Char} {line : Symbol × Production}
      (read : Line source line behind) (lineEnd : LineEnd behind next)
      (lines : OpenLines next rest) : OpenLines source rest

/-- A description that is broken off in such a weight. -/
inductive OpenDocument (text : List Char) (rest : List Char) : Prop
  | intro {second third fourth lines : List Char} {generations : UInt32} {angle scale : Binary64}
      {word : Word} (first : Field "generations:".toList Count text generations second)
      (angle : Field "angle:".toList Number second angle third)
      (scale : Field "scale:".toList Number third scale fourth)
      (seed : Field "axiom:".toList Run fourth word lines) (opened : OpenLines lines rest) :
      OpenDocument text rest

/-- A closing parenthesis is missed at a place where a text is broken off. -/
def MissedIn (Open : List Char → List Char → Prop) (error : SyntaxError)
    (source left : List Char) : Prop :=
  (∃ found, error.fault = .expected .closeParen found) ∧ Open source left

theorem Bracketed.takes {source rest : List Char} {value : Binary64}
    (bracketed : Bracketed source value rest) : Takes (Bracketed · value ·) source rest := by
  cases bracketed with
  | absent => exact takes_done fun _ => .absent
  | present opening read closing allowed =>
      obtain ⟨gap, rfl, hopening⟩ := opening.takes read.startsToken.ne_nil
      obtain ⟨digits, rfl, hread⟩ := read.takes
      obtain ⟨last, rfl, hclosing⟩ := closing.takes (List.cons_ne_nil _ _)
      refine ⟨'(' :: (gap ++ (digits ++ (last ++ [')']))), by simp, fun other => ?_⟩
      simp only [List.cons_append, List.append_assoc, List.nil_append]
      exact .present (hopening _) (hread _) (hclosing _) allowed

theorem Bracketed.weight {source behind outer rest : List Char} {value : Binary64}
    (bracketed : Bracketed behind value outer) (layout : Layout source behind)
    (closing : Layout outer rest) : ∃ inner, Layout source inner ∧ Weight inner value rest := by
  cases bracketed with
  | absent => exact ⟨rest, layout.trans closing, .absent⟩
  | present opening read paren allowed =>
      exact ⟨_, layout, .present opening read paren closing allowed⟩

end Grammar

open Grammar

namespace Scanner

theorem possible_bracketed : IsPossible Bracketed :=
  ⟨[], .one, fun _ => .absent⟩

theorem number_of_weight {cursor behind : Cursor} {inner : List Char} {value : Binary64}
    (hrest : cursor.rest = '(' :: inner)
    (h : (number .probability).run cursor.next.skip = (.ok value, behind)) :
    ∃ written, Layout inner written ∧ Number written value behind.rest ∧
      Layout behind.rest behind.skip.rest := by
  have opening := cursor.next.layout_skip
  rw [Cursor.rest_next, hrest, List.tail_cons] at opening
  exact ⟨_, opening, number_of_run h, behind.layout_skip⟩

theorem bracketed_of_run {cursor after : Cursor} {value : Binary64}
    (h : probability.run cursor = (.ok value, after)) : Bracketed cursor.rest value after.rest := by
  by_cases hpeek : cursor.peek = some '('
  · obtain ⟨inner, hrest⟩ := Cursor.peek_eq_some_iff.mp hpeek
    rw [run_probability_of_cons hrest] at h
    split at h
    · simp at h
    · rename_i number behind hnumber
      obtain ⟨written, opening, read, closing⟩ := number_of_weight hrest hnumber
      split at h
      · rename_i hclosing
        obtain ⟨outer, houter⟩ := Cursor.peek_eq_some_iff.mp hclosing
        split at h
        · rename_i hallowed
          obtain ⟨rfl, rfl⟩ : number = value ∧ behind.skip.next = after := by simpa using h
          rw [houter] at closing
          rw [hrest, Cursor.rest_next, houter]
          exact .present opening read closing hallowed
        · simp at h
      · simp at h
  · rw [run_probability_of_peek_ne hpeek] at h
    obtain ⟨rfl, rfl⟩ : Binary64.one = value ∧ cursor = after := by simpa using h
    exact .absent

theorem completes_weight {cursor : Cursor} {inner : List Char} (hrest : cursor.rest = '(' :: inner)
    (hnumber : cursor.next.skip.rest ≠ []) :
    Completes Bracketed cursor.rest cursor.next.skip.rest := by
  have opening := cursor.next.layout_skip
  rw [Cursor.rest_next, hrest, List.tail_cons] at opening
  obtain ⟨gap, hinner, hopening⟩ := opening.takes hnumber
  refine ⟨'(' :: gap, Binary64.one.text ++ [')'], .one, ?_, fun rest => ?_⟩
  · rw [hrest, List.cons_append, ← hinner]
  · rw [List.cons_append, List.append_assoc]
    exact .present (hopening _) (number_text rfl _) .done Binary64.isProbability_one

theorem completes_closing {inner written behind left : List Char} {value : Binary64}
    (opening : Layout inner written) (read : Number written value behind)
    (closing : Layout behind left) (hleft : left ≠ []) (hallowed : value.IsProbability) :
    Completes Bracketed ('(' :: inner) left := by
  obtain ⟨gap, rfl, hopening⟩ := opening.takes read.startsToken.ne_nil
  obtain ⟨digits, rfl, hread⟩ := read.takes
  obtain ⟨last, rfl, hclosing⟩ := closing.takes hleft
  refine ⟨'(' :: (gap ++ (digits ++ last)), [')'], value, by simp, fun rest => ?_⟩
  simp only [List.cons_append, List.append_assoc, List.nil_append]
  exact .present (hopening _) (hread _) (hclosing _) hallowed

theorem timely_probability : Timely Bracketed (MissedIn OpenWeight) probability where
  advances := advances_probability
  possible := possible_bracketed
  reads hrun _ := (bracketed_of_run hrun).takes
  fails {cursor after error} hrun := by
    by_cases hpeek : cursor.peek = some '('
    · obtain ⟨inner, hrest⟩ := Cursor.peek_eq_some_iff.mp hpeek
      have hleads : cursor.LeadsTo cursor.next.skip :=
        cursor.leadsTo_next.trans (Cursor.leadsTo_skip _)
      rw [run_probability_of_cons hrest] at hrun
      split at hrun
      · rename_i found middle hnumber
        -- A number that is missing or too large gives way to another one in its place.
        obtain rfl := Except.error.inj (Prod.mk.inj hrun).1
        refine ⟨cursor.next.skip, hleads, ?_, fun hne => .inl (completes_weight hrest hne)⟩
        rcases error_of_number hnumber with ⟨rfl, _⟩ | ⟨_, _, _, _, rfl, _⟩
        · rfl
        · rfl
      · rename_i value behind hnumber
        split at hrun
        · split at hrun
          · simp at hrun
          · -- The range is checked late, but its error stands where the number began.
            obtain rfl := Except.error.inj (Prod.mk.inj hrun).1
            exact ⟨cursor.next.skip, hleads, rfl, fun hne => .inl (completes_weight hrest hne)⟩
        · obtain rfl := Except.error.inj (Prod.mk.inj hrun).1
          have hbehind := hleads.trans ((advances_number _).leadsTo hnumber)
          obtain ⟨written, opening, read, closing⟩ := number_of_weight hrest hnumber
          refine ⟨behind.skip, hbehind.trans behind.leadsTo_skip, rfl, fun hne => ?_⟩
          rw [hrest]
          by_cases hallowed : value.IsProbability
          · exact .inl (completes_closing opening read closing hne hallowed)
          · exact .inr ⟨⟨_, rfl⟩, .intro opening read closing hallowed⟩
    · rw [run_probability_of_peek_ne hpeek] at hrun
      simp at hrun

inductive BehindPredecessor (predecessor : Symbol) :
    List Char → Symbol × Production → List Char → Prop
  | intro {source weight behind rest : List Char} {probability : Binary64} {successor : Word}
      (layout : Layout source weight)
      (weighted : Weight weight probability ('-' :: '>' :: behind))
      (written : RunBehind behind successor rest) :
      BehindPredecessor predecessor source (predecessor, ⟨probability, successor⟩) rest

theorem timely_behindPredecessor (predecessor : Symbol) :
    Timely (BehindPredecessor predecessor)
      (MissedIn fun source left => ∃ weight, Layout source weight ∧ OpenWeight weight left)
      (do
        move Cursor.skip
        let probability ← probability
        move Cursor.skip
        expectAll ['-', '>'] .arrow
        let successor ← symbols
        return (predecessor, (⟨probability, successor⟩ : Production))) := by
  have hweighted := timely_bind timely_probability (fun value =>
    timely_andThen timely_skip fun _ =>
      timely_andThen (timely_expectAll ['-', '>'] .arrow) fun _ =>
        timely_andThen timely_symbols fun successor =>
          timely_pure (predecessor, (⟨value, successor⟩ : Production)))
    (fun missed => missed) fun _ h => h.elim
  refine (timely_bind timely_skip (fun _ => hweighted) False.elim ?_).mono ?_
  · rintro error source _ middle left layout ⟨hfault, opened⟩
    exact ⟨hfault, middle, layout, opened⟩
  · rintro source line rest ⟨_, _, layout, value, _, bracketed, _, _, closing, _, _, rfl,
      successor, _, written, rfl, rfl⟩
    obtain ⟨weight, hlayout, weighted⟩ := bracketed.weight layout closing
    exact .intro hlayout weighted written

theorem timely_production : Timely Line (MissedIn OpenLine) production := by
  have hline := timely_bind timely_firstSymbol timely_behindPredecessor False.elim
    (@fun error source _ middle left first missed => show MissedIn OpenLine error source left from ?_)
  · refine Timely.mono hline ?_
    rintro source line rest ⟨_, _, ⟨char, opening, hchar, rfl⟩, layout, weighted, ⟨_, inner, run⟩⟩
    exact .intro opening hchar layout weighted inner run
  · obtain ⟨char, opening, hchar, rfl⟩ := first
    obtain ⟨hfault, weight, layout, opened⟩ := missed
    exact ⟨hfault, .intro opening hchar layout opened⟩

theorem error_of_productionRound {cursor after : Cursor} {error : SyntaxError}
    (h : productionRound.run cursor = (.error error, after)) :
    production.run cursor = (.error error, after) ∨
      ∃ line middle, production.run cursor = (.ok line, middle) ∧
        lineEnd.run middle = (.error error, after) := by
  rw [productionRound] at h
  refine (run_bind_eq_error_iff.mp h).imp_right ?_
  rintro ⟨line, middle, hline, hend⟩
  rw [run_bind_of_ok (run_here _)] at hend
  refine ⟨line, middle, hline, ?_⟩
  split at hend
  · simp at hend
  · rcases run_bind_eq_error_iff.mp hend with hbreak | ⟨_, last, _, hlast⟩
    · exact hbreak
    · rw [run_bind_of_ok (run_here _)] at hlast
      split at hlast
      · simp at hlast
      · simp at hlast

end Scanner

namespace Grammar

/-- What a text has in front of some place can be carried on to a whole text. -/
def Finishes (Whole : List Char → Prop) (source left : List Char) : Prop :=
  ∃ taken more, source = taken ++ left ∧ Whole (taken ++ more)

def IsLines (text : List Char) : Prop :=
  ∃ lines, Lines text lines

theorem Completes.finishes_last {source left : List Char} (h : Completes Line source left) :
    Finishes IsLines source left := by
  obtain ⟨taken, more, line, hsource, hline⟩ := h
  refine ⟨taken, more, hsource, [line], .last ?_ (.spaces .done)⟩
  have read := hline []
  rwa [List.append_nil] at read

theorem Completes.finishes_lineEnd {source middle left : List Char} {line : Symbol × Production}
    (hline : Takes (Line · line ·) source middle)
    (h : Completes (fun source (_ : Unit) rest => LineEnd source rest) middle left) :
    Finishes IsLines source left := by
  obtain ⟨before, rfl, hline⟩ := hline
  obtain ⟨taken, more, _, rfl, hend⟩ := h
  refine ⟨before ++ taken, more, (List.append_assoc _ _ _).symm, [line], ?_⟩
  have lineEnd := hend []
  rw [List.append_nil] at lineEnd
  rw [List.append_assoc]
  exact .last (hline (taken ++ more)) (lineEnd.idle (.spaces .done))

theorem Finishes.more {source behind next left : List Char} {line : Symbol × Production}
    (read : Line source line behind) (lineEnd : LineEnd behind next) (hne : next ≠ [])
    (h : Finishes IsLines next left) : Finishes IsLines source left := by
  obtain ⟨first, rfl, hline⟩ := read.takes
  obtain ⟨second, rfl, hend⟩ := lineEnd.takes hne
  obtain ⟨taken, more, rfl, lines, hlines⟩ := h
  refine ⟨first ++ (second ++ taken), more, by simp only [List.append_assoc], line :: lines, ?_⟩
  simp only [List.append_assoc]
  exact .more (hline _) (hend _) hlines

end Grammar

namespace Scanner

variable {α β : Type}

/-- A scanner that reads a text to its end and finds what is wrong with it in time, but for the
errors that are excused. -/
structure Ends (Whole : List Char → Prop) (Open : List Char → List Char → Prop)
    (scanner : Scanner α) : Prop where
  possible : ∃ text, Whole text
  fails : ∀ {cursor after : Cursor} {error : SyntaxError},
    scanner.run cursor = (.error error, after) →
      ∃ place, cursor.LeadsTo place ∧ error.location = place.location ∧
        (place.rest ≠ [] → Finishes Whole cursor.rest place.rest ∨
          MissedIn Open error cursor.rest place.rest)

theorem fails_productionLines {cursor after : Cursor} {error : SyntaxError}
    (hrun : productionLines.run cursor = (.error error, after)) :
    ∃ place, cursor.LeadsTo place ∧ error.location = place.location ∧
      (place.rest ≠ [] → Finishes IsLines cursor.rest place.rest ∨
        MissedIn OpenLines error cursor.rest place.rest) := by
  rw [productionLines, run_collect_eq] at hrun
  rcases run_bind_eq_error_iff.mp hrun with hround | ⟨found, middle, hround, hothers⟩
  · rcases error_of_productionRound hround with hline | ⟨line, middle, hline, hend⟩
    · obtain ⟨place, hplace, hlocation, hcompletes⟩ := timely_production.fails hline
      refine ⟨place, hplace, hlocation, fun hne => (hcompletes hne).imp ?_ ?_⟩
      · exact Completes.finishes_last
      · exact fun missed => ⟨missed.1, .last missed.2⟩
    · -- The line has been read, so the row of lines may end in whatever ends it.
      obtain ⟨place, hplace, hlocation, hcompletes⟩ := timely_lineEnd.fails hend
      refine ⟨place, (advances_production.leadsTo hline).trans hplace, hlocation, fun hne => .inl ?_⟩
      have htakes := timely_production.reads hline (hplace.ne_nil hne)
      exact ((hcompletes hne).resolve_right fun h => h.elim).finishes_lineEnd htakes
  · have hleads := advances_productionRound.leadsTo hround
    rcases line_of_round hround with ⟨line, _, rfl, _⟩ | ⟨line, behind, rfl, read, lineEnd⟩
    · simp at hothers
    · have hcollect : productionLines.run middle = (.error error, after) := by
        rcases run_bind_eq_error_iff.mp hothers with hcollect | ⟨_, _, _, hpure⟩
        · exact hcollect
        · simp at hpure
      obtain ⟨place, hplace, hlocation, hfinishes⟩ := fails_productionLines hcollect
      refine ⟨place, hleads.trans hplace, hlocation, fun hne => (hfinishes hne).imp ?_ ?_⟩
      · exact Finishes.more read lineEnd (hplace.ne_nil hne)
      · exact fun missed => ⟨missed.1, .more read lineEnd missed.2⟩
termination_by cursor.rest.length
decreasing_by exact productionRound_usesText _ _ _ hround

theorem ends_productions : Ends IsLines OpenLines productions where
  possible := by
    obtain ⟨chars, line, hline⟩ := timely_production.possible
    exact ⟨chars ++ [], [line], .last (hline []) (.spaces .done)⟩
  fails hrun := by
    rcases run_bind_eq_error_iff.mp hrun with hlines | ⟨_, _, _, hpure⟩
    · exact fails_productionLines hlines
    · simp at hpure

theorem ends_andPure {Whole : List Char → Prop} {Open : List Char → List Char → Prop}
    {scanner : Scanner α} (h : Ends Whole Open scanner) (result : α → β) :
    Ends Whole Open (do return result (← scanner)) where
  possible := h.possible
  fails hrun := by
    rcases run_bind_eq_error_iff.mp hrun with hscanner | ⟨_, _, _, hpure⟩
    · exact h.fails hscanner
    · simp at hpure

theorem ends_bind {First : List Char → α → List Char → Prop} {Next : List Char → Prop}
    {Open : List Char → List Char → Prop} {scanner : Scanner α} {next : α → Scanner β}
    (hscanner : Timely First Unexcused scanner) (hnext : ∀ value, Ends Next Open (next value)) :
    Ends (fun text => ∃ value middle, First text value middle ∧ Next middle)
      (fun text left => ∃ value middle, First text value middle ∧ Open middle left)
      (scanner >>= next) where
  possible := by
    obtain ⟨chars, value, hfirst⟩ := hscanner.possible
    obtain ⟨text, htext⟩ := (hnext value).possible
    exact ⟨chars ++ text, value, text, hfirst text, htext⟩
  fails hrun := by
    rcases run_bind_eq_error_iff.mp hrun with hfirst | ⟨first, middle, hfirst, hsecond⟩
    · obtain ⟨place, hplace, hlocation, hcompletes⟩ := hscanner.fails hfirst
      refine ⟨place, hplace, hlocation, fun hne => .inl ?_⟩
      obtain ⟨taken, more, value, hsource, htaken⟩ :=
        (hcompletes hne).resolve_right fun h => h.elim
      obtain ⟨text, htext⟩ := (hnext value).possible
      exact ⟨taken, more ++ text, hsource, value, text, htaken text, htext⟩
    · obtain ⟨place, hplace, hlocation, hfinishes⟩ := (hnext first).fails hsecond
      refine ⟨place, (hscanner.advances.leadsTo hfirst).trans hplace, hlocation, fun hne => ?_⟩
      have htakes := hscanner.reads hfirst (hplace.ne_nil hne)
      refine (hfinishes hne).imp ?_ fun missed => ⟨missed.1, first, _, htakes.self, missed.2⟩
      obtain ⟨front, hsource, hfront⟩ := htakes
      rintro ⟨taken, more, hmiddle, hwhole⟩
      refine ⟨front ++ taken, more, by rw [hsource, hmiddle, List.append_assoc], first, _, ?_, hwhole⟩
      rw [List.append_assoc]
      exact hfront (taken ++ more)

theorem Ends.mono {Whole Text : List Char → Prop} {Open Broken : List Char → List Char → Prop}
    {scanner : Scanner α} (h : Ends Whole Open scanner) (hwhole : ∀ {text}, Whole text → Text text)
    (hopen : ∀ {text left}, Open text left → Broken text left) : Ends Text Broken scanner where
  possible := by
    obtain ⟨text, htext⟩ := h.possible
    exact ⟨text, hwhole htext⟩
  fails hrun := by
    obtain ⟨place, hplace, hlocation, hfinishes⟩ := h.fails hrun
    refine ⟨place, hplace, hlocation, fun hne => (hfinishes hne).imp ?_ ?_⟩
    · rintro ⟨taken, more, hsource, htext⟩
      exact ⟨taken, more, hsource, hwhole htext⟩
    · exact fun missed => ⟨missed.1, hopen missed.2⟩

theorem timely_numberField (keyword : List Char) (element : Element) :
    Timely (Field keyword Number) Unexcused (field keyword element (number .number)) :=
  timely_field keyword element ((timely_number _).mono fun read => ⟨_, .done, read⟩)

theorem ends_model :
    Ends (fun text => ∃ model, Document text model) OpenDocument Scanner.model := by
  have hcount : Timely (Field "generations:".toList Count) Unexcused generationsField :=
    timely_field _ _ (timely_generations.mono fun read => ⟨_, .done, read⟩)
  have hmodel := ends_bind hcount fun generations =>
    ends_bind (timely_numberField "angle:".toList .angle) fun angle =>
      ends_bind (timely_numberField "scale:".toList .scale) fun scale =>
        ends_bind (timely_field "axiom:".toList .seed timely_symbols) fun seed =>
          ends_andPure ends_productions fun table =>
            (⟨generations, angle, scale, seed, table⟩ : Model)
  refine hmodel.mono ?_ ?_
  · rintro text ⟨generations, _, first, angle, _, second, scale, _, third, seed, _, fourth, lines,
      hlines⟩
    exact ⟨⟨generations, angle, scale, seed, .ofList lines⟩,
      .intro first second third fourth hlines (Table.collects_ofList lines)⟩
  · rintro text left ⟨_, _, first, _, _, second, _, _, third, _, _, fourth, opened⟩
    exact .intro first second third fourth opened

end Scanner

namespace Model

/-- What stands in front of an error is the front of some description, unless the text breaks off
there in a weight whose number is out of range. -/
theorem exists_completion_of_parse_error {before after : String} {error : SyntaxError}
    (h : parse (before ++ after) = .error error)
    (hplace : error.location = .behind before.toList) (hafter : after ≠ "") :
    (∃ more model, parse (before ++ more) = .ok model) ∨
      (∃ found, error.fault = .expected .closeParen found) ∧
        OpenDocument (before ++ after).toList after.toList := by
  obtain ⟨final, hrun⟩ := parse_eq_error_iff.mp h
  obtain ⟨place, hleads, hlocation, hfinishes⟩ := Scanner.ends_model.fails hrun
  have hrest : place.rest = after.toList := by
    rw [String.toList_append] at hleads
    exact Cursor.rest_eq_of_location_eq hleads (hlocation.symm.trans hplace)
  have hne : place.rest ≠ [] := by
    rw [hrest]
    exact fun hnil => hafter (String.toList_eq_nil_iff.mp hnil)
  rw [hrest] at hfinishes
  refine (hfinishes (hrest ▸ hne)).imp_left ?_
  rintro ⟨taken, more, htext, model, hdocument⟩
  obtain rfl : before.toList = taken := by
    rw [← List.append_cancel_right_eq, ← htext]
    exact (String.toList_append).symm
  refine ⟨.ofList more, model, parse_of_document ?_⟩
  rwa [String.toList_append, String.toList_ofList]

theorem exists_completion_of_parse_arrow :
    parse "generations:1\nangle:0\nscale:1\naxiom:F\nF(.5) -x" =
        .error ⟨⟨none, 5, 7⟩, .expected .arrow "-x"⟩ ∧
      ∃ more model, parse ("generations:1\nangle:0\nscale:1\naxiom:F\nF(.5) " ++ more) = .ok model := by
  have hparse : parse ("generations:1\nangle:0\nscale:1\naxiom:F\nF(.5) " ++ "-x") =
      .error ⟨⟨none, 5, 7⟩, .expected .arrow "-x"⟩ := by decide +kernel
  refine ⟨hparse, ?_⟩
  rcases exists_completion_of_parse_error hparse rfl (by decide) with hcompletion | ⟨⟨_, hfault⟩, _⟩
  · exact hcompletion
  · simp at hfault

end Model

end Lindenmayer
