import Lindenmayer.Proofs.Faults.Tracing
import Lindenmayer.Proofs.Reading.Longest

/-! An element is missed right where a scan stops; a number out of range is behind the scan. -/

namespace Lindenmayer

open Grammar

/-- What a scanner can find fault with: an element that is missing, a number that is out of range as
one, where a whole number is wanted or any number, or a weight that is no probability. -/
inductive Complaint where
  | missing (element : Element)
  | whole (element : Element)
  | decimal (element : Element)
  | weight
  deriving DecidableEq

namespace Cursor

/-- How a scan that began at one place can have failed at another. An element is missed right where
the scan has stopped. A number out of range is the longest one at the place of its error, and the
scan has stopped right behind it, or, for a weight, behind the parenthesis that closes it in. -/
inductive Stopped (complaints : List Complaint) (start : Cursor) : Cursor → SyntaxError → Prop
  | missing {after : Cursor} {element : Element} (h : .missing element ∈ complaints) :
      Stopped complaints start after (after.expected element)
  | whole {place : Cursor} {element : Element} {literal : IntegerLiteral} {value : List Char}
      (h : .whole element ∈ complaints) (leads : start.LeadsTo place)
      (longest : IsLongest IntegerLiteral.chars literal place.rest) :
      Stopped complaints start (place.drop literal.chars.length) (place.outOfRange element value)
  | decimal {place : Cursor} {element : Element} {literal : NumberLiteral} {value : List Char}
      (h : .decimal element ∈ complaints) (leads : start.LeadsTo place)
      (longest : IsLongest NumberLiteral.chars literal place.rest) :
      Stopped complaints start (place.drop literal.chars.length) (place.outOfRange element value)
  | weight {place : Cursor} {literal : NumberLiteral} {value : List Char}
      (h : .weight ∈ complaints) (leads : start.LeadsTo place)
      (longest : IsLongest NumberLiteral.chars literal place.rest)
      (closing : (place.drop literal.chars.length).skip.peek = some ')') :
      Stopped complaints start (place.drop literal.chars.length).skip.next
        (place.outOfRange .probability value)

variable {complaints : List Complaint}

theorem Stopped.of_leadsTo {start middle after : Cursor} {error : SyntaxError}
    (h : Stopped complaints middle after error) (hstart : start.LeadsTo middle) :
    Stopped complaints start after error := by
  cases h with
  | missing h => exact .missing h
  | whole h leads longest => exact .whole h (hstart.trans leads) longest
  | decimal h leads longest => exact .decimal h (hstart.trans leads) longest
  | weight h leads longest closing => exact .weight h (hstart.trans leads) longest closing

theorem Stopped.mono {others : List Complaint} {start after : Cursor} {error : SyntaxError}
    (h : Stopped complaints start after error) (hsubset : complaints ⊆ others) :
    Stopped others start after error := by
  cases h with
  | missing h => exact .missing (hsubset h)
  | whole h leads longest => exact .whole (hsubset h) leads longest
  | decimal h leads longest => exact .decimal (hsubset h) leads longest
  | weight h leads longest closing => exact .weight (hsubset h) leads longest closing

theorem Stopped.missing_mem {start after : Cursor} {error : SyntaxError} {element : Element}
    {found : String} (h : Stopped complaints start after error)
    (hfault : error.fault = .expected element found) :
    .missing element ∈ complaints ∧ error = after.expected element := by
  cases h with
  | missing h =>
      obtain rfl := (Fault.expected.inj hfault).1
      exact ⟨h, rfl⟩
  | whole => contradiction
  | decimal => contradiction
  | weight => contradiction

theorem Stopped.outside_mem {start after : Cursor} {error : SyntaxError} {element : Element}
    {value : String} (h : Stopped complaints start after error)
    (hfault : error.fault = .outOfRange element value) :
    .whole element ∈ complaints ∨ .decimal element ∈ complaints ∨
      .weight ∈ complaints ∧ element = .probability := by
  cases h with
  | missing => contradiction
  | whole h =>
      obtain rfl := (Fault.outOfRange.inj hfault).1
      exact .inl h
  | decimal h =>
      obtain rfl := (Fault.outOfRange.inj hfault).1
      exact .inr (.inl h)
  | weight h => exact .inr (.inr ⟨h, (Fault.outOfRange.inj hfault).1.symm⟩)

theorem Stopped.not_unreadable {start after : Cursor} {error : SyntaxError} {failure : ReadFailure}
    (h : Stopped complaints start after error) :
    error.fault ≠ .unreadable failure := by
  cases h <;> exact Fault.noConfusion

end Cursor

namespace Scanner

variable {α β : Type} {complaints : List Complaint}

/-- A scanner that never moves back, and fails only by what it is said to miss. -/
structure Complains (complaints : List Complaint) (scanner : Scanner α) : Prop where
  advances : Advances scanner
  stopped : ∀ {cursor after : Cursor} {error : SyntaxError},
    scanner.run cursor = (.error error, after) →
      Cursor.Stopped complaints cursor after error

theorem Complains.mono {others : List Complaint} {scanner : Scanner α}
    (h : Complains complaints scanner) (hsubset : complaints ⊆ others) : Complains others scanner :=
  ⟨h.advances, fun hrun => (h.stopped hrun).mono hsubset⟩

theorem complains_pure (value : α) : Complains complaints (Pure.pure value : Scanner α) :=
  ⟨advances_pure value, fun hrun => by simp at hrun⟩

theorem complains_here : Complains complaints here :=
  ⟨advances_here, fun hrun => by simp at hrun⟩

theorem complains_move {advance : Cursor → Cursor}
    (h : ∀ cursor : Cursor, cursor.LeadsTo (advance cursor)) :
    Complains complaints (move advance) :=
  ⟨advances_move h, fun hrun => by simp at hrun⟩

theorem complains_of_missing {element : Element} (h : .missing element ∈ complaints)
    {scanner : Scanner α} (hadvances : Advances scanner)
    (hrun : ∀ {cursor after : Cursor} {error : SyntaxError},
      scanner.run cursor = (.error error, after) →
        error = cursor.expected element ∧ after = cursor) : Complains complaints scanner := by
  refine ⟨hadvances, fun herror => ?_⟩
  obtain ⟨rfl, rfl⟩ := hrun herror
  exact .missing h

theorem complains_bind {scanner : Scanner α} {next : α → Scanner β}
    (hscanner : Complains complaints scanner)
    (hnext : ∀ value, Complains complaints (next value)) :
    Complains complaints (scanner >>= next) := by
  refine ⟨advances_bind hscanner.advances (fun value => (hnext value).advances), fun hrun => ?_⟩
  rcases run_bind_eq_error_iff.mp hrun with hfirst | ⟨first, middle, hfirst, hsecond⟩
  · exact hscanner.stopped hfirst
  · exact ((hnext first).stopped hsecond).of_leadsTo (hscanner.advances.leadsTo hfirst)

theorem complains_collect {round : Scanner (Round α)} (h : UsesText round)
    (hround : Complains complaints round) : Complains complaints (collect round h) :=
  ⟨advances_collect h hround.advances,
    error_of_collect (Cursor.Stopped complaints) h hround.advances Cursor.Stopped.of_leadsTo
      hround.stopped⟩

theorem complains_takeIf (accept : Char → Bool) : Complains complaints (takeIf accept) := by
  refine ⟨advances_takeIf accept, fun {cursor after error} hrun => ?_⟩
  obtain ⟨found, final, hfound⟩ := run_takeIf accept cursor
  simp [hfound] at hrun

theorem complains_eat (char : Char) : Complains complaints (eat char) :=
  complains_bind (complains_takeIf _) fun _ => complains_pure _

theorem error_of_expect {char : Char} {element : Element} {cursor after : Cursor}
    {error : SyntaxError} (h : (expect char element).run cursor = (.error error, after)) :
    error = cursor.expected element ∧ after = cursor := by
  by_cases hpeek : cursor.peek = some char
  · obtain ⟨rest, hrest⟩ := Cursor.peek_eq_some_iff.mp hpeek
    simp [run_expect_of_cons element hrest] at h
  · rw [run_expect_of_peek_ne element hpeek, Prod.mk.injEq, Except.error.injEq] at h
    exact ⟨h.1.symm, h.2.symm⟩

theorem complains_expect {char : Char} {element : Element} (h : .missing element ∈ complaints) :
    Complains complaints (expect char element) :=
  complains_of_missing h (advances_expect char element) error_of_expect

theorem complains_expectAll {chars : List Char} {element : Element}
    (h : .missing element ∈ complaints) : Complains complaints (expectAll chars element) :=
  complains_of_missing h (advances_expectAll chars element) error_of_expectAll

theorem complains_integer (hmissing : .missing .integer ∈ complaints)
    (hwhole : .whole .integer ∈ complaints) :
    Complains complaints integer := by
  refine ⟨advances_integer, fun {cursor after error} hrun => ?_⟩
  rw [run_integer] at hrun
  cases hscan : IntegerLiteral.scan cursor.rest with
  | none =>
      obtain ⟨rfl, rfl⟩ : cursor.expected .integer = error ∧ cursor = after := by
        simpa [hscan] using hrun
      exact .missing hmissing
  | some found =>
      obtain ⟨literal, rest⟩ := found
      simp only [hscan] at hrun
      split at hrun
      · simp at hrun
      · obtain ⟨rfl, rfl⟩ : cursor.outOfRange .integer literal.chars = error ∧
            cursor.drop literal.chars.length = after := by simpa using hrun
        exact .whole hwhole (.refl _) (IntegerLiteral.isLongest hscan)

theorem complains_generations (hmissing : .missing .integer ∈ complaints)
    (hwhole : .whole .generations ∈ complaints) :
    Complains complaints generations := by
  refine ⟨advances_generations, fun hrun => ?_⟩
  rcases error_of_generations hrun with ⟨rfl, rfl⟩ | ⟨literal, rest, hscan, _, rfl, rfl⟩
  · exact .missing hmissing
  · exact .whole hwhole (.refl _) (IntegerLiteral.isLongest hscan)

theorem complains_number {element : Element} (hmissing : .missing element ∈ complaints)
    (hdecimal : .decimal element ∈ complaints) : Complains complaints (number element) := by
  refine ⟨advances_number element, fun hrun => ?_⟩
  rcases error_of_number hrun with ⟨rfl, rfl⟩ | ⟨literal, rest, hscan, _, rfl, rfl⟩
  · exact .missing hmissing
  · exact .decimal hdecimal (.refl _) (NumberLiteral.isLongest hscan)

theorem complains_symbol (h : .missing .symbol ∈ complaints) : Complains complaints symbol :=
  complains_of_missing h advances_symbol error_of_symbol

theorem run_symbolRound (cursor : Cursor) :
    (symbolRound.run cursor = (.ok .stop, cursor.skipSpaces) ∧ EndsRun cursor.skipSpaces.rest) ∨
      ∃ symbol, symbolRound.run cursor = (.ok (.more symbol), cursor.skipSpaces.next) := by
  rcases endsRun_or_symbol cursor with hend | ⟨char, rest, hrest, hchar⟩
  · exact .inl ⟨run_symbolRound_of_endsRun hend, hend⟩
  · exact .inr ⟨_, run_symbolRound_of_symbol hrest hchar⟩

theorem complains_symbolRound : Complains complaints symbolRound := by
  refine ⟨advances_symbolRound, fun {cursor after error} hrun => ?_⟩
  rcases run_symbolRound cursor with ⟨hstop, _⟩ | ⟨symbol, hmore⟩
  · simp [hstop] at hrun
  · simp [hmore] at hrun

theorem complains_symbols (h : .missing .symbol ∈ complaints) : Complains complaints symbols := by
  refine complains_bind (complains_move Cursor.leadsTo_skip) fun _ => ?_
  refine complains_bind (complains_symbol h) fun _ => ?_
  exact complains_bind (complains_collect _ complains_symbolRound) fun _ => complains_pure _

theorem endsRun_of_collect {cursor after : Cursor} {others : Word}
    (h : (collect symbolRound symbolRound_usesText).run cursor = (.ok others, after)) :
    EndsRun after.rest := by
  rw [run_collect] at h
  fun_induction runCollect symbolRound symbolRound_usesText cursor generalizing others with
  | case1 => simp at h
  | case2 cursor middle hround =>
      rcases run_symbolRound cursor with ⟨hstop, hend⟩ | ⟨symbol, hmore⟩
      · obtain rfl : middle = after := (Prod.mk.inj h).2
        obtain rfl : cursor.skipSpaces = middle := (Prod.mk.inj (hstop.symm.trans hround)).2
        exact hend
      · simp [hmore] at hround
  | case3 cursor item middle hround =>
      rcases run_symbolRound cursor with ⟨hstop, _⟩ | ⟨symbol, hmore⟩
      · simp [hstop] at hround
      · simp [hmore] at hround
  | case4 cursor item middle hround items final hothers ih =>
      obtain rfl : final = after := (Prod.mk.inj h).2
      exact ih hothers
  | case5 => simp at h

theorem endsRun_of_symbols {cursor after : Cursor} {word : Word}
    (h : symbols.run cursor = (.ok word, after)) : EndsRun after.rest := by
  simp only [symbols, run_bind_eq_ok_iff, run_pure, Prod.mk.injEq] at h
  obtain ⟨_, _, _, _, _, _, others, final, hothers, _, rfl⟩ := h
  exact endsRun_of_collect hothers

theorem complains_lineEnd (h : .missing .newline ∈ complaints) : Complains complaints lineEnd := by
  refine ⟨advances_lineEnd, fun hrun => ?_⟩
  obtain ⟨_, _, rfl⟩ := error_of_lineEnd hrun
  exact .missing h

theorem rest_eq_nil_of_lineEnd {cursor after : Cursor} {error : SyntaxError}
    (hend : EndsRun cursor.rest) (h : lineEnd.run cursor = (.error error, after)) :
    cursor.rest = [] := by
  obtain ⟨hround, _, _⟩ := error_of_lineEnd h
  have hstays : ∀ middle, ¬LineBreak cursor.rest middle := fun middle lineBreak => by
    obtain ⟨_, hsome, _⟩ := Cursor.rest_idleLineRound .done lineBreak
    rw [hround] at hsome
    contradiction
  rcases hend with hnil | ⟨char, tail, hrest, hchar⟩
  · exact hnil
  · rw [hrest] at hstays
    rcases hchar with rfl | rfl
    · exact absurd .newline (hstays tail)
    · exact absurd (.comment (comment_iff.mpr ⟨tail, rfl, rfl⟩)) (hstays _)

theorem complains_probability :
    Complains [.missing .probability, .decimal .probability, .missing .closeParen, .weight]
      probability := by
  refine ⟨advances_probability, fun {cursor after error} hrun => ?_⟩
  by_cases hpeek : cursor.peek = some '('
  · obtain ⟨inner, hrest⟩ := Cursor.peek_eq_some_iff.mp hpeek
    have hleads : cursor.LeadsTo cursor.next.skip :=
      cursor.leadsTo_next.trans (Cursor.leadsTo_skip _)
    rw [run_probability_of_cons hrest] at hrun
    split at hrun
    · rename_i found middle hfirst
      obtain ⟨rfl, rfl⟩ : found = error ∧ middle = after := by simpa using hrun
      exact ((complains_number (by decide) (by decide)).stopped hfirst).of_leadsTo hleads
    · rename_i value behind hfirst
      obtain ⟨literal, rest, hscan, rfl, _, rfl⟩ := scan_of_number hfirst
      split at hrun
      · rename_i hparen
        split at hrun
        · simp at hrun
        · obtain ⟨hfault, rfl⟩ := Prod.mk.inj hrun
          rw [← Except.error.inj hfault]
          exact .weight (by decide) hleads (NumberLiteral.isLongest hscan) hparen
      · obtain ⟨hfault, rfl⟩ := Prod.mk.inj hrun
        rw [← Except.error.inj hfault]
        exact .missing (by decide)
  · simp [run_probability_of_peek_ne hpeek] at hrun

def lineComplaints : List Complaint :=
  [.missing .symbol, .missing .probability, .decimal .probability, .missing .closeParen, .weight,
    .missing .arrow]

theorem complains_production : Complains lineComplaints production := by
  refine complains_bind (complains_move Cursor.leadsTo_skip) fun _ => ?_
  refine complains_bind (complains_symbol (by decide)) fun _ => ?_
  refine complains_bind (complains_move Cursor.leadsTo_skip) fun _ => ?_
  refine complains_bind (complains_probability.mono (by decide)) fun _ => ?_
  refine complains_bind (complains_move Cursor.leadsTo_skip) fun _ => ?_
  refine complains_bind (complains_expectAll (by decide)) fun _ => ?_
  exact complains_bind (complains_symbols (by decide)) fun _ => complains_pure _

theorem endsRun_of_production {cursor after : Cursor} {line : Symbol × Production}
    (h : production.run cursor = (.ok line, after)) : EndsRun after.rest := by
  simp only [production, run_bind_eq_ok_iff, run_pure, Prod.mk.injEq] at h
  obtain ⟨_, _, _, _, _, _, _, _, _, _, _, _, _, _, _, _, _, _, _, final, hword, _, rfl⟩ := h
  exact endsRun_of_symbols hword

/-- Behind a production the text is over or its line has its end. -/
theorem run_lineEnd_of_production {cursor after : Cursor} {line : Symbol × Production}
    (h : production.run cursor = (.ok line, after)) :
    after.atEnd = true ∨ ∃ final, lineEnd.run after = (.ok (), final) := by
  cases hend : lineEnd.run after with
  | mk outcome final =>
      cases outcome with
      | ok _ => exact .inr ⟨final, rfl⟩
      | error error =>
          exact .inl (atEnd_iff.mpr (rest_eq_nil_of_lineEnd (endsRun_of_production h) hend))

theorem complains_productionRound : Complains lineComplaints productionRound := by
  refine ⟨advances_productionRound, fun {cursor after error} hrun => ?_⟩
  cases hline : production.run cursor with
  | mk outcome middle =>
      cases outcome with
      | error found =>
          obtain ⟨rfl, rfl⟩ : found = error ∧ middle = after := by
            simpa [productionRound, run_bind_of_error hline] using hrun
          exact complains_production.stopped hline
      | ok line =>
          rw [run_productionRound hline] at hrun
          rcases run_lineEnd_of_production hline with hend | ⟨final, hend⟩
          · simp [hend] at hrun
          · simp only [hend] at hrun
            split at hrun
            · simp at hrun
            · simp at hrun

theorem complains_productions : Complains lineComplaints productions :=
  complains_bind (complains_collect _ complains_productionRound) fun _ => complains_pure _

theorem complains_field {keyword : List Char} {element : Element} {value : Scanner α}
    (hkeyword : .missing element ∈ complaints) (hvalue : Complains complaints value)
    (hend : .missing .newline ∈ complaints) :
    Complains complaints (field keyword element value) := by
  refine complains_bind (complains_move Cursor.leadsTo_skip) fun _ => ?_
  refine complains_bind (complains_expectAll hkeyword) fun _ => ?_
  refine complains_bind (complains_move Cursor.leadsTo_skip) fun _ => ?_
  refine complains_bind hvalue fun _ => ?_
  exact complains_bind (complains_lineEnd hend) fun _ => complains_pure _

theorem complains_generationsField :
    Complains [.missing .generations, .missing .integer, .whole .generations, .missing .newline]
      generationsField :=
  complains_field (by decide) (complains_generations (by decide) (by decide)) (by decide)

theorem complains_numberField (keyword : List Char) (element : Element) :
    Complains [.missing element, .missing .number, .decimal .number, .missing .newline]
      (field keyword element (number .number)) :=
  complains_field (by simp) (complains_number (by simp) (by simp)) (by simp)

theorem complains_seedField :
    Complains [.missing .seed, .missing .symbol, .missing .newline] seedField :=
  complains_field (by decide) (complains_symbols (by decide)) (by decide)

def textComplaints : List Complaint :=
  [.missing .generations, .missing .angle, .missing .scale, .missing .seed, .missing .integer,
    .whole .generations, .missing .number, .decimal .number, .missing .newline] ++ lineComplaints

theorem complains_model : Complains textComplaints Scanner.model := by
  refine complains_bind (complains_generationsField.mono (by decide)) fun _ => ?_
  refine complains_bind ((complains_numberField _ .angle).mono (by decide)) fun _ => ?_
  refine complains_bind ((complains_numberField _ .scale).mono (by decide)) fun _ => ?_
  refine complains_bind (complains_seedField.mono (by decide)) fun _ => ?_
  exact complains_bind (complains_productions.mono (by decide)) fun _ => complains_pure _

end Scanner

end Lindenmayer
