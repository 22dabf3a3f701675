import Lindenmayer.Proofs.Canonical
import Lindenmayer.Proofs.Faults.Tracing
import Lindenmayer.Proofs.Grammar.Taking

namespace Lindenmayer

namespace Grammar

variable {α β : Type}

/-- Some text is read as the part, whatever follows it. -/
def IsPossible (Part : List Char → α → List Char → Prop) : Prop :=
  ∃ chars value, ∀ rest, Part (chars ++ rest) value rest

/-- What a text has in front of some place can be carried on to the part. -/
def Completes (Part : List Char → α → List Char → Prop) (source left : List Char) : Prop :=
  ∃ taken more value, source = taken ++ left ∧ ∀ rest, Part (taken ++ (more ++ rest)) value rest

def Then (First : List Char → α → List Char → Prop)
    (Next : α → List Char → β → List Char → Prop) (source : List Char) (value : β)
    (rest : List Char) : Prop :=
  ∃ first middle, First source first middle ∧ Next first middle value rest

def Unexcused (_ : SyntaxError) (_ _ : List Char) : Prop :=
  False

section

variable {First Part : List Char → α → List Char → Prop}
  {Next : α → List Char → β → List Char → Prop} {source middle left : List Char}

theorem IsPossible.completes (h : IsPossible Part) (source : List Char) :
    Completes Part source source := by
  obtain ⟨chars, value, hpart⟩ := h
  exact ⟨[], chars, value, rfl, hpart⟩

theorem IsPossible.andThen (hfirst : IsPossible First) (hnext : ∀ value, IsPossible (Next value)) :
    IsPossible (Then First Next) := by
  obtain ⟨chars, first, hfirst⟩ := hfirst
  obtain ⟨others, value, hnext⟩ := hnext first
  refine ⟨chars ++ others, value, fun rest => ⟨first, others ++ rest, ?_, hnext rest⟩⟩
  rw [List.append_assoc]
  exact hfirst (others ++ rest)

theorem Completes.andThen (hfirst : Completes First source left)
    (hnext : ∀ value, IsPossible (Next value)) : Completes (Then First Next) source left := by
  obtain ⟨taken, more, first, rfl, hfirst⟩ := hfirst
  obtain ⟨others, value, hnext⟩ := hnext first
  refine ⟨taken, more ++ others, value, rfl, fun rest => ⟨first, others ++ rest, ?_, hnext rest⟩⟩
  rw [List.append_assoc]
  exact hfirst (others ++ rest)

theorem Completes.behind {first : α} (hfirst : Takes (First · first ·) source middle)
    (hnext : Completes (Next first) middle left) : Completes (Then First Next) source left := by
  obtain ⟨before, rfl, hfirst⟩ := hfirst
  obtain ⟨taken, more, value, rfl, hnext⟩ := hnext
  refine ⟨before ++ taken, more, value, (List.append_assoc _ _ _).symm, fun rest => ?_⟩
  refine ⟨first, taken ++ (more ++ rest), ?_, hnext rest⟩
  rw [List.append_assoc]
  exact hfirst (taken ++ (more ++ rest))

theorem Takes.andThen {first : α} {value : β} {rest : List Char}
    (hfirst : Takes (First · first ·) source middle) (hnext : Takes (Next first · value ·) middle rest) :
    Takes (Then First Next · value ·) source rest := by
  obtain ⟨before, rfl, hfirst⟩ := hfirst
  obtain ⟨taken, rfl, hnext⟩ := hnext
  refine ⟨before ++ taken, (List.append_assoc _ _ _).symm, fun other => ?_⟩
  refine ⟨first, taken ++ other, ?_, hnext other⟩
  rw [List.append_assoc]
  exact hfirst (taken ++ other)

theorem Takes.self {Part : List Char → List Char → Prop} (h : Takes Part source left) :
    Part source left := by
  obtain ⟨taken, rfl, hpart⟩ := h
  exact hpart left

end

end Grammar

open Grammar

namespace Scanner

variable {α β : Type}

/-- A scanner that reads a part and finds what is wrong with one before it has gone too far, but for
the errors that are excused. Layout may come to the end of the text, where every error is in time. -/
structure Timely (Part : List Char → α → List Char → Prop)
    (Excused : SyntaxError → List Char → List Char → Prop) (scanner : Scanner α) : Prop where
  advances : Advances scanner
  possible : IsPossible Part
  reads : ∀ {cursor after : Cursor} {value : α}, scanner.run cursor = (.ok value, after) →
    after.rest ≠ [] → Takes (Part · value ·) cursor.rest after.rest
  fails : ∀ {cursor after : Cursor} {error : SyntaxError},
    scanner.run cursor = (.error error, after) →
      ∃ place, cursor.LeadsTo place ∧ error.location = place.location ∧
        (place.rest ≠ [] → Completes Part cursor.rest place.rest ∨
          Excused error cursor.rest place.rest)

variable {First : List Char → α → List Char → Prop}
  {Next : α → List Char → β → List Char → Prop} {Part Whole : List Char → α → List Char → Prop}
  {Early Late Excused : SyntaxError → List Char → List Char → Prop}

theorem timely_bind {scanner : Scanner α} {next : α → Scanner β}
    (hscanner : Timely First Early scanner) (hnext : ∀ value, Timely (Next value) Late (next value))
    (hearly : ∀ {error source left}, Early error source left → Excused error source left)
    (hlate : ∀ {error source value middle left}, First source value middle →
      Late error middle left → Excused error source left) :
    Timely (Then First Next) Excused (scanner >>= next) where
  advances := advances_bind hscanner.advances fun value => (hnext value).advances
  possible := hscanner.possible.andThen fun value => (hnext value).possible
  reads hrun hrest := by
    obtain ⟨first, middle, hfirst, hsecond⟩ := run_bind_eq_ok_iff.mp hrun
    have hmiddle := ((hnext first).advances.leadsTo hsecond).ne_nil hrest
    exact (hscanner.reads hfirst hmiddle).andThen ((hnext first).reads hsecond hrest)
  fails hrun := by
    rcases run_bind_eq_error_iff.mp hrun with hfirst | ⟨first, middle, hfirst, hsecond⟩
    · obtain ⟨place, hplace, hlocation, hcompletes⟩ := hscanner.fails hfirst
      refine ⟨place, hplace, hlocation, fun hrest => (hcompletes hrest).imp ?_ hearly⟩
      exact fun hpart => hpart.andThen fun value => (hnext value).possible
    · obtain ⟨place, hplace, hlocation, hcompletes⟩ := (hnext first).fails hsecond
      refine ⟨place, (hscanner.advances.leadsTo hfirst).trans hplace, hlocation, fun hrest => ?_⟩
      have htakes := hscanner.reads hfirst (hplace.ne_nil hrest)
      exact (hcompletes hrest).imp (fun hpart => hpart.behind htakes) (hlate htakes.self)

theorem timely_andThen {scanner : Scanner α} {next : α → Scanner β}
    (hscanner : Timely First Unexcused scanner)
    (hnext : ∀ value, Timely (Next value) Unexcused (next value)) :
    Timely (Then First Next) Unexcused (scanner >>= next) :=
  timely_bind hscanner hnext (fun h => h) fun _ h => h

theorem Timely.mono {scanner : Scanner α} (h : Timely Part Excused scanner)
    (hpart : ∀ {source value rest}, Part source value rest → Whole source value rest) :
    Timely Whole Excused scanner where
  advances := h.advances
  possible := by
    obtain ⟨chars, value, hpossible⟩ := h.possible
    exact ⟨chars, value, fun rest => hpart (hpossible rest)⟩
  reads hrun hrest := by
    obtain ⟨taken, hsource, htaken⟩ := h.reads hrun hrest
    exact ⟨taken, hsource, fun other => hpart (htaken other)⟩
  fails hrun := by
    obtain ⟨place, hplace, hlocation, hcompletes⟩ := h.fails hrun
    refine ⟨place, hplace, hlocation, fun hrest => (hcompletes hrest).imp_left ?_⟩
    rintro ⟨taken, more, value, hsource, htaken⟩
    exact ⟨taken, more, value, hsource, fun rest => hpart (htaken rest)⟩

theorem timely_of_start {scanner : Scanner α} (hadvances : Advances scanner)
    (hpossible : IsPossible Part)
    (hreads : ∀ {cursor after : Cursor} {value : α}, scanner.run cursor = (.ok value, after) →
      Takes (Part · value ·) cursor.rest after.rest)
    (hfails : ∀ {cursor after : Cursor} {error : SyntaxError},
      scanner.run cursor = (.error error, after) → error.location = cursor.location) :
    Timely Part Unexcused scanner where
  advances := hadvances
  possible := hpossible
  reads hrun _ := hreads hrun
  fails {cursor _ _} hrun :=
    ⟨cursor, .refl _, hfails hrun, fun _ => .inl (hpossible.completes cursor.rest)⟩

def Nothing (result : α) (source : List Char) (value : α) (rest : List Char) : Prop :=
  value = result ∧ source = rest

theorem timely_pure (result : α) : Timely (Nothing result) Unexcused (Pure.pure result) := by
  refine timely_of_start (advances_pure _) ⟨[], result, fun _ => ⟨rfl, rfl⟩⟩ ?_ (by simp)
  intro cursor after value hrun
  simp only [run_pure, Prod.mk.injEq, Except.ok.injEq] at hrun
  obtain ⟨rfl, rfl⟩ := hrun
  exact takes_done fun _ => ⟨rfl, rfl⟩

theorem timely_skip : Timely (fun source _ rest => Layout source rest) Unexcused
    (move Cursor.skip) where
  advances := advances_move Cursor.leadsTo_skip
  possible := ⟨[], (), fun _ => .done⟩
  reads {cursor after _} hrun hrest := by
    obtain rfl : cursor.skip = after := (Prod.mk.inj hrun).2
    exact cursor.layout_skip.takes hrest
  fails hrun := by simp at hrun

theorem completes_skip (hpossible : IsPossible Part)
    (hlayout : ∀ {source inner rest : List Char} {value : α}, Layout source inner →
      Part inner value rest → Part source value rest)
    {cursor : Cursor} (hrest : cursor.skip.rest ≠ []) :
    Completes Part cursor.rest cursor.skip.rest := by
  obtain ⟨taken, hsource, hskip⟩ := cursor.layout_skip.takes hrest
  obtain ⟨chars, value, hpart⟩ := hpossible
  exact ⟨taken, chars, value, hsource, fun rest => hlayout (hskip _) (hpart rest)⟩

theorem timely_lineEnd : Timely (fun source _ rest => LineEnd source rest) Unexcused lineEnd where
  advances := advances_lineEnd
  possible := ⟨['\n'], (), fun _ => .intro .done .newline .done⟩
  reads hrun hrest := ((lineEnd_of_run hrun).resolve_right fun h => hrest h.2).takes hrest
  fails {cursor after error} hrun := by
    obtain ⟨_, rfl, rfl⟩ := error_of_lineEnd hrun
    refine ⟨cursor.skipSpaces, cursor.leadsTo_skipSpaces, rfl, fun _ => .inl ?_⟩
    obtain ⟨taken, hsource, hspaces⟩ := cursor.spaces_skipSpaces.takes
    exact ⟨taken, ['\n'], (), hsource, fun _ => .intro (hspaces _) .newline .done⟩

theorem timely_expectAll (chars : List Char) (element : Element) :
    Timely (fun source _ rest => source = chars ++ rest) Unexcused (expectAll chars element) := by
  refine timely_of_start (advances_expectAll _ _) ⟨chars, (), fun _ => rfl⟩ ?_ ?_
  · intro cursor after _ hrun
    rw [expectAll_of_run hrun]
    exact takes_append fun _ => rfl
  · intro cursor after error hrun
    obtain ⟨rfl, _⟩ := error_of_expectAll hrun
    rfl

theorem timely_number (element : Element) : Timely Number Unexcused (number element) := by
  refine timely_of_start (advances_number _) ⟨Binary64.one.text, .one, number_text rfl⟩
    (fun hrun => (number_of_run hrun).takes) ?_
  intro cursor after error hrun
  rcases error_of_number hrun with ⟨rfl, _⟩ | ⟨_, _, _, _, rfl, _⟩
  · rfl
  · rfl

theorem timely_generations : Timely Count Unexcused generations := by
  refine timely_of_start advances_generations ⟨_, 1, count_toDigits 1⟩
    (fun hrun => (count_of_run hrun).takes) ?_
  intro cursor after error hrun
  rcases error_of_generations hrun with ⟨rfl, _⟩ | ⟨_, _, _, _, rfl, _⟩
  · rfl
  · rfl

theorem symbol_of_skip {cursor after : Cursor} {value : Symbol}
    (h : symbol.run cursor.skip = (.ok value, after)) :
    ∃ char, cursor.skip.rest = char :: after.rest ∧ StandsForSymbol char ∧ value = .ofChar char := by
  obtain ⟨char, hrest, hspace, hnewline, rfl⟩ := run_symbol_of_ok h
  have hstuck := cursor.isStuck_skip
  rw [hrest] at hstuck
  exact ⟨char, hrest, ⟨hspace, hnewline, (isStuck_cons.mp hstuck).2⟩, rfl⟩

def FirstSymbol (source : List Char) (value : Symbol) (rest : List Char) : Prop :=
  ∃ char, Layout source (char :: rest) ∧ StandsForSymbol char ∧ value = .ofChar char

theorem possible_firstSymbol : IsPossible FirstSymbol :=
  ⟨['F'], .ofChar 'F', fun _ => ⟨'F', .done, by decide, rfl⟩⟩

theorem timely_firstSymbol :
    Timely FirstSymbol Unexcused (do
      move Cursor.skip
      symbol) where
  advances := advances_bind (advances_move Cursor.leadsTo_skip) fun _ => advances_symbol
  possible := possible_firstSymbol
  reads {cursor after value} hrun _ := by
    rw [run_bind_of_ok (run_move _ _)] at hrun
    obtain ⟨char, hrest, hchar, rfl⟩ := symbol_of_skip hrun
    have layout := cursor.layout_skip
    rw [hrest] at layout
    obtain ⟨taken, hsource, hlayout⟩ := layout.takes (List.cons_ne_nil _ _)
    refine ⟨taken ++ [char], by rw [hsource, List.append_assoc]; rfl, fun other => ?_⟩
    rw [List.append_assoc]
    exact ⟨char, hlayout (char :: other), hchar, rfl⟩
  fails {cursor after error} hrun := by
    rw [run_bind_of_ok (run_move _ _)] at hrun
    obtain ⟨rfl, _⟩ := error_of_symbol hrun
    refine ⟨cursor.skip, cursor.leadsTo_skip, rfl, fun hrest => .inl ?_⟩
    refine completes_skip possible_firstSymbol ?_ hrest
    rintro _ _ _ _ layout ⟨char, opening, hchar, rfl⟩
    exact ⟨char, layout.trans opening, hchar, rfl⟩

theorem exists_run_symbols_behind (cursor : Cursor) :
    ∃ word after, (collect symbolRound symbolRound_usesText).run cursor = (.ok word, after) := by
  rcases endsRun_or_symbol cursor with hend | ⟨char, rest, hrest, hchar⟩
  · exact ⟨_, _, run_collect_of_stop _ (run_symbolRound_of_endsRun hend)⟩
  · have hround := run_symbolRound_of_symbol hrest hchar
    obtain ⟨word, after, hrun⟩ := exists_run_symbols_behind cursor.skipSpaces.next
    refine ⟨.ofChar char :: word, after, ?_⟩
    rw [run_collect_of_more _ hround, hrun]
termination_by cursor.rest.length
decreasing_by exact symbolRound_usesText _ _ _ hround

def RunBehind (source : List Char) (word : Word) (rest : List Char) : Prop :=
  ∃ inner, Layout source inner ∧ Run inner word rest

theorem possible_runBehind : IsPossible RunBehind :=
  ⟨['F'], _, fun _ => ⟨_, .done, .one (by decide) .done⟩⟩

theorem timely_symbols : Timely RunBehind Unexcused symbols where
  advances := advances_symbols
  possible := possible_runBehind
  reads hrun _ := by
    obtain ⟨inner, layout, run⟩ := run_of_symbols hrun
    obtain ⟨gap, hsource, hlayout⟩ := layout.takes run.startsToken.ne_nil
    obtain ⟨taken, rfl, htaken⟩ := run.takes
    refine ⟨gap ++ taken, by rw [hsource, List.append_assoc], fun other => ?_⟩
    rw [List.append_assoc]
    exact ⟨taken ++ other, hlayout _, htaken other⟩
  fails {cursor after error} hrun := by
    rw [symbols, run_bind_of_ok (run_move _ _)] at hrun
    rcases run_bind_eq_error_iff.mp hrun with hsymbol | ⟨_, middle, _, hothers⟩
    · obtain ⟨rfl, _⟩ := error_of_symbol hsymbol
      refine ⟨cursor.skip, cursor.leadsTo_skip, rfl, fun hrest => .inl ?_⟩
      refine completes_skip possible_runBehind ?_ hrest
      rintro _ _ _ _ layout ⟨inner, opening, run⟩
      exact ⟨inner, layout.trans opening, run⟩
    · -- The symbols behind the first one are read as far as there are any.
      obtain ⟨word, final, hcollect⟩ := exists_run_symbols_behind middle
      rw [run_bind_of_ok hcollect] at hothers
      simp at hothers

theorem timely_field (keyword : List Char) (element : Element) {value : Scanner α}
    {Value : List Char → α → List Char → Prop}
    (hvalue : Timely (fun source value rest => ∃ inner, Layout source inner ∧ Value inner value rest)
      Unexcused value) :
    Timely (Field keyword Value) Unexcused (field keyword element value) := by
  have hfield := timely_andThen timely_skip fun _ =>
    timely_andThen (timely_expectAll keyword element) fun _ =>
      timely_andThen timely_skip fun _ => timely_andThen hvalue fun result =>
        timely_andThen timely_lineEnd fun _ => timely_pure result
  refine hfield.mono ?_
  rintro source value rest ⟨_, _, opening, _, _, rfl, _, _, layout, _, _, ⟨_, inner, read⟩, _, _,
    lineEnd, rfl, rfl⟩
  exact .intro opening (layout.trans inner) read lineEnd

end Scanner

end Lindenmayer
