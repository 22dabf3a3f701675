import Lindenmayer.Proofs.Reading.Header

namespace Lindenmayer

open Grammar

namespace Scanner

theorem run_eat_of_cons {char : Char} {cursor : Cursor} {rest : List Char}
    (h : cursor.rest = char :: rest) : (eat char).run cursor = (.ok true, cursor.next) := by
  have hpeek : cursor.peek = some char := Cursor.peek_eq_some_iff.mpr ⟨rest, h⟩
  have htake : (takeIf (· = char)).run cursor = (.ok (some char), cursor.next) := by
    simp [takeIf, hpeek]
  rw [eat, run_bind_of_ok htake]
  rfl

theorem run_eat_of_peek_ne {char : Char} {cursor : Cursor} (h : cursor.peek ≠ some char) :
    (eat char).run cursor = (.ok false, cursor) := by
  have htake : (takeIf (· = char)).run cursor = (.ok none, cursor) := by
    simp only [takeIf]
    cases hpeek : cursor.peek with
    | none => rfl
    | some other =>
        have hne : other ≠ char := fun heq => h (heq ▸ hpeek)
        simp [hne]
  rw [eat, run_bind_of_ok htake]
  rfl

theorem run_expect_of_cons {char : Char} (element : Element) {cursor : Cursor} {rest : List Char}
    (h : cursor.rest = char :: rest) : (expect char element).run cursor = (.ok (), cursor.next) := by
  rw [expect, run_bind_of_ok (run_eat_of_cons h)]
  rfl

theorem run_expect_of_peek_ne {char : Char} (element : Element) {cursor : Cursor}
    (h : cursor.peek ≠ some char) :
    (expect char element).run cursor = (.error (cursor.expected element), cursor) := by
  rw [expect, run_bind_of_ok (run_eat_of_peek_ne h)]
  rfl

theorem expect_of_run {char : Char} {element : Element} {cursor after : Cursor}
    (h : (expect char element).run cursor = (.ok (), after)) :
    cursor.rest = char :: after.rest := by
  by_cases hpeek : cursor.peek = some char
  · obtain ⟨rest, hrest⟩ := Cursor.peek_eq_some_iff.mp hpeek
    rw [run_expect_of_cons element hrest] at h
    obtain rfl : cursor.next = after := (Prod.mk.inj h).2
    rw [Cursor.rest_next, hrest, List.tail_cons]
  · rw [expect, run_bind_of_ok (run_eat_of_peek_ne hpeek)] at h
    simp at h

theorem weight_of_run {source : List Char} {cursor after : Cursor} {value : Binary64}
    (layout : Layout source cursor.rest) (h : probability.run cursor = (.ok value, after)) :
    ∃ weight, Layout source weight ∧ Weight weight value after.skip.rest := by
  by_cases hpeek : cursor.peek = some '('
  · obtain ⟨inner, hrest⟩ := Cursor.peek_eq_some_iff.mp hpeek
    rw [probability, run_bind_of_ok (run_eat_of_cons hrest)] at h
    simp only [if_true, run_bind_eq_ok_iff, run_move, run_here, Prod.mk.injEq] at h
    obtain ⟨_, _, ⟨_, rfl⟩, _, _, ⟨_, rfl⟩, number, behind, hnumber, _, _, ⟨_, rfl⟩, _, outer,
      hparen, hvalue⟩ := h
    have hclosing := behind.layout_skip
    rw [expect_of_run hparen] at hclosing
    have hopening := cursor.next.layout_skip
    rw [Cursor.rest_next, hrest, List.tail_cons] at hopening
    by_cases hallowed : number.IsProbability
    · rw [if_pos hallowed] at hvalue
      obtain ⟨rfl, rfl⟩ : number = value ∧ outer = after := by simpa using hvalue
      refine ⟨_, layout, ?_⟩
      rw [hrest]
      exact .present hopening (number_of_run hnumber) hclosing outer.layout_skip hallowed
    · rw [if_neg hallowed] at hvalue
      simp at hvalue
  · rw [probability, run_bind_of_ok (run_eat_of_peek_ne hpeek)] at h
    obtain ⟨rfl, rfl⟩ : Binary64.one = value ∧ cursor = after := by simpa using h
    exact ⟨_, layout.trans cursor.layout_skip, .absent⟩

theorem run_weight {source weight rest : List Char} {cursor : Cursor} {value : Binary64}
    (hsource : cursor.rest = source) (layout : Layout source weight)
    (weighted : Weight weight value rest) (hrest : StartsToken rest)
    (hparen : rest.head? ≠ some '(') :
    ∃ after, probability.run cursor.skip = (.ok value, after) ∧ after.skip.rest = rest := by
  subst hsource
  cases weighted with
  | absent =>
      have hskip := Cursor.rest_skip_eq layout hrest.isStuck
      have hpeek : cursor.skip.peek ≠ some '(' := by rwa [Cursor.peek, hskip]
      refine ⟨cursor.skip, ?_, ?_⟩
      · rw [probability, run_bind_of_ok (run_eat_of_peek_ne hpeek)]
        rfl
      · rw [Cursor.rest_skip_eq .done (hskip ▸ hrest.isStuck), hskip]
  | @present inner number behind outer rest value opening read closing layoutOuter allowed =>
      have hskip := Cursor.rest_skip_eq layout (startsToken_cons (by decide)).isStuck
      have hinner : cursor.skip.next.rest = inner := by
        rw [Cursor.rest_next, hskip, List.tail_cons]
      have hnumber := Cursor.rest_skip_eq (hinner ▸ opening) read.startsToken.isStuck
      obtain ⟨afterNumber, hread, rfl⟩ :=
        run_number .probability (hnumber ▸ read) (startsNoNumber_of_layout closing)
      have hclosing := Cursor.rest_skip_eq closing (isStuck_cons.mpr (by decide))
      have houter : afterNumber.skip.next.rest = outer := by
        rw [Cursor.rest_next, hclosing, List.tail_cons]
      refine ⟨afterNumber.skip.next, ?_, Cursor.rest_skip_eq (houter ▸ layoutOuter) hrest.isStuck⟩
      rw [probability, run_bind_of_ok (run_eat_of_cons hskip)]
      simp only [if_true]
      rw [run_bind_of_ok (run_move _ _), run_bind_of_ok (run_here _), run_bind_of_ok hread,
        run_bind_of_ok (run_move _ _), run_bind_of_ok (run_expect_of_cons _ hclosing),
        if_pos allowed]
      rfl

theorem run_probability_of_peek_ne {cursor : Cursor} (h : cursor.peek ≠ some '(') :
    probability.run cursor = (.ok .one, cursor) := by
  rw [probability, run_bind_of_ok (run_eat_of_peek_ne h)]
  rfl

theorem run_probability_of_cons {cursor : Cursor} {inner : List Char}
    (h : cursor.rest = '(' :: inner) :
    probability.run cursor =
      match (number .probability).run cursor.next.skip with
      | (.error error, after) => (.error error, after)
      | (.ok value, behind) =>
          if behind.skip.peek = some ')' then
            (if value.IsProbability then .ok value
              else .error (cursor.next.skip.outOfRange .probability value.text), behind.skip.next)
          else (.error (behind.skip.expected .closeParen), behind.skip) := by
  rw [probability, run_bind_of_ok (run_eat_of_cons h)]
  simp only [if_true]
  rw [run_bind_of_ok (run_move _ _), run_bind_of_ok (run_here _)]
  cases hnumber : (number .probability).run cursor.next.skip with
  | mk outcome behind =>
      cases outcome with
      | error error => rw [run_bind_of_error hnumber]
      | ok value =>
          rw [run_bind_of_ok hnumber, run_bind_of_ok (run_move _ _)]
          by_cases hclosing : behind.skip.peek = some ')'
          · obtain ⟨outer, houter⟩ := Cursor.peek_eq_some_iff.mp hclosing
            rw [run_bind_of_ok (run_expect_of_cons _ houter)]
            simp only [if_pos hclosing]
            split <;> rfl
          · rw [run_bind_of_error (run_expect_of_peek_ne _ hclosing)]
            simp only [if_neg hclosing]

theorem line_of_run {cursor after : Cursor} {line : Symbol × Production}
    (h : production.run cursor = (.ok line, after)) : Line cursor.rest line after.rest := by
  simp only [production, run_bind_eq_ok_iff, run_move, Prod.mk.injEq] at h
  obtain ⟨_, _, ⟨_, rfl⟩, predecessor, behind, hsymbol, _, _, ⟨_, rfl⟩, value, weighed, hweight,
    _, _, ⟨_, rfl⟩, _, pointed, harrow, successor, final, hword, hline⟩ := h
  obtain ⟨rfl, rfl⟩ :
      (predecessor, (⟨value, successor⟩ : Production)) = line ∧ final = after := by
    simpa using hline
  obtain ⟨char, hchar, hspace, hnewline, rfl⟩ := run_symbol_of_ok hsymbol
  have hstuck := cursor.isStuck_skip
  have hopening := cursor.layout_skip
  rw [hchar] at hstuck hopening
  have hmark : char ≠ '#' := (isStuck_cons.mp hstuck).2
  obtain ⟨weight, layout, weighted⟩ := weight_of_run behind.layout_skip hweight
  rw [expectAll_of_run harrow] at weighted
  obtain ⟨run, hclosing, hrun⟩ := run_of_symbols hword
  exact .intro hopening ⟨hspace, hnewline, hmark⟩ layout weighted hclosing hrun

theorem run_production {cursor : Cursor} {line : Symbol × Production} {rest : List Char}
    (read : Line cursor.rest line rest) (hend : EndsRun (rest.dropWhile (· = ' '))) :
    ∃ after, production.run cursor = (.ok line, after) ∧
      after.rest = rest.dropWhile (· = ' ') := by
  generalize hsource : cursor.rest = source at read
  cases read with
  | intro opening symbol layout weighted closing written =>
      have hskip := Cursor.rest_skip_eq (hsource ▸ opening) (startsToken_cons symbol).isStuck
      have hbehind := hskip ▸ cursor.skip.rest_next
      rw [List.tail_cons] at hbehind
      obtain ⟨weighed, hweight, harrow⟩ :=
        run_weight hbehind layout weighted (startsToken_cons (by decide)) (by simp)
      have hpointed := @rest_drop_append _ ['-', '>'] _ harrow
      obtain ⟨after, hword, hrest⟩ := run_symbols (hpointed ▸ closing) written hend
      refine ⟨after, ?_, hrest⟩
      rw [production, run_bind_of_ok (run_move _ _),
        run_bind_of_ok (run_symbol_of_cons hskip symbol.1 symbol.2.1),
        run_bind_of_ok (run_move _ _), run_bind_of_ok hweight, run_bind_of_ok (run_move _ _),
        run_bind_of_ok (run_expectAll _ harrow), run_bind_of_ok hword]
      rfl

theorem atEnd_iff {cursor : Cursor} : cursor.atEnd = true ↔ cursor.rest = [] :=
  List.isEmpty_iff

theorem run_productionRound {cursor middle : Cursor} {line : Symbol × Production}
    (h : production.run cursor = (.ok line, middle)) :
    productionRound.run cursor =
      if middle.atEnd then (.ok (.last line), middle)
      else
        match lineEnd.run middle with
        | (.ok _, after) => (.ok (if after.atEnd then .last line else .more line), after)
        | (.error error, after) => (.error error, after) := by
  rw [productionRound, run_bind_of_ok h, run_bind_of_ok (run_here _)]
  split
  · rfl
  · cases hend : lineEnd.run middle with
    | mk ended after =>
        cases ended with
        | error error => rw [run_bind_of_error hend]
        | ok _ =>
            rw [run_bind_of_ok hend, run_bind_of_ok (run_here _)]
            cases hfinal : after.atEnd with
            | false => simp [hfinal]
            | true => simp [hfinal]

theorem idle_or_lineEnd_of_run {cursor after : Cursor}
    (h : lineEnd.run cursor = (.ok (), after)) :
    Idle cursor.rest ∧ after.rest = [] ∨ LineEnd cursor.rest after.rest ∧ after.rest ≠ [] := by
  by_cases hrest : after.rest = []
  · refine .inl ⟨?_, hrest⟩
    rcases lineEnd_of_run h with lineEnd | ⟨idle, _⟩
    · rw [hrest] at lineEnd
      exact lineEnd.idle (.spaces .done)
    · exact idle
  · exact .inr ⟨(lineEnd_of_run h).resolve_right (fun hend => hrest hend.2), hrest⟩

theorem line_of_round {cursor after : Cursor} {round : Round (Symbol × Production)}
    (h : productionRound.run cursor = (.ok round, after)) :
    (∃ line rest, round = .last line ∧ Line cursor.rest line rest ∧ Idle rest ∧
      after.rest = []) ∨
    ∃ line behind, round = .more line ∧ Line cursor.rest line behind ∧
      LineEnd behind after.rest := by
  cases hproduction : production.run cursor with
  | mk outcome middle =>
      cases outcome with
      | error error => simp [productionRound, run_bind_of_error hproduction] at h
      | ok line =>
          have read := line_of_run hproduction
          rw [run_productionRound hproduction] at h
          by_cases hmiddle : middle.atEnd
          · rw [if_pos hmiddle] at h
            obtain ⟨rfl, rfl⟩ : Round.last line = round ∧ middle = after := by simpa using h
            have hrest := atEnd_iff.mp hmiddle
            exact .inl ⟨line, middle.rest, rfl, read, hrest ▸ .spaces .done, hrest⟩
          · rw [if_neg hmiddle] at h
            cases hend : lineEnd.run middle with
            | mk ended final =>
                cases ended with
                | error error => simp [hend] at h
                | ok _ =>
                    simp only [hend, Prod.mk.injEq, Except.ok.injEq] at h
                    obtain ⟨rfl, rfl⟩ := h
                    rcases idle_or_lineEnd_of_run hend with ⟨idle, hrest⟩ | ⟨lineEnd, hrest⟩
                    · exact .inl ⟨line, middle.rest, if_pos (atEnd_iff.mpr hrest), read, idle, hrest⟩
                    · exact .inr ⟨line, middle.rest, if_neg (mt atEnd_iff.mp hrest), read, lineEnd⟩

theorem lines_of_run {cursor after : Cursor} {lines : List (Symbol × Production)}
    (h : productionLines.run cursor = (.ok lines, after)) :
    Lines cursor.rest lines ∧ after.rest = [] := by
  rw [productionLines] at h
  cases hround : productionRound.run cursor with
  | mk outcome middle =>
      cases outcome with
      | error error =>
          rw [run_collect_of_error _ hround] at h
          simp at h
      | ok round =>
          rcases line_of_round hround with
            ⟨line, rest, rfl, read, idle, hend⟩ | ⟨line, behind, rfl, read, lineEnd⟩
          · rw [run_collect_of_last _ hround] at h
            obtain ⟨rfl, rfl⟩ : [line] = lines ∧ middle = after := by simpa using h
            exact ⟨.last read idle, hend⟩
          · rw [run_collect_of_more _ hround] at h
            split at h
            · rename_i others final hothers
              obtain ⟨rfl, rfl⟩ : line :: others = lines ∧ final = after := by simpa using h
              obtain ⟨hlines, hend⟩ := lines_of_run hothers
              exact ⟨.more read lineEnd hlines, hend⟩
            · simp at h
termination_by cursor.rest.length
decreasing_by exact productionRound_usesText _ _ _ hround

theorem run_productionLines {source : List Char} {lines : List (Symbol × Production)}
    (read : Lines source lines) {cursor : Cursor} (hcursor : Layout source cursor.rest) :
    ∃ after, productionLines.run cursor = (.ok lines, after) ∧ after.rest = [] := by
  induction read generalizing cursor with
  | @last source rest line read idle =>
      obtain ⟨middle, hproduction, hmiddle⟩ := run_production (read.of_layout hcursor) idle.endsRun
      have hround := run_productionRound hproduction
      rw [productionLines]
      by_cases hend : middle.atEnd
      · rw [if_pos hend] at hround
        exact ⟨middle, run_collect_of_last _ hround, atEnd_iff.mp hend⟩
      · rw [if_neg hend] at hround
        have hne : rest.dropWhile (· = ' ') ≠ [] := hmiddle ▸ mt atEnd_iff.mpr hend
        obtain ⟨next, lineBreak, hnext⟩ := idle.exists_lineBreak hne
        rw [← hmiddle] at lineBreak
        obtain ⟨after, hrun, hafter⟩ := run_lineEnd_of_idle .done lineBreak hnext
        simp only [hrun, if_pos (atEnd_iff.mpr hafter)] at hround
        exact ⟨after, run_collect_of_last _ hround, hafter⟩
  | @more source behind next line others read lineEnd lines ih =>
      obtain ⟨middle, hproduction, hmiddle⟩ :=
        run_production (read.of_layout hcursor) lineEnd.endsRun
      have hround := run_productionRound hproduction
      have hbreak : LineEnd middle.rest next := hmiddle ▸ lineEnd.dropWhile
      obtain ⟨after, hrun, hafter⟩ := run_lineEnd_of_tokenAhead hbreak lines.tokenAhead
      have hend := mt atEnd_iff.mp hbreak.ne_nil
      have hmore := mt atEnd_iff.mp (lines.tokenAhead.of_layout hafter).ne_nil
      simp only [if_neg hend, hrun, if_neg hmore] at hround
      obtain ⟨final, hlines, hfinal⟩ := ih hafter
      refine ⟨final, ?_, hfinal⟩
      rw [productionLines, run_collect_of_more _ hround]
      rw [productionLines] at hlines
      rw [hlines]

end Scanner

end Lindenmayer
