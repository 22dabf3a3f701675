import Lindenmayer.Proofs.Grammar.Taking

/-! A token cannot reach into the idle text at the end of a description. -/

namespace Lindenmayer

namespace Grammar

theorem afterLine_cons {char : Char} (h : char ≠ '\n') (chars : List Char) :
    afterLine (char :: chars) = afterLine chars := by
  rw [afterLine, List.dropWhile_cons_of_pos (by simpa using h), afterLine]

theorem afterLine_append_of_mem {body : List Char} (h : '\n' ∈ body) (more : List Char) :
    afterLine (body ++ more) = afterLine body ++ more := by
  obtain ⟨line, rest, rfl, hline⟩ := List.eq_append_cons_of_mem h
  rw [List.append_assoc, List.cons_append, afterLine_append hline, afterLine_append hline]

theorem afterLine_append_of_notMem {body : List Char} (h : '\n' ∉ body) (more : List Char) :
    afterLine (body ++ more) = afterLine more := by
  rw [afterLine, List.dropWhile_append_of_pos (fun _ hmem => ne_newline_of_mem h hmem), afterLine]

theorem Spaces.afterLine_eq {source rest : List Char} (spaces : Spaces source rest) :
    afterLine source = afterLine rest := by
  induction spaces with
  | done => rfl
  | space _ ih => rw [afterLine_cons (by decide), ih]

theorem LineBreak.rest_eq {source rest : List Char} (lineBreak : LineBreak source rest) :
    rest = afterLine source := by
  cases lineBreak with
  | newline => rfl
  | comment comment =>
      obtain ⟨body, rfl, rfl⟩ := comment_iff.mp comment
      rw [afterLine_cons (by decide)]

theorem Idle.afterLine {source : List Char} (idle : Idle source) : Idle (afterLine source) := by
  cases idle with
  | spaces spaces =>
      rw [spaces.afterLine_eq]
      exact .spaces .done
  | line spaces lineBreak idle =>
      rw [spaces.afterLine_eq, ← lineBreak.rest_eq]
      exact idle

theorem Layout.idle {source rest : List Char} (layout : Layout source rest) (idle : Idle rest) :
    Idle source := by
  induction layout with
  | done => exact idle
  | space _ ih =>
      cases ih idle with
      | spaces spaces => exact .spaces (.space spaces)
      | line spaces lineBreak idle => exact .line (.space spaces) lineBreak idle
  | comment comment _ ih => exact .line .done (.comment comment) (ih idle)

theorem idle_newline {source : List Char} : Idle ('\n' :: source) ↔ Idle source :=
  idle_iff .done .newline

theorem idle_comment {body : List Char} : Idle ('#' :: body) ↔ Idle (afterLine body) :=
  idle_iff .done (.comment (comment_iff.mpr ⟨body, rfl, rfl⟩))

theorem idle_space {source : List Char} : Idle (' ' :: source) ↔ Idle source := by
  have layout : Layout (' ' :: source) source := .space .done
  exact ⟨fun idle => idle.of_layout layout, layout.idle⟩

theorem length_afterLine_le (chars : List Char) : (afterLine chars).length ≤ chars.length := by
  rw [afterLine, List.length_tail]
  exact Nat.le_trans (Nat.sub_le _ _) (List.dropWhile_suffix _).length_le

/-- Every text begins with a space, a line end, a comment or a token, unless it is over. -/
theorem textInduction {motive : List Char → Prop} (nil : motive [])
    (space : ∀ rest, motive rest → motive (' ' :: rest))
    (newline : ∀ rest, motive rest → motive ('\n' :: rest))
    (comment : ∀ body, motive (afterLine body) → motive ('#' :: body))
    (token : ∀ char rest, StandsForSymbol char → motive (char :: rest)) (source : List Char) :
    motive source := by
  match source with
  | [] => exact nil
  | char :: rest =>
      have ih := textInduction nil space newline comment token rest
      have hcomment := textInduction nil space newline comment token (afterLine rest)
      by_cases hspace : char = ' '
      · exact hspace ▸ space rest ih
      · by_cases hnewline : char = '\n'
        · exact hnewline ▸ newline rest ih
        · by_cases hmark : char = '#'
          · exact hmark ▸ comment rest hcomment
          · exact token char rest ⟨hspace, hnewline, hmark⟩
termination_by source.length
decreasing_by
  · exact Nat.lt_succ_self _
  · exact Nat.lt_succ_of_le (length_afterLine_le rest)

variable {source rest more : List Char}

theorem Idle.append (idle : Idle source) (hmore : Idle more) : Idle (source ++ more) := by
  induction source using textInduction with
  | nil => exact hmore
  | space _ ih => exact idle_space.mpr (ih (idle_space.mp idle))
  | newline _ ih => exact idle_newline.mpr (ih (idle_newline.mp idle))
  | comment body ih =>
      have hbody := idle_comment.mp idle
      rw [List.cons_append, idle_comment]
      by_cases hmem : '\n' ∈ body
      · rw [afterLine_append_of_mem hmem]
        exact ih hbody
      · rw [afterLine_append_of_notMem hmem]
        exact hmore.afterLine
  | token _ _ h => exact ((startsToken_cons h).not_idle idle).elim

theorem Idle.of_append (idle : Idle (source ++ more)) : Idle source := by
  induction source using textInduction with
  | nil => exact .spaces .done
  | space _ ih => exact idle_space.mpr (ih (idle_space.mp idle))
  | newline _ ih => exact idle_newline.mpr (ih (idle_newline.mp idle))
  | comment body ih =>
      rw [List.cons_append, idle_comment] at idle
      rw [idle_comment]
      by_cases hmem : '\n' ∈ body
      · rw [afterLine_append_of_mem hmem] at idle
        exact ih idle
      · rw [afterLine_of_notMem hmem]
        exact .spaces .done
  | token _ _ h => exact ((startsToken_cons h).not_idle idle).elim

/-- A part either ends in front of the text behind, or leaves some of it. -/
def Stops (Part : List Char → List Char → Prop) (source more rest : List Char) : Prop :=
  (∃ left, rest = left ++ more ∧ Part source left) ∨ Idle rest

theorem Stops.resolve {Part : List Char → List Char → Prop} (h : Stops Part source more rest)
    (hahead : TokenAhead rest) : ∃ left, rest = left ++ more ∧ Part source left :=
  h.resolve_right hahead.not_idle

theorem StartsToken.tokenAhead (h : StartsToken source) : TokenAhead source :=
  ⟨source, .done, h⟩

theorem exists_append_of_token {token : List Char} (idle : Idle more)
    (htoken : ∀ char ∈ token, StandsForSymbol char) (h : token ++ rest = source ++ more) :
    ∃ left, rest = left ++ more ∧ source = token ++ left := by
  rcases List.append_eq_append_iff.mp h with ⟨left, rfl, rfl⟩ | ⟨beyond, rfl, hmore⟩
  · exact ⟨left, rfl, rfl⟩
  · cases beyond with
    | nil => exact ⟨[], hmore.symm, by simp⟩
    | cons char beyond =>
        have hchar := htoken char (by simp)
        rw [hmore] at idle
        exact ((startsToken_cons hchar).not_idle idle).elim

theorem Spaces.of_append (spaces : Spaces (source ++ more) rest) (idle : Idle more) :
    (∃ left, rest = left ++ more ∧ Spaces source left) ∨ Spaces source [] ∧ Idle rest := by
  generalize htext : source ++ more = text at spaces
  induction spaces generalizing source with
  | done => exact .inl ⟨source, htext.symm, .done⟩
  | @space text rest spaces ih =>
      cases source with
      | nil =>
          rw [List.nil_append] at htext
          rw [htext, idle_space] at idle
          exact .inr ⟨.done, idle.of_layout spaces.layout⟩
      | cons char source =>
          rw [List.cons_append] at htext
          obtain ⟨rfl, htail⟩ := List.cons.inj htext
          rcases ih htail with ⟨left, hleft, hspaces⟩ | ⟨hspaces, hidle⟩
          · exact .inl ⟨left, hleft, .space hspaces⟩
          · exact .inr ⟨.space hspaces, hidle⟩

theorem Comment.of_append (comment : Comment (source ++ more) rest) (idle : Idle more) :
    Stops Comment source more rest := by
  obtain ⟨body, htext, rfl⟩ := comment_iff.mp comment
  cases source with
  | nil =>
      rw [List.nil_append] at htext
      rw [htext, idle_comment] at idle
      exact .inr idle
  | cons char source =>
      rw [List.cons_append] at htext
      obtain ⟨rfl, rfl⟩ := List.cons.inj htext
      by_cases hmem : '\n' ∈ source
      · rw [afterLine_append_of_mem hmem]
        exact .inl ⟨_, rfl, comment_iff.mpr ⟨source, rfl, rfl⟩⟩
      · rw [afterLine_append_of_notMem hmem]
        exact .inr idle.afterLine

theorem LineBreak.of_append (lineBreak : LineBreak (source ++ more) rest) (idle : Idle more) :
    Stops LineBreak source more rest := by
  generalize htext : source ++ more = text at lineBreak
  cases lineBreak with
  | newline =>
      cases source with
      | nil =>
          rw [List.nil_append] at htext
          rw [htext, idle_newline] at idle
          exact .inr idle
      | cons char source =>
          rw [List.cons_append] at htext
          obtain ⟨rfl, rfl⟩ := List.cons.inj htext
          exact .inl ⟨source, rfl, .newline⟩
  | comment comment =>
      rw [← htext] at comment
      rcases comment.of_append idle with ⟨left, hleft, hcomment⟩ | hidle
      · exact .inl ⟨left, hleft, .comment hcomment⟩
      · exact .inr hidle

theorem Layout.of_append (layout : Layout (source ++ more) rest) (idle : Idle more) :
    Stops Layout source more rest := by
  generalize htext : source ++ more = text at layout
  induction layout generalizing source with
  | done => exact .inl ⟨source, htext.symm, .done⟩
  | @space text rest layout ih =>
      cases source with
      | nil =>
          rw [List.nil_append] at htext
          rw [htext, idle_space] at idle
          exact .inr (idle.of_layout layout)
      | cons char source =>
          rw [List.cons_append] at htext
          obtain ⟨rfl, htail⟩ := List.cons.inj htext
          rcases ih htail with ⟨left, hleft, hlayout⟩ | hidle
          · exact .inl ⟨left, hleft, .space hlayout⟩
          · exact .inr hidle
  | comment comment layout ih =>
      rw [← htext] at comment
      rcases comment.of_append idle with ⟨left, rfl, hcomment⟩ | hidle
      · rcases ih rfl with ⟨last, hlast, hlayout⟩ | hidle
        · exact .inl ⟨last, hlast, .comment hcomment hlayout⟩
        · exact .inr hidle
      · exact .inr (hidle.of_layout layout)

theorem CommentLines.of_append (lines : CommentLines (source ++ more) rest) (idle : Idle more) :
    Stops CommentLines source more rest := by
  generalize htext : source ++ more = text at lines
  induction lines generalizing source with
  | done => exact .inl ⟨source, htext.symm, .done⟩
  | line spaces comment lines ih =>
      rw [← htext] at spaces
      rcases spaces.of_append idle with ⟨mark, rfl, hspaces⟩ | ⟨_, hidle⟩
      · rcases comment.of_append idle with ⟨middle, rfl, hcomment⟩ | hidle
        · rcases ih rfl with ⟨left, hleft, hlines⟩ | hidle
          · exact .inl ⟨left, hleft, .line hspaces hcomment hlines⟩
          · exact .inr hidle
        · exact .inr (hidle.of_layout lines.layout)
      · exact .inr (hidle.of_layout (.comment comment lines.layout))

theorem LineEnd.of_append (lineEnd : LineEnd (source ++ more) rest) (idle : Idle more) :
    Stops LineEnd source more rest := by
  cases lineEnd with
  | intro spaces lineBreak lines =>
      rcases spaces.of_append idle with ⟨mark, rfl, hspaces⟩ | ⟨_, hidle⟩
      · rcases lineBreak.of_append idle with ⟨middle, rfl, hbreak⟩ | hidle
        · rcases lines.of_append idle with ⟨left, hleft, hlines⟩ | hidle
          · exact .inl ⟨left, hleft, .intro hspaces hbreak hlines⟩
          · exact .inr hidle
        · exact .inr (hidle.of_layout lines.layout)
      · exact .inr (((idle_iff .done lineBreak).mp hidle).of_layout lines.layout)

theorem LineEnd.idle_rest (lineEnd : LineEnd source rest) (idle : Idle source) : Idle rest := by
  cases lineEnd with
  | intro spaces lineBreak lines =>
      exact ((idle_iff spaces lineBreak).mp idle).of_layout lines.layout

theorem standsForSymbol_of_all {chars : List Char}
    (h : chars.all (fun char => decide (StandsForSymbol char)) = true) {char : Char}
    (hmem : char ∈ chars) : StandsForSymbol char :=
  of_decide_eq_true (List.all_eq_true.mp h char hmem)

/-- A digit, or one of the marks that numbers are written with. -/
def InNumber (char : Char) : Prop :=
  char.isDigit = true ∨ char ∈ ['+', '-', '.', 'e', 'E']

theorem InNumber.standsForSymbol {char : Char} (h : InNumber char) : StandsForSymbol char := by
  rcases h with hdigit | hmark
  · exact standsForSymbol_of_isDigit hdigit
  · exact standsForSymbol_of_all rfl hmark

theorem inNumber_of_mem_sign {sign : Sign} {char : Char} (h : char ∈ sign.chars) :
    InNumber char := by
  cases sign with
  | absent => contradiction
  | plus =>
      obtain rfl := List.mem_singleton.mp h
      exact .inr (by decide)
  | minus =>
      obtain rfl := List.mem_singleton.mp h
      exact .inr (by decide)

theorem inNumber_of_mem_digits {digits : Digits} {char : Char} (h : char ∈ digits.chars) :
    InNumber char :=
  .inl (digits.isDigit char h)

theorem inNumber_of_mem_integer {literal : IntegerLiteral} {char : Char}
    (h : char ∈ literal.chars) : InNumber char := by
  rw [IntegerLiteral.chars, List.mem_append] at h
  exact h.elim inNumber_of_mem_sign inNumber_of_mem_digits

theorem inNumber_of_mem_number {literal : NumberLiteral} {char : Char}
    (h : char ∈ literal.chars) : InNumber char := by
  simp only [NumberLiteral.chars, List.mem_append] at h
  rcases h with ((hsign | hwhole) | hfraction) | hpower
  · exact inNumber_of_mem_sign hsign
  · exact inNumber_of_mem_digits hwhole
  · cases hcase : literal.fraction with
    | none => simp [hcase, NumberLiteral.fractionChars] at hfraction
    | some digits =>
        rw [hcase, NumberLiteral.fractionChars, List.mem_cons] at hfraction
        rcases hfraction with rfl | hdigits
        · exact .inr (by decide)
        · exact inNumber_of_mem_digits hdigits
  · cases hcase : literal.power with
    | none => simp [hcase, NumberLiteral.powerChars] at hpower
    | some power =>
        rw [hcase, NumberLiteral.powerChars, PowerLiteral.chars, List.mem_cons] at hpower
        rcases hpower with rfl | hdigits
        · exact .inr (by cases power.capital <;> decide)
        · exact inNumber_of_mem_integer hdigits

theorem Count.of_append {value : UInt32} (read : Count (source ++ more) value rest)
    (idle : Idle more) : ∃ left, rest = left ++ more ∧ Count source value left := by
  rw [Count] at read
  generalize hsize : (value.toNat : Int) = size at read
  generalize htext : source ++ more = text at read
  cases read with
  | intro literal =>
      obtain ⟨left, rfl, rfl⟩ :=
        exists_append_of_token idle (fun _ hmem => (inNumber_of_mem_integer hmem).standsForSymbol)
          htext.symm
      refine ⟨left, rfl, ?_⟩
      rw [Count, hsize]
      exact .intro literal

theorem Number.of_append {value : Binary64} (read : Number (source ++ more) value rest)
    (idle : Idle more) : ∃ left, rest = left ++ more ∧ Number source value left := by
  generalize htext : source ++ more = text at read
  cases read with
  | intro literal rounds finite =>
      obtain ⟨left, rfl, rfl⟩ :=
        exists_append_of_token idle (fun _ hmem => (inNumber_of_mem_number hmem).standsForSymbol)
          htext.symm
      exact ⟨left, rfl, .intro literal rounds finite⟩

theorem exists_append_of_cons {char : Char} (idle : Idle more) (hchar : StandsForSymbol char)
    (h : char :: rest = source ++ more) :
    ∃ left, rest = left ++ more ∧ source = char :: left := by
  refine @exists_append_of_token source rest more [char] idle (fun other hmem => ?_) h
  rwa [List.mem_singleton.mp hmem]

theorem Run.of_append {word : Word} (run : Run (source ++ more) word rest) (idle : Idle more) :
    (∃ left, rest = left ++ more ∧ Run source word left) ∨ Run source word [] ∧ Idle rest := by
  generalize htext : source ++ more = text at run
  induction run generalizing source with
  | one symbol spaces =>
      obtain ⟨tail, rfl, rfl⟩ := exists_append_of_cons idle symbol htext.symm
      rcases spaces.of_append idle with ⟨left, hleft, hspaces⟩ | ⟨hspaces, hidle⟩
      · exact .inl ⟨left, hleft, .one symbol hspaces⟩
      · exact .inr ⟨.one symbol hspaces, hidle⟩
  | more symbol spaces run ih =>
      obtain ⟨tail, rfl, rfl⟩ := exists_append_of_cons idle symbol htext.symm
      rcases spaces.of_append idle with ⟨next, rfl, hspaces⟩ | ⟨_, hidle⟩
      · rcases ih rfl with ⟨left, hleft, hrun⟩ | ⟨hrun, hidle⟩
        · exact .inl ⟨left, hleft, .more symbol hspaces hrun⟩
        · exact .inr ⟨.more symbol hspaces hrun, hidle⟩
      · exact (run.startsToken.not_idle hidle).elim

theorem Weight.startsToken {value : Binary64} (weighted : Weight source value rest)
    (h : StartsToken rest) : StartsToken source := by
  cases weighted with
  | absent => exact h
  | present _ _ _ _ _ => exact startsToken_cons (by decide)

theorem Weight.of_append {value : Binary64} (weighted : Weight (source ++ more) value rest)
    (idle : Idle more) (h : StartsToken rest) :
    ∃ left, rest = left ++ more ∧ Weight source value left := by
  generalize htext : source ++ more = text at weighted
  cases weighted with
  | absent => exact ⟨source, htext.symm, .absent⟩
  | present opening read closing layout allowed =>
      obtain ⟨inner, rfl, rfl⟩ := exists_append_of_cons idle (by decide) htext.symm
      obtain ⟨number, rfl, hopening⟩ := (opening.of_append idle).resolve read.startsToken.tokenAhead
      obtain ⟨behind, rfl, hread⟩ := read.of_append idle
      have hparen : ∀ tail, StartsToken (')' :: tail) := fun _ => startsToken_cons (by decide)
      obtain ⟨paren, hbehind, hclosing⟩ :=
        (closing.of_append idle).resolve (hparen _).tokenAhead
      obtain ⟨outer, rfl, rfl⟩ := exists_append_of_cons idle (by decide) hbehind
      obtain ⟨left, hleft, hlayout⟩ := (layout.of_append idle).resolve h.tokenAhead
      exact ⟨left, hleft, .present hopening hread hclosing hlayout allowed⟩

theorem Line.of_append {line : Symbol × Production} (read : Line (source ++ more) line rest)
    (idle : Idle more) :
    (∃ left, rest = left ++ more ∧ Line source line left) ∨ Line source line [] ∧ Idle rest := by
  generalize htext : source ++ more = text at read
  cases read with
  | intro opening symbol layout weighted closing written =>
      subst htext
      -- Each part has a token of the line behind it, up to the row of symbols that ends the line.
      obtain ⟨first, hfirst, hopening⟩ :=
        (opening.of_append idle).resolve (startsToken_cons symbol).tokenAhead
      obtain ⟨inner, rfl, rfl⟩ := exists_append_of_cons idle symbol hfirst
      have harrow : ∀ tail, StartsToken ('-' :: '>' :: tail) := fun _ => startsToken_cons (by decide)
      obtain ⟨weight, rfl, hlayout⟩ :=
        (layout.of_append idle).resolve (weighted.startsToken (harrow _)).tokenAhead
      obtain ⟨arrow, hpointed, hweight⟩ := weighted.of_append idle (harrow _)
      obtain ⟨pointed, hpoint, rfl⟩ := exists_append_of_cons idle (by decide) hpointed
      obtain ⟨behind, rfl, rfl⟩ := exists_append_of_cons idle (by decide) hpoint
      obtain ⟨run, rfl, hclosing⟩ :=
        (closing.of_append idle).resolve written.startsToken.tokenAhead
      rcases written.of_append idle with ⟨left, hleft, hrun⟩ | ⟨hrun, hidle⟩
      · exact .inl ⟨left, hleft, .intro hopening symbol hlayout hweight hclosing hrun⟩
      · exact .inr ⟨.intro hopening symbol hlayout hweight hclosing hrun, hidle⟩

theorem Lines.of_append {lines : List (Symbol × Production)} (read : Lines (source ++ more) lines)
    (idle : Idle more) : Lines source lines := by
  generalize htext : source ++ more = text at read
  induction read generalizing source with
  | last read hidle =>
      subst htext
      rcases read.of_append idle with ⟨left, rfl, hline⟩ | ⟨hline, _⟩
      · exact .last hline hidle.of_append
      · exact .last hline (.spaces .done)
  | more read lineEnd lines ih =>
      subst htext
      rcases read.of_append idle with ⟨behind, rfl, hline⟩ | ⟨_, hidle⟩
      · obtain ⟨next, rfl, hend⟩ := (lineEnd.of_append idle).resolve lines.tokenAhead
        exact .more hline hend (ih rfl)
      · exact (lines.tokenAhead.not_idle (lineEnd.idle_rest hidle)).elim

theorem Lines.append {lines : List (Symbol × Production)} (read : Lines source lines)
    (idle : Idle more) : Lines (source ++ more) lines := by
  induction read with
  | last read hidle => exact .last (read.takes.append more) (hidle.append idle)
  | more read lineEnd lines ih =>
      exact .more (read.takes.append more) ((lineEnd.takes lines.tokenAhead.ne_nil).append more) ih

theorem Field.of_append {α : Type} {keyword : List Char} {Value : List Char → α → List Char → Prop}
    {value : α} (field : Field keyword Value (source ++ more) value rest) (idle : Idle more)
    (hkeyword : StartsToken keyword) (hchars : ∀ {char}, char ∈ keyword → StandsForSymbol char)
    (hvalue : ∀ {source rest}, Value (source ++ more) value rest →
      (∃ left, rest = left ++ more ∧ Value source value left) ∨ Idle rest)
    (hstart : ∀ {source rest}, Value source value rest → StartsToken source)
    (h : TokenAhead rest) :
    ∃ left, rest = left ++ more ∧ Field keyword Value source value left := by
  cases field with
  | intro opening layout read lineEnd =>
      obtain ⟨first, hfirst, hopening⟩ :=
        (opening.of_append idle).resolve (hkeyword.append _).tokenAhead
      obtain ⟨inner, rfl, rfl⟩ := exists_append_of_token idle (fun _ => hchars) hfirst
      obtain ⟨written, rfl, hlayout⟩ := (layout.of_append idle).resolve (hstart read).tokenAhead
      rcases hvalue read with ⟨behind, rfl, hread⟩ | hidle
      · obtain ⟨left, hleft, hend⟩ := (lineEnd.of_append idle).resolve h
        exact ⟨left, hleft, .intro hopening hlayout hread hend⟩
      · exact (h.not_idle (lineEnd.idle_rest hidle)).elim

theorem Document.append {model : Model} (document : Document source model) (idle : Idle more) :
    Document (source ++ more) model := by
  obtain ⟨generations, angle, scale, seed, lines, table⟩ := document
  have hangle := (angle.tokenAhead (startsToken_cons (by decide))).ne_nil
  have hscale := (scale.tokenAhead (startsToken_cons (by decide))).ne_nil
  have hseed := (seed.tokenAhead (startsToken_cons (by decide))).ne_nil
  exact .intro ((generations.takes (by decide) Count.takes Integer.startsToken hangle).append more)
    ((angle.takes (by decide) Number.takes Number.startsToken hscale).append more)
    ((scale.takes (by decide) Number.takes Number.startsToken hseed).append more)
    ((seed.takes (by decide) Run.takes Run.startsToken lines.tokenAhead.ne_nil).append more)
    (lines.append idle) table

theorem Document.of_append {model : Model} (document : Document (source ++ more) model)
    (idle : Idle more) : Document source model := by
  obtain ⟨generations, angle, scale, seed, lines, table⟩ := document
  obtain ⟨second, rfl, hgenerations⟩ := generations.of_append idle (startsToken_cons (by decide))
    (standsForSymbol_of_all rfl) (fun read => .inl (read.of_append idle)) Integer.startsToken
    (angle.tokenAhead (startsToken_cons (by decide)))
  obtain ⟨third, rfl, hangle⟩ := angle.of_append idle (startsToken_cons (by decide))
    (standsForSymbol_of_all rfl) (fun read => .inl (read.of_append idle)) Number.startsToken
    (scale.tokenAhead (startsToken_cons (by decide)))
  obtain ⟨fourth, rfl, hscale⟩ := scale.of_append idle (startsToken_cons (by decide))
    (standsForSymbol_of_all rfl) (fun read => .inl (read.of_append idle)) Number.startsToken
    (seed.tokenAhead (startsToken_cons (by decide)))
  obtain ⟨last, rfl, hseed⟩ := seed.of_append idle (startsToken_cons (by decide))
    (standsForSymbol_of_all rfl) (fun run => (run.of_append idle).imp_right And.right) Run.startsToken
    lines.tokenAhead
  exact .intro hgenerations hangle hscale hseed (lines.of_append idle) table

theorem document_append_iff {model : Model} (idle : Idle more) :
    Document (source ++ more) model ↔ Document source model :=
  ⟨fun document => document.of_append idle, fun document => document.append idle⟩

end Grammar

end Lindenmayer
