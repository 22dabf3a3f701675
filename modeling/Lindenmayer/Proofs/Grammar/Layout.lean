import Mathlib.Data.List.TakeWhile

/-! The relations leave open how much a part takes. -/

namespace Lindenmayer

namespace Grammar

inductive Spaces : List Char → List Char → Prop
  | done {rest : List Char} : Spaces rest rest
  | space {source rest : List Char} (spaces : Spaces source rest) : Spaces (' ' :: source) rest

/-- From a number sign through the end of the line, or of the text. -/
inductive Comment : List Char → List Char → Prop
  | closed {body rest : List Char} (h : '\n' ∉ body) :
      Comment ('#' :: body ++ '\n' :: rest) rest
  | last {body : List Char} (h : '\n' ∉ body) : Comment ('#' :: body) []

inductive LineBreak : List Char → List Char → Prop
  | newline {rest : List Char} : LineBreak ('\n' :: rest) rest
  | comment {source rest : List Char} (comment : Comment source rest) : LineBreak source rest

/-- What may stand between two tokens. -/
inductive Layout : List Char → List Char → Prop
  | done {rest : List Char} : Layout rest rest
  | space {source rest : List Char} (layout : Layout source rest) : Layout (' ' :: source) rest
  | comment {source middle rest : List Char} (comment : Comment source middle)
      (layout : Layout middle rest) : Layout source rest

inductive CommentLines : List Char → List Char → Prop
  | done {rest : List Char} : CommentLines rest rest
  | line {source mark middle rest : List Char} (spaces : Spaces source mark)
      (comment : Comment mark middle) (lines : CommentLines middle rest) :
      CommentLines source rest

/-- The end of a line with the comment lines behind it. -/
inductive LineEnd : List Char → List Char → Prop
  | intro {source mark middle rest : List Char} (spaces : Spaces source mark)
      (lineBreak : LineBreak mark middle) (lines : CommentLines middle rest) : LineEnd source rest

/-- A text of blank lines and comment lines, and of spaces at its end. -/
inductive Idle : List Char → Prop
  | spaces {source : List Char} (spaces : Spaces source []) : Idle source
  | line {source mark middle : List Char} (spaces : Spaces source mark)
      (lineBreak : LineBreak mark middle) (idle : Idle middle) : Idle source

def IsStuck (source : List Char) : Prop :=
  source.head? ≠ some ' ' ∧ source.head? ≠ some '#'

theorem isStuck_cons {char : Char} {rest : List Char} :
    IsStuck (char :: rest) ↔ char ≠ ' ' ∧ char ≠ '#' := by
  simp [IsStuck]

/-- What is left of a text behind its next line end. -/
def afterLine (chars : List Char) : List Char :=
  (chars.dropWhile (· ≠ '\n')).tail

theorem ne_newline_of_mem {body : List Char} (h : '\n' ∉ body) {char : Char}
    (hmem : char ∈ body) : decide (char ≠ '\n') = true := by
  apply decide_eq_true
  rintro rfl
  exact h hmem

theorem afterLine_append {body rest : List Char} (h : '\n' ∉ body) :
    afterLine (body ++ '\n' :: rest) = rest := by
  rw [afterLine, List.dropWhile_append_of_pos (fun _ hmem => ne_newline_of_mem h hmem)]
  rfl

theorem afterLine_of_notMem {body : List Char} (h : '\n' ∉ body) : afterLine body = [] := by
  rw [afterLine, List.dropWhile_eq_nil_iff.mpr (fun _ hmem => ne_newline_of_mem h hmem)]
  rfl

theorem comment_iff {source rest : List Char} :
    Comment source rest ↔ ∃ body, source = '#' :: body ∧ rest = afterLine body := by
  constructor
  · intro comment
    cases comment with
    | @closed body rest h => exact ⟨body ++ '\n' :: rest, rfl, (afterLine_append h).symm⟩
    | @last body h => exact ⟨body, rfl, (afterLine_of_notMem h).symm⟩
  · rintro ⟨body, rfl, rfl⟩
    by_cases hmem : '\n' ∈ body
    · obtain ⟨line, rest, rfl, hline⟩ := List.eq_append_cons_of_mem hmem
      rw [afterLine_append hline]
      exact .closed hline
    · rw [afterLine_of_notMem hmem]
      exact .last hmem

theorem Comment.rest_eq {body rest : List Char} (comment : Comment ('#' :: body) rest) :
    rest = afterLine body := by
  obtain ⟨other, hsource, hrest⟩ := comment_iff.mp comment
  rw [hrest, (List.cons.inj hsource).2]

theorem Comment.unique {source rest other : List Char} (comment : Comment source rest)
    (hother : Comment source other) : rest = other := by
  obtain ⟨body, rfl, rfl⟩ := comment_iff.mp comment
  exact hother.rest_eq.symm

theorem Comment.head_eq {char : Char} {source rest : List Char}
    (comment : Comment (char :: source) rest) : char = '#' := by
  obtain ⟨body, hsource, _⟩ := comment_iff.mp comment
  exact (List.cons.inj hsource).1

theorem LineBreak.unique {source rest other : List Char} (lineBreak : LineBreak source rest)
    (hother : LineBreak source other) : rest = other := by
  cases lineBreak with
  | newline =>
      cases hother with
      | newline => rfl
      | comment comment => exact absurd comment.head_eq (by decide)
  | comment comment =>
      cases hother with
      | newline => exact absurd comment.head_eq (by decide)
      | comment hother => exact comment.unique hother

theorem LineBreak.not_space {source rest : List Char}
    (lineBreak : LineBreak (' ' :: source) rest) : False := by
  cases lineBreak with
  | comment comment => exact absurd comment.head_eq (by decide)

theorem spaces_dropWhile (source : List Char) : Spaces source (source.dropWhile (· = ' ')) := by
  induction source with
  | nil => exact .done
  | cons char source ih =>
      by_cases hspace : char = ' '
      · subst hspace
        simpa using .space ih
      · simpa [hspace] using .done

theorem spaces_replicate (count : Nat) (rest : List Char) :
    Spaces (List.replicate count ' ' ++ rest) rest := by
  induction count with
  | zero => exact .done
  | succ count ih => exact .space ih

theorem Spaces.trans {source middle rest : List Char} (hleft : Spaces source middle)
    (hright : Spaces middle rest) : Spaces source rest := by
  induction hleft with
  | done => exact hright
  | space _ ih => exact .space (ih hright)

theorem Spaces.dropWhile_eq {source rest : List Char} (spaces : Spaces source rest) :
    source.dropWhile (· = ' ') = rest.dropWhile (· = ' ') := by
  induction spaces with
  | done => rfl
  | space _ ih => simpa using ih

theorem Spaces.eq_of_cons {char : Char} {source rest : List Char}
    (spaces : Spaces (char :: source) rest) (h : char ≠ ' ') : rest = char :: source := by
  cases spaces with
  | done => rfl
  | space _ => exact absurd rfl h

theorem Spaces.layout {source rest : List Char} (spaces : Spaces source rest) :
    Layout source rest := by
  induction spaces with
  | done => exact .done
  | space _ ih => exact .space ih

theorem Layout.trans {source middle rest : List Char} (hleft : Layout source middle)
    (hright : Layout middle rest) : Layout source rest := by
  induction hleft with
  | done => exact hright
  | space _ ih => exact .space (ih hright)
  | comment comment _ ih => exact .comment comment (ih hright)

/-- Wherever layout is broken off, it can still be carried on to the place where it gets stuck. -/
theorem Layout.resume {source middle rest : List Char} (hmiddle : Layout source middle)
    (hrest : Layout source rest) (hstuck : IsStuck rest) : Layout middle rest := by
  induction hmiddle with
  | done => exact hrest
  | space _ ih =>
      cases hrest with
      | done => exact absurd rfl hstuck.1
      | space layout => exact ih layout
      | comment comment _ => exact absurd comment.head_eq (by decide)
  | comment comment _ ih =>
      cases hrest with
      | done =>
          obtain ⟨body, rfl, _⟩ := comment_iff.mp comment
          exact absurd rfl hstuck.2
      | space _ => exact absurd comment.head_eq (by decide)
      | comment hother layout =>
          rw [← comment.unique hother] at layout
          exact ih layout

theorem Layout.unique {source rest other : List Char} (hrest : Layout source rest)
    (hother : Layout source other) (hstuck : IsStuck rest) (hstuckOther : IsStuck other) :
    rest = other := by
  cases hrest.resume hother hstuckOther with
  | done => rfl
  | space _ => exact absurd rfl hstuck.1
  | comment comment _ =>
      obtain ⟨body, rfl, _⟩ := comment_iff.mp comment
      exact absurd rfl hstuck.2

theorem CommentLines.layout {source rest : List Char} (lines : CommentLines source rest) :
    Layout source rest := by
  induction lines with
  | done => exact .done
  | line spaces comment _ ih => exact spaces.layout.trans (.comment comment ih)

/-! Where a text is idle, layout does not lead out of it; so a token never follows. -/

theorem Idle.of_layout {source rest : List Char} (idle : Idle source)
    (layout : Layout source rest) : Idle rest := by
  induction layout with
  | done => exact idle
  | @space source rest _ ih =>
      apply ih
      cases idle with
      | spaces spaces =>
          cases spaces with
          | space spaces => exact .spaces spaces
      | line spaces lineBreak idle =>
          cases spaces with
          | done => exact lineBreak.not_space.elim
          | space spaces => exact .line spaces lineBreak idle
  | comment comment _ ih =>
      apply ih
      obtain ⟨body, rfl, _⟩ := comment_iff.mp comment
      cases idle with
      | spaces spaces => cases spaces
      | line spaces lineBreak idle =>
          rw [spaces.eq_of_cons (by decide)] at lineBreak
          rw [(LineBreak.comment comment).unique lineBreak]
          exact idle

def StandsForSymbol (char : Char) : Prop :=
  char ≠ ' ' ∧ char ≠ '\n' ∧ char ≠ '#'

instance (char : Char) : Decidable (StandsForSymbol char) :=
  inferInstanceAs (Decidable (_ ∧ _))

/-- A character that neither layout nor a line end begins with. -/
def StartsToken (source : List Char) : Prop :=
  ∃ char rest, source = char :: rest ∧ StandsForSymbol char

theorem startsToken_cons {char : Char} {rest : List Char} (h : StandsForSymbol char) :
    StartsToken (char :: rest) :=
  ⟨char, rest, rfl, h⟩

theorem StartsToken.append {source : List Char} (h : StartsToken source) (rest : List Char) :
    StartsToken (source ++ rest) := by
  obtain ⟨char, tail, rfl, hchar⟩ := h
  exact startsToken_cons hchar

theorem StartsToken.isStuck {source : List Char} (h : StartsToken source) : IsStuck source := by
  obtain ⟨char, rest, rfl, hspace, _, hmark⟩ := h
  exact isStuck_cons.mpr ⟨hspace, hmark⟩

theorem StartsToken.not_idle {source : List Char} (h : StartsToken source) : ¬Idle source := by
  obtain ⟨char, rest, rfl, hspace, hnewline, hmark⟩ := h
  intro idle
  cases idle with
  | spaces spaces => exact absurd (spaces.eq_of_cons hspace) (by simp)
  | line spaces lineBreak _ =>
      rw [spaces.eq_of_cons hspace] at lineBreak
      cases lineBreak with
      | newline => exact hnewline rfl
      | comment comment => exact hmark comment.head_eq

/-- The text goes on with a token, perhaps behind layout. -/
def TokenAhead (source : List Char) : Prop :=
  ∃ rest, Layout source rest ∧ StartsToken rest

theorem TokenAhead.not_idle {source : List Char} (h : TokenAhead source) : ¬Idle source := by
  obtain ⟨rest, layout, hrest⟩ := h
  exact fun idle => hrest.not_idle (idle.of_layout layout)

theorem TokenAhead.ne_nil {source : List Char} (h : TokenAhead source) : source ≠ [] := by
  rintro rfl
  exact h.not_idle (.spaces .done)

theorem TokenAhead.of_layout {source rest : List Char} (h : TokenAhead source)
    (layout : Layout source rest) : TokenAhead rest := by
  obtain ⟨tail, hahead, htail⟩ := h
  exact ⟨tail, layout.resume hahead htail.isStuck, htail⟩

theorem Spaces.mark_eq {source mark middle : List Char} (spaces : Spaces source mark)
    (lineBreak : LineBreak mark middle) : source.dropWhile (· = ' ') = mark := by
  rw [spaces.dropWhile_eq]
  cases mark with
  | nil => rfl
  | cons char mark =>
      rw [List.dropWhile_cons_of_neg]
      rintro hspace
      rw [of_decide_eq_true hspace] at lineBreak
      exact lineBreak.not_space

theorem idle_iff {source mark middle : List Char} (spaces : Spaces source mark)
    (lineBreak : LineBreak mark middle) : Idle source ↔ Idle middle := by
  constructor
  · intro idle
    have hmark := spaces.mark_eq lineBreak
    cases idle with
    | spaces hend =>
        rw [hend.dropWhile_eq, List.dropWhile_nil] at hmark
        subst hmark
        cases lineBreak with
        | comment comment => cases comment
    | line hspaces hbreak idle =>
        rw [hspaces.mark_eq hbreak] at hmark
        subst hmark
        rw [lineBreak.unique hbreak]
        exact idle
  · exact .line spaces lineBreak

theorem CommentLines.resume {source middle rest : List Char} (hmiddle : CommentLines source middle)
    (hrest : CommentLines source rest)
    (hlast : ∀ mark after, Spaces rest mark → ¬Comment mark after) : CommentLines middle rest := by
  induction hmiddle with
  | done => exact hrest
  | line spaces comment _ ih =>
      cases hrest with
      | done => exact absurd comment (hlast _ _ spaces)
      | line hspaces hcomment lines =>
          have hmark := (spaces.mark_eq (.comment comment)).symm.trans
            (hspaces.mark_eq (.comment hcomment))
          subst hmark
          rw [← comment.unique hcomment] at lines
          exact ih lines

theorem CommentLines.idle {source rest : List Char} (lines : CommentLines source rest)
    (idle : Idle rest) : Idle source := by
  induction lines with
  | done => exact idle
  | line spaces comment _ ih => exact .line spaces (.comment comment) (ih idle)

theorem Layout.head_eq {char : Char} {source rest : List Char}
    (layout : Layout (char :: source) rest) : rest = char :: source ∨ char = ' ' ∨ char = '#' := by
  cases layout with
  | done => exact .inl rfl
  | space _ => exact .inr (.inl rfl)
  | comment comment _ => exact .inr (.inr comment.head_eq)

theorem LineBreak.head_eq {char : Char} {source rest : List Char}
    (lineBreak : LineBreak (char :: source) rest) : char = '\n' ∨ char = '#' := by
  cases lineBreak with
  | newline => exact .inl rfl
  | comment comment => exact .inr comment.head_eq

theorem LineEnd.head_eq {char : Char} {source rest : List Char}
    (lineEnd : LineEnd (char :: source) rest) : char = ' ' ∨ char = '\n' ∨ char = '#' := by
  cases lineEnd with
  | intro spaces lineBreak _ =>
      cases spaces with
      | done => exact .inr lineBreak.head_eq
      | space _ => exact .inl rfl

theorem LineEnd.dropWhile {source rest : List Char} (lineEnd : LineEnd source rest) :
    LineEnd (source.dropWhile (· = ' ')) rest := by
  cases lineEnd with
  | intro spaces lineBreak lines =>
      rw [spaces.mark_eq lineBreak]
      exact .intro .done lineBreak lines

theorem LineEnd.ne_nil {source rest : List Char} (lineEnd : LineEnd source rest) :
    source ≠ [] := by
  rintro rfl
  cases lineEnd with
  | intro spaces lineBreak _ =>
      cases spaces with
      | done =>
          cases lineBreak with
          | comment comment => cases comment

theorem Idle.exists_lineBreak {source : List Char} (idle : Idle source)
    (h : source.dropWhile (· = ' ') ≠ []) :
    ∃ middle, LineBreak (source.dropWhile (· = ' ')) middle ∧ Idle middle := by
  cases idle with
  | spaces spaces => exact absurd spaces.dropWhile_eq h
  | line spaces lineBreak idle =>
      rw [spaces.mark_eq lineBreak]
      exact ⟨_, lineBreak, idle⟩

/-- Where a row of symbols ends. -/
def EndsRun (rest : List Char) : Prop :=
  rest = [] ∨ ∃ char tail, rest = char :: tail ∧ (char = '\n' ∨ char = '#')

theorem LineBreak.endsRun {source rest : List Char} (lineBreak : LineBreak source rest) :
    EndsRun source := by
  cases source with
  | nil => exact .inl rfl
  | cons char source => exact .inr ⟨char, source, rfl, lineBreak.head_eq⟩

theorem LineEnd.endsRun {source rest : List Char} (lineEnd : LineEnd source rest) :
    EndsRun (source.dropWhile (· = ' ')) := by
  cases lineEnd with
  | intro spaces lineBreak _ =>
      rw [spaces.mark_eq lineBreak]
      exact lineBreak.endsRun

theorem Idle.endsRun {source : List Char} (idle : Idle source) :
    EndsRun (source.dropWhile (· = ' ')) := by
  cases idle with
  | spaces spaces => exact .inl spaces.dropWhile_eq
  | line spaces lineBreak _ =>
      rw [spaces.mark_eq lineBreak]
      exact lineBreak.endsRun

theorem LineEnd.idle {source rest : List Char} (lineEnd : LineEnd source rest)
    (idle : Idle rest) : Idle source := by
  cases lineEnd with
  | intro spaces lineBreak lines => exact .line spaces lineBreak (lines.idle idle)

end Grammar

end Lindenmayer
