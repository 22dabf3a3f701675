import Lindenmayer.Proofs.Grammar.Trailing
import Lindenmayer.Proofs.Insertion.Literal
import Lindenmayer.Proofs.Parsing

/-! What is added behind a line belongs to its end, what is added in front to the layout there. -/

namespace Lindenmayer

open Grammar

/-- What is added to one line. -/
structure Margin where
  indent : Nat
  gap : Nat
  /-- What is written behind a number sign at the very end. -/
  comment : Option (List Char)
  inLine : ∀ body ∈ comment, '\n' ∉ body

namespace Margin

def commentChars : Option (List Char) → List Char
  | none => []
  | some body => '#' :: body

def note (margin : Margin) : List Char :=
  List.replicate margin.gap ' ' ++ commentChars margin.comment

def front (margin : Margin) : List Char :=
  List.replicate margin.indent ' '

end Margin

/-- Annotates what is left of a text, from inside of a line on; lines are counted. -/
def annotateFrom (margins : Nat → Margin) (line : Nat) : List Char → List Char
  | [] => (margins line).note
  | char :: rest =>
      if char = '\n' then
        (margins line).note ++
          '\n' :: ((margins (line + 1)).front ++ annotateFrom margins (line + 1) rest)
      else char :: annotateFrom margins line rest

def annotate (margins : Nat → Margin) (text : String) : String :=
  .ofList ((margins 0).front ++ annotateFrom margins 0 text.toList)

namespace Grammar

/-- Spaces, and perhaps a comment up to the end of the line. -/
inductive IsNote : List Char → Prop
  | spaces (count : Nat) : IsNote (List.replicate count ' ')
  | comment (count : Nat) {body : List Char} (h : '\n' ∉ body) :
      IsNote (List.replicate count ' ' ++ '#' :: body)

/-- A text, from inside of a line on, and the same with a note at the end of each line and spaces in
front of each further one. -/
inductive Annotates : List Char → List Char → Prop
  | last {note : List Char} (h : IsNote note) : Annotates [] note
  | char {char : Char} {source target : List Char} (h : char ≠ '\n')
      (annotates : Annotates source target) : Annotates (char :: source) (char :: target)
  | line {note source target : List Char} (h : IsNote note) (indent : Nat)
      (annotates : Annotates source target) :
      Annotates ('\n' :: source) (note ++ '\n' :: (List.replicate indent ' ' ++ target))

/-- The same from the front of a line on, where there may be further spaces. -/
def AnnotatesLine (source target : List Char) : Prop :=
  ∃ behind, Spaces target behind ∧ Annotates source behind

theorem IsNote.newline_notMem {note : List Char} (h : IsNote note) : '\n' ∉ note := by
  cases h with
  | spaces count => simp
  | comment count hbody => simp [hbody]

theorem IsNote.idle {note : List Char} (h : IsNote note) : Idle note := by
  cases h with
  | spaces count =>
      have spaces := spaces_replicate count []
      rw [List.append_nil] at spaces
      exact .spaces spaces
  | comment count hbody =>
      exact .line (spaces_replicate count _) (.comment (.last hbody)) (.spaces .done)

theorem IsNote.lineBreak {note : List Char} (h : IsNote note) (rest : List Char) :
    ∃ mark, Spaces (note ++ '\n' :: rest) mark ∧ LineBreak mark rest := by
  cases h with
  | spaces count => exact ⟨_, spaces_replicate count _, .newline⟩
  | comment count hbody =>
      rw [List.append_assoc]
      exact ⟨_, spaces_replicate count _, .comment (.closed hbody)⟩

section

variable {source target rest : List Char}

theorem Annotates.line_front (annotates : Annotates source target) : AnnotatesLine source target :=
  ⟨target, .done, annotates⟩

theorem Annotates.of_nil (annotates : Annotates [] target) : IsNote target := by
  cases annotates with
  | last h => exact h

theorem Annotates.of_newline (annotates : Annotates ('\n' :: source) target) :
    ∃ note behind, IsNote note ∧ target = note ++ '\n' :: behind ∧
      AnnotatesLine source behind := by
  cases annotates with
  | char h _ => exact absurd rfl h
  | line h indent annotates =>
      exact ⟨_, _, h, rfl, _, spaces_replicate indent _, annotates⟩

theorem Annotates.of_cons {char : Char} (annotates : Annotates (char :: source) target)
    (h : char ≠ '\n') : ∃ behind, target = char :: behind ∧ Annotates source behind := by
  cases annotates with
  | char _ annotates => exact ⟨_, rfl, annotates⟩
  | line _ _ _ => exact absurd rfl h

theorem Annotates.of_append {chars : List Char} (annotates : Annotates (chars ++ source) target)
    (h : '\n' ∉ chars) : ∃ behind, target = chars ++ behind ∧ Annotates source behind := by
  induction chars generalizing target with
  | nil => exact ⟨target, rfl, annotates⟩
  | cons char chars ih =>
      rw [List.mem_cons, not_or] at h
      obtain ⟨behind, rfl, beyond⟩ := annotates.of_cons (Ne.symm h.1)
      obtain ⟨last, rfl, final⟩ := ih beyond h.2
      exact ⟨last, rfl, final⟩

theorem AnnotatesLine.of_spaces (annotates : AnnotatesLine source target)
    (spaces : Spaces source rest) :
    ∃ behind, Spaces target behind ∧ Annotates rest behind := by
  induction spaces generalizing target with
  | done => exact annotates
  | space _ ih =>
      obtain ⟨behind, hspaces, annotates⟩ := annotates
      obtain ⟨behind, rfl, beyond⟩ := annotates.of_cons (by decide)
      obtain ⟨last, hlast, annotates⟩ := ih beyond.line_front
      exact ⟨last, hspaces.trans (.space hlast), annotates⟩

theorem Annotates.of_comment (annotates : Annotates source target) (comment : Comment source rest) :
    ∃ behind, Comment target behind ∧ AnnotatesLine rest behind := by
  cases comment with
  | @closed body rest h =>
      have hcomment : '\n' ∉ '#' :: body := by simp [h]
      obtain ⟨behind, rfl, beyond⟩ := annotates.of_append hcomment
      obtain ⟨note, last, hnote, rfl, final⟩ := beyond.of_newline
      refine ⟨last, ?_, final⟩
      rw [← List.append_assoc]
      refine .closed ?_
      simp [h, hnote.newline_notMem]
  | @last body h =>
      have hcomment : '\n' ∉ '#' :: body := by simp [h]
      rw [← List.append_nil ('#' :: body)] at annotates
      obtain ⟨note, rfl, beyond⟩ := annotates.of_append hcomment
      refine ⟨[], .last ?_, [], .done, .last (.spaces 0)⟩
      simp [h, beyond.of_nil.newline_notMem]

theorem AnnotatesLine.of_layout (annotates : AnnotatesLine source target)
    (layout : Layout source rest) :
    ∃ behind, Layout target behind ∧ Annotates rest behind := by
  induction layout generalizing target with
  | done =>
      obtain ⟨behind, hspaces, annotates⟩ := annotates
      exact ⟨behind, hspaces.layout, annotates⟩
  | space _ ih =>
      obtain ⟨behind, hspaces, annotates⟩ := annotates
      obtain ⟨behind, rfl, beyond⟩ := annotates.of_cons (by decide)
      obtain ⟨last, hlast, annotates⟩ := ih beyond.line_front
      exact ⟨last, hspaces.layout.trans (.space hlast), annotates⟩
  | comment comment _ ih =>
      obtain ⟨behind, hspaces, annotates⟩ := annotates
      obtain ⟨behind, hcomment, annotates⟩ := annotates.of_comment comment
      obtain ⟨last, hlast, annotates⟩ := ih annotates
      exact ⟨last, hspaces.layout.trans (.comment hcomment hlast), annotates⟩

theorem Annotates.of_lineBreak (annotates : Annotates source target)
    (lineBreak : LineBreak source rest) :
    ∃ mark behind, Spaces target mark ∧ LineBreak mark behind ∧ AnnotatesLine rest behind := by
  cases lineBreak with
  | newline =>
      obtain ⟨note, behind, hnote, rfl, beyond⟩ := annotates.of_newline
      obtain ⟨mark, hspaces, hbreak⟩ := hnote.lineBreak behind
      exact ⟨mark, behind, hspaces, hbreak, beyond⟩
  | comment comment =>
      obtain ⟨behind, hcomment, annotates⟩ := annotates.of_comment comment
      exact ⟨target, behind, .done, .comment hcomment, annotates⟩

theorem AnnotatesLine.of_commentLines (annotates : AnnotatesLine source target)
    (lines : CommentLines source rest) :
    ∃ behind, CommentLines target behind ∧ AnnotatesLine rest behind := by
  induction lines generalizing target with
  | done => exact ⟨target, .done, annotates⟩
  | line spaces comment _ ih =>
      obtain ⟨mark, hspaces, annotates⟩ := annotates.of_spaces spaces
      obtain ⟨behind, hcomment, annotates⟩ := annotates.of_comment comment
      obtain ⟨last, hlines, annotates⟩ := ih annotates
      exact ⟨last, .line hspaces hcomment hlines, annotates⟩

theorem Annotates.of_lineEnd (annotates : Annotates source target)
    (lineEnd : LineEnd source rest) :
    ∃ behind, LineEnd target behind ∧ AnnotatesLine rest behind := by
  cases lineEnd with
  | intro spaces lineBreak lines =>
      obtain ⟨behind, hspaces, annotates⟩ := annotates.line_front.of_spaces spaces
      obtain ⟨mark, behind, hmark, hbreak, annotates⟩ := annotates.of_lineBreak lineBreak
      obtain ⟨last, hlines, annotates⟩ := annotates.of_commentLines lines
      exact ⟨last, .intro (hspaces.trans hmark) hbreak hlines, annotates⟩

theorem AnnotatesLine.of_idle (annotates : AnnotatesLine source target) (idle : Idle source) :
    Idle target := by
  induction idle generalizing target with
  | spaces spaces =>
      obtain ⟨behind, hspaces, annotates⟩ := annotates.of_spaces spaces
      exact hspaces.layout.idle annotates.of_nil.idle
  | line spaces lineBreak _ ih =>
      obtain ⟨behind, hspaces, annotates⟩ := annotates.of_spaces spaces
      obtain ⟨mark, behind, hmark, hbreak, annotates⟩ := annotates.of_lineBreak lineBreak
      exact .line (hspaces.trans hmark) hbreak (ih annotates)

end

/-- The part is still there with the same value when notes are added behind it. -/
def KeepsNotes {α : Type} (Part : List Char → α → List Char → Prop) : Prop :=
  ∀ {source rest target : List Char} {value : α}, Part source value rest →
    Annotates source target → ∃ behind, Part target value behind ∧ Annotates rest behind

theorem keepsNotes_count : KeepsNotes Count := by
  intro source rest target value read annotates
  rw [Count] at read
  generalize hsize : (value.toNat : Int) = size at read
  cases read with
  | intro literal =>
      obtain ⟨behind, rfl, beyond⟩ := annotates.of_append literal.newline_notMem
      refine ⟨behind, ?_, beyond⟩
      rw [Count, hsize]
      exact .intro literal

theorem keepsNotes_number : KeepsNotes Number := by
  intro source rest target value read annotates
  cases read with
  | intro literal rounds finite =>
      obtain ⟨behind, rfl, beyond⟩ := annotates.of_append literal.newline_notMem
      exact ⟨behind, .intro literal rounds finite, beyond⟩

theorem keepsNotes_run : KeepsNotes Run := by
  intro source rest target value run annotates
  induction run generalizing target with
  | one symbol spaces =>
      obtain ⟨behind, rfl, beyond⟩ := annotates.of_cons symbol.2.1
      obtain ⟨last, hspaces, annotates⟩ := beyond.line_front.of_spaces spaces
      exact ⟨last, .one symbol hspaces, annotates⟩
  | more symbol spaces _ ih =>
      obtain ⟨behind, rfl, beyond⟩ := annotates.of_cons symbol.2.1
      obtain ⟨next, hspaces, annotates⟩ := beyond.line_front.of_spaces spaces
      obtain ⟨last, hrun, annotates⟩ := ih annotates
      exact ⟨last, .more symbol hspaces hrun, annotates⟩

theorem keepsNotes_weight : KeepsNotes Weight := by
  intro source rest target value weighted annotates
  cases weighted with
  | absent => exact ⟨target, .absent, annotates⟩
  | present opening read closing layout allowed =>
      obtain ⟨behind, rfl, beyond⟩ := annotates.of_cons (by decide)
      obtain ⟨number, hopening, annotates⟩ := beyond.line_front.of_layout opening
      obtain ⟨behind, hread, annotates⟩ := keepsNotes_number read annotates
      obtain ⟨closed, hclosing, annotates⟩ := annotates.line_front.of_layout closing
      obtain ⟨outer, rfl, beyond⟩ := annotates.of_cons (by decide)
      obtain ⟨last, hlayout, annotates⟩ := beyond.line_front.of_layout layout
      exact ⟨last, .present hopening hread hclosing hlayout allowed, annotates⟩

section

variable {source target rest : List Char}

theorem AnnotatesLine.of_line {line : Symbol × Production} (annotates : AnnotatesLine source target)
    (read : Line source line rest) :
    ∃ behind, Line target line behind ∧ Annotates rest behind := by
  cases read with
  | intro opening symbol layout weighted closing written =>
      obtain ⟨first, hopening, annotates⟩ := annotates.of_layout opening
      obtain ⟨inner, rfl, beyond⟩ := annotates.of_cons symbol.2.1
      obtain ⟨weight, hlayout, annotates⟩ := beyond.line_front.of_layout layout
      obtain ⟨arrow, hweight, annotates⟩ := keepsNotes_weight weighted annotates
      obtain ⟨behind, rfl, beyond⟩ := @Annotates.of_append _ _ ['-', '>'] annotates (by decide)
      obtain ⟨run, hclosing, annotates⟩ := beyond.line_front.of_layout closing
      obtain ⟨last, hwritten, annotates⟩ := keepsNotes_run written annotates
      exact ⟨last, .intro hopening symbol hlayout hweight hclosing hwritten, annotates⟩

theorem AnnotatesLine.of_lines {lines : List (Symbol × Production)}
    (annotates : AnnotatesLine source target) (read : Lines source lines) : Lines target lines := by
  induction read generalizing target with
  | last read idle =>
      obtain ⟨behind, hread, annotates⟩ := annotates.of_line read
      exact .last hread (annotates.line_front.of_idle idle)
  | more read lineEnd _ ih =>
      obtain ⟨behind, hread, annotates⟩ := annotates.of_line read
      obtain ⟨next, hend, annotates⟩ := annotates.of_lineEnd lineEnd
      exact .more hread hend (ih annotates)

theorem AnnotatesLine.of_field {α : Type} {keyword : List Char}
    {Value : List Char → α → List Char → Prop} {value : α}
    (annotates : AnnotatesLine source target) (field : Field keyword Value source value rest)
    (hkeyword : '\n' ∉ keyword) (hvalue : KeepsNotes Value) :
    ∃ behind, Field keyword Value target value behind ∧ AnnotatesLine rest behind := by
  cases field with
  | intro opening layout read lineEnd =>
      obtain ⟨keyed, hopening, annotates⟩ := annotates.of_layout opening
      obtain ⟨inner, rfl, beyond⟩ := annotates.of_append hkeyword
      obtain ⟨written, hlayout, annotates⟩ := beyond.line_front.of_layout layout
      obtain ⟨behind, hread, annotates⟩ := hvalue read annotates
      obtain ⟨last, hend, annotates⟩ := annotates.of_lineEnd lineEnd
      exact ⟨last, .intro hopening hlayout hread hend, annotates⟩

theorem AnnotatesLine.of_document {model : Model} (annotates : AnnotatesLine source target)
    (document : Document source model) : Document target model := by
  obtain ⟨generations, angle, scale, seed, lines, table⟩ := document
  obtain ⟨second, hgenerations, annotates⟩ :=
    annotates.of_field generations (by decide) keepsNotes_count
  obtain ⟨third, hangle, annotates⟩ := annotates.of_field angle (by decide) keepsNotes_number
  obtain ⟨fourth, hscale, annotates⟩ := annotates.of_field scale (by decide) keepsNotes_number
  obtain ⟨last, hseed, annotates⟩ := annotates.of_field seed (by decide) keepsNotes_run
  exact .intro hgenerations hangle hscale hseed (annotates.of_lines lines) table

end

end Grammar

theorem Margin.isNote_note (margin : Margin) : IsNote margin.note := by
  obtain ⟨indent, gap, comment, inLine⟩ := margin
  cases comment with
  | none =>
      rw [note, commentChars, List.append_nil]
      exact .spaces gap
  | some body => exact .comment gap (inLine body rfl)

theorem annotates_annotateFrom (margins : Nat → Margin) (line : Nat) (source : List Char) :
    Annotates source (annotateFrom margins line source) := by
  induction source generalizing line with
  | nil => exact .last (margins line).isNote_note
  | cons char source ih =>
      rw [annotateFrom]
      by_cases hchar : char = '\n'
      · subst hchar
        rw [if_pos rfl]
        exact .line (margins line).isNote_note _ (ih (line + 1))
      · rw [if_neg hchar]
        exact .char hchar (ih line)

theorem annotatesLine_annotate (margins : Nat → Margin) (text : String) :
    AnnotatesLine text.toList (annotate margins text).toList := by
  rw [annotate, String.toList_ofList]
  exact ⟨_, spaces_replicate _ _, annotates_annotateFrom margins 0 text.toList⟩

namespace Model

/-- Whatever spaces are added in front of the lines of a description, and whatever spaces and
comments behind them, it describes the same model. -/
theorem parse_annotate {text : String} {model : Model} (margins : Nat → Margin)
    (h : parse text = .ok model) : parse (annotate margins text) = .ok model :=
  parse_of_document ((annotatesLine_annotate margins text).of_document (document_of_parse h))

/-- A note behind a field, in a comment, behind a production, and on the blank lines at the end. -/
theorem parse_annotate_every_line :
    ∃ model, parse "generations:1\nangle:0\nscale:#\n1\naxiom:F\nF->f\n\n" = .ok model ∧
      parse ("generations:1 #n\n angle:0 #n\n  scale:# #n\n   1 #n\n    axiom:F #n\n" ++
        "     F->f #n\n       #n\n        #n") = .ok model := by
  have hparse : parse "generations:1\nangle:0\nscale:#\n1\naxiom:F\nF->f\n\n" =
      .ok ⟨1, .zero false, .one, [.moveForward],
        .ofList [(.moveForward, ⟨.one, [.jumpForward]⟩)]⟩ := by decide +kernel
  have hannotate : annotate (fun line => ⟨line, 1, some ['n'], by simp⟩)
      "generations:1\nangle:0\nscale:#\n1\naxiom:F\nF->f\n\n" =
        "generations:1 #n\n angle:0 #n\n  scale:# #n\n   1 #n\n    axiom:F #n\n" ++
          "     F->f #n\n       #n\n        #n" := by decide +kernel
  exact ⟨_, hparse, hannotate ▸ parse_annotate _ hparse⟩

end Model

end Lindenmayer
