import Lindenmayer.Proofs.Grammar.Document

/-! Only a comment may end with the text; so all else takes the same in front of every text. -/

namespace Lindenmayer

namespace Grammar

/-- What is taken in front of one rest can be taken in front of every other. -/
def Takes (Part : List Char → List Char → Prop) (source rest : List Char) : Prop :=
  ∃ taken, source = taken ++ rest ∧ ∀ other, Part (taken ++ other) other

section

variable {source middle rest : List Char}

theorem takes_append {Part : List Char → List Char → Prop} {taken rest : List Char}
    (h : ∀ other, Part (taken ++ other) other) : Takes Part (taken ++ rest) rest :=
  ⟨taken, rfl, h⟩

theorem takes_done {Part : List Char → List Char → Prop} (h : ∀ other, Part other other) :
    Takes Part rest rest :=
  ⟨[], rfl, h⟩

theorem Takes.append {Part : List Char → List Char → Prop} (h : Takes Part source rest)
    (more : List Char) : Part (source ++ more) (rest ++ more) := by
  obtain ⟨taken, rfl, h⟩ := h
  rw [List.append_assoc]
  exact h (rest ++ more)

theorem Spaces.takes (spaces : Spaces source rest) : Takes Spaces source rest := by
  induction spaces with
  | done => exact takes_done fun _ => .done
  | space _ ih =>
      obtain ⟨taken, rfl, h⟩ := ih
      exact ⟨' ' :: taken, rfl, fun other => .space (h other)⟩

theorem Comment.takes (comment : Comment source rest) (h : rest ≠ []) :
    Takes Comment source rest := by
  cases comment with
  | @closed body rest hbody =>
      refine ⟨'#' :: body ++ ['\n'], by simp, fun other => ?_⟩
      rw [List.append_assoc]
      exact .closed hbody
  | last _ => exact absurd rfl h

theorem LineBreak.takes (lineBreak : LineBreak source rest) (h : rest ≠ []) :
    Takes LineBreak source rest := by
  cases lineBreak with
  | newline => exact ⟨['\n'], rfl, fun _ => .newline⟩
  | comment comment =>
      obtain ⟨taken, rfl, h⟩ := comment.takes h
      exact takes_append fun other => .comment (h other)

theorem Comment.ne_nil (comment : Comment source rest) : source ≠ [] := by
  obtain ⟨body, rfl, _⟩ := comment_iff.mp comment
  exact List.cons_ne_nil _ _

theorem Layout.ne_nil (layout : Layout source rest) (h : rest ≠ []) : source ≠ [] := by
  cases layout with
  | done => exact h
  | space _ => exact List.cons_ne_nil _ _
  | comment comment _ => exact comment.ne_nil

theorem StartsToken.ne_nil (h : StartsToken source) : source ≠ [] := by
  obtain ⟨char, rest, rfl, _⟩ := h
  exact List.cons_ne_nil _ _

theorem Weight.ne_nil {value : Binary64} (weighted : Weight source value rest) (h : rest ≠ []) :
    source ≠ [] := by
  cases weighted with
  | absent => exact h
  | present _ _ _ _ _ => exact List.cons_ne_nil _ _

theorem Layout.takes (layout : Layout source rest) (h : rest ≠ []) : Takes Layout source rest := by
  induction layout with
  | done => exact takes_done fun _ => .done
  | space _ ih =>
      obtain ⟨taken, rfl, hlayout⟩ := ih h
      exact ⟨' ' :: taken, rfl, fun other => .space (hlayout other)⟩
  | comment comment layout ih =>
      obtain ⟨line, rfl, hcomment⟩ := comment.takes (layout.ne_nil h)
      obtain ⟨taken, rfl, hlayout⟩ := ih h
      refine ⟨line ++ taken, (List.append_assoc _ _ _).symm, fun other => ?_⟩
      rw [List.append_assoc]
      exact .comment (hcomment _) (hlayout other)

theorem CommentLines.takes (lines : CommentLines source rest) (h : rest ≠ []) :
    Takes CommentLines source rest := by
  induction lines with
  | done => exact takes_done fun _ => .done
  | line spaces comment lines ih =>
      obtain ⟨gap, rfl, hspaces⟩ := spaces.takes
      obtain ⟨line, rfl, hcomment⟩ := comment.takes (lines.layout.ne_nil h)
      obtain ⟨taken, rfl, hlines⟩ := ih h
      refine ⟨gap ++ (line ++ taken), by simp only [List.append_assoc], fun other => ?_⟩
      simp only [List.append_assoc]
      exact .line (hspaces _) (hcomment _) (hlines other)

theorem LineEnd.takes (lineEnd : LineEnd source rest) (h : rest ≠ []) :
    Takes LineEnd source rest := by
  cases lineEnd with
  | intro spaces lineBreak lines =>
      obtain ⟨gap, rfl, hspaces⟩ := spaces.takes
      obtain ⟨line, rfl, hbreak⟩ := lineBreak.takes (lines.layout.ne_nil h)
      obtain ⟨taken, rfl, hlines⟩ := lines.takes h
      refine ⟨gap ++ (line ++ taken), by simp only [List.append_assoc], fun other => ?_⟩
      simp only [List.append_assoc]
      exact .intro (hspaces _) (hbreak _) (hlines other)

theorem Count.takes {value : UInt32} (read : Count source value rest) :
    Takes (Count · value ·) source rest := by
  rw [Count] at read
  generalize hsize : (value.toNat : Int) = size at read
  cases read with
  | intro literal =>
      refine takes_append fun other => ?_
      rw [Count, hsize]
      exact .intro literal

theorem Number.takes {value : Binary64} (read : Number source value rest) :
    Takes (Number · value ·) source rest := by
  cases read with
  | intro literal rounds finite => exact takes_append fun _ => .intro literal rounds finite

theorem Run.takes {word : Word} (run : Run source word rest) :
    Takes (Run · word ·) source rest := by
  induction run with
  | @one char _ _ symbol spaces =>
      obtain ⟨gap, rfl, hspaces⟩ := spaces.takes
      exact ⟨char :: gap, rfl, fun other => .one symbol (hspaces other)⟩
  | @more char _ _ _ _ symbol spaces _ ih =>
      obtain ⟨gap, rfl, hspaces⟩ := spaces.takes
      obtain ⟨taken, rfl, hrun⟩ := ih
      refine ⟨char :: (gap ++ taken), by simp only [List.cons_append, List.append_assoc],
        fun other => ?_⟩
      simp only [List.cons_append, List.append_assoc]
      exact .more symbol (hspaces _) (hrun other)

theorem Weight.takes {value : Binary64} (weighted : Weight source value rest) (h : rest ≠ []) :
    Takes (Weight · value ·) source rest := by
  cases weighted with
  | absent => exact takes_done fun _ => .absent
  | present opening read closing layout allowed =>
      obtain ⟨gap, rfl, hopening⟩ := opening.takes read.startsToken.ne_nil
      obtain ⟨digits, rfl, hread⟩ := read.takes
      obtain ⟨last, rfl, hclosing⟩ := closing.takes (List.cons_ne_nil _ _)
      obtain ⟨taken, rfl, hlayout⟩ := layout.takes h
      refine ⟨'(' :: (gap ++ (digits ++ (last ++ ')' :: taken))), by simp, fun other => ?_⟩
      simp only [List.cons_append, List.append_assoc]
      exact .present (hopening _) (hread _) (hclosing _) (hlayout other) allowed

theorem Line.takes {line : Symbol × Production} (read : Line source line rest) :
    Takes (Line · line ·) source rest := by
  cases read with
  | @intro char _ _ _ _ _ _ _ _ opening symbol layout weighted closing written =>
      obtain ⟨gap, rfl, hopening⟩ := opening.takes (List.cons_ne_nil _ _)
      obtain ⟨behind, rfl, hlayout⟩ := layout.takes (weighted.ne_nil (List.cons_ne_nil _ _))
      obtain ⟨weight, rfl, hweight⟩ := weighted.takes (List.cons_ne_nil _ _)
      obtain ⟨last, rfl, hclosing⟩ := closing.takes written.startsToken.ne_nil
      obtain ⟨taken, rfl, hrun⟩ := written.takes
      refine ⟨gap ++ char :: (behind ++ (weight ++ '-' :: '>' :: (last ++ taken))), by simp,
        fun other => ?_⟩
      simp only [List.cons_append, List.append_assoc]
      exact .intro (hopening _) symbol (hlayout _) (hweight _) (hclosing _) (hrun other)

theorem Field.takes {α : Type} {keyword : List Char} {Value : List Char → α → List Char → Prop}
    {value : α} (field : Field keyword Value source value rest) (hkeyword : keyword ≠ [])
    (hvalue : ∀ {source rest}, Value source value rest → Takes (Value · value ·) source rest)
    (hstart : ∀ {source rest}, Value source value rest → StartsToken source) (h : rest ≠ []) :
    Takes (Field keyword Value · value ·) source rest := by
  cases field with
  | intro opening layout read lineEnd =>
      obtain ⟨gap, rfl, hopening⟩ := opening.takes (by simp [hkeyword])
      obtain ⟨inner, rfl, hlayout⟩ := layout.takes (hstart read).ne_nil
      obtain ⟨written, rfl, hread⟩ := hvalue read
      obtain ⟨taken, rfl, hlineEnd⟩ := lineEnd.takes h
      refine ⟨gap ++ (keyword ++ (inner ++ (written ++ taken))), by simp, fun other => ?_⟩
      simp only [List.append_assoc]
      exact .intro (hopening _) (hlayout _) (hread _) (hlineEnd other)

end

end Grammar

end Lindenmayer
