import Lindenmayer.Proofs.Grammar.Document

namespace Lindenmayer

namespace Grammar

variable {source rest : List Char}

theorem Spaces.length_le (spaces : Spaces source rest) : rest.length ≤ source.length := by
  induction spaces with
  | done => exact Nat.le_refl _
  | space _ ih => exact Nat.le_succ_of_le ih

theorem Comment.length_lt (comment : Comment source rest) : rest.length < source.length := by
  cases comment with
  | closed _ =>
      rw [List.length_append, List.length_cons, List.length_cons]
      omega
  | last _ => exact Nat.succ_pos _

theorem LineBreak.length_lt (lineBreak : LineBreak source rest) : rest.length < source.length := by
  cases lineBreak with
  | newline => exact Nat.lt_succ_self _
  | comment comment => exact comment.length_lt

theorem Layout.length_le (layout : Layout source rest) : rest.length ≤ source.length := by
  induction layout with
  | done => exact Nat.le_refl _
  | space _ ih => exact Nat.le_succ_of_le ih
  | comment comment _ ih => exact ih.trans comment.length_lt.le

theorem LineEnd.length_lt (lineEnd : LineEnd source rest) : rest.length < source.length := by
  cases lineEnd with
  | intro spaces lineBreak lines =>
      calc
        rest.length ≤ _ := lines.layout.length_le
        _ < _ := lineBreak.length_lt
        _ ≤ source.length := spaces.length_le

theorem Run.length_lt {word : Word} (run : Run source word rest) : rest.length < source.length := by
  induction run with
  | one _ spaces => exact Nat.lt_succ_of_le spaces.length_le
  | more _ spaces _ ih => exact Nat.lt_succ_of_lt (Nat.lt_of_lt_of_le ih spaces.length_le)

theorem Number.length_le {value : Binary64} (read : Number source value rest) :
    rest.length ≤ source.length := by
  cases read with
  | intro literal _ _ => simp

theorem Weight.length_le {value : Binary64} (weighted : Weight source value rest) :
    rest.length ≤ source.length := by
  cases weighted with
  | absent => exact Nat.le_refl _
  | @present inner number behind outer rest value opening read closing layout allowed =>
      calc
        rest.length ≤ outer.length := layout.length_le
        _ ≤ (')' :: outer).length := Nat.le_succ _
        _ ≤ behind.length := closing.length_le
        _ ≤ number.length := read.length_le
        _ ≤ inner.length := opening.length_le
        _ ≤ ('(' :: inner).length := Nat.le_succ _

theorem Line.length_le {line : Symbol × Production} (read : Line source line rest) :
    rest.length + 4 ≤ source.length := by
  cases read with
  | @intro char source inner weight behind run rest probability successor opening symbol layout
      weighted closing written =>
      have hwritten := written.length_lt
      have hclosing := closing.length_le
      have hweighted := weighted.length_le
      have hlayout := layout.length_le
      have hopening := opening.length_le
      simp only [List.length_cons] at hweighted hopening
      omega

theorem Lines.length_le {lines : List (Symbol × Production)} (read : Lines source lines) :
    5 * lines.length ≤ source.length + 1 := by
  induction read with
  | last read _ =>
      have hline := read.length_le
      rw [List.length_singleton]
      omega
  | more read lineEnd _ ih =>
      have hline := read.length_le
      have hend := lineEnd.length_lt
      rw [List.length_cons]
      omega

/-- What is left of a text behind the longest part that it begins with. -/
structure LeavesLeast (Part : List Char → List Char → Prop) (source rest : List Char) : Prop where
  part : Part source rest
  length_le : ∀ other, Part source other → rest.length ≤ other.length

theorem LeavesLeast.unique {Part : List Char → List Char → Prop} {left right : List Char}
    (hleft : LeavesLeast Part source left) (hright : LeavesLeast Part source right)
    (hend : left <:+ source) (hother : right <:+ source) : left = right := by
  have hle := hleft.length_le right hright.part
  have hge := hright.length_le left hleft.part
  exact (List.suffix_of_suffix_length_le hend hother hle).eq_of_length (Nat.le_antisymm hle hge)

theorem Layout.leavesLeast (layout : Layout source rest) (h : IsStuck rest) :
    LeavesLeast Layout source rest where
  part := layout
  length_le _ hother := (hother.resume layout h).length_le

theorem LineEnd.leavesLeast (lineEnd : LineEnd source rest)
    (hlast : ∀ mark after, Spaces rest mark → ¬Comment mark after) :
    LeavesLeast LineEnd source rest where
  part := lineEnd
  length_le other hother := by
    cases lineEnd with
    | intro spaces lineBreak lines =>
        cases hother with
        | intro hspaces hbreak hlines =>
            obtain rfl := (spaces.mark_eq lineBreak).symm.trans (hspaces.mark_eq hbreak)
            obtain rfl := lineBreak.unique hbreak
            exact (hlines.resume lines hlast).layout.length_le

end Grammar

end Lindenmayer
