import Lindenmayer.Proofs.Coupling
import Lindenmayer.Proofs.Insertion.Layout
import Lindenmayer.Proofs.Insertion.Literal
import Lindenmayer.Proofs.Reading.Lines

namespace Lindenmayer

open Scanner

namespace Insertion

variable {α β : Type} {insertion : Insertion} {left right : Cursor}

def Respects (insertion : Insertion) (scanner : Scanner α) : Prop :=
  Couples insertion.Lowers insertion.Beside Eq insertion.Beside scanner scanner

theorem respects_pure (value : α) : insertion.Respects (Pure.pure value) :=
  couples_pure rfl

theorem respects_bind {scanner : Scanner α} {next : α → Scanner β}
    (hscanner : insertion.Respects scanner) (hnext : ∀ value, insertion.Respects (next value)) :
    insertion.Respects (scanner >>= next) := by
  refine couples_bind hscanner fun value other heq => ?_
  rw [← heq]
  exact hnext value

theorem respects_failExpected (element : Element) :
    insertion.Respects (failExpected element : Scanner α) :=
  couples_failExpected fun _ _ h => h.expected element

theorem respects_skip : insertion.Respects (move Cursor.skip) :=
  couples_move fun _ _ h => Near.skip (.inl h)

theorem respects_skipSpaces : insertion.Respects (move Cursor.skipSpaces) :=
  couples_move fun _ _ h => h.skipSpaces

theorem respects_takeIf {accept : Char → Bool} (haccept : accept '\n' = false) :
    insertion.Respects (takeIf accept) := by
  intro left right h
  simp only [takeIf, h.peek_eq]
  cases hpeek : left.peek with
  | none => exact .ok rfl h
  | some char =>
      simp only
      split
      · rename_i htrue
        have hne : char ≠ '\n' := by
          rintro rfl
          rw [haccept] at htrue
          contradiction
        exact .ok rfl (h.next_of_ne hpeek hne)
      · exact .ok rfl h

theorem respects_eat {char : Char} (h : char ≠ '\n') : insertion.Respects (eat char) :=
  respects_bind (respects_takeIf (decide_eq_false (Ne.symm h))) fun _ => respects_pure _

theorem respects_expect {char : Char} (element : Element) (h : char ≠ '\n') :
    insertion.Respects (expect char element) := by
  refine respects_bind (respects_eat h) fun found => ?_
  cases found with
  | false => exact respects_failExpected element
  | true => exact respects_pure ()

theorem isPrefixOf_append {chars lines : List Char} (rest : List Char) (h : '\n' ∉ chars)
    (closed : IsClosed lines) : chars.isPrefixOf (lines ++ rest) = chars.isPrefixOf lines := by
  induction chars generalizing lines with
  | nil => rw [List.isPrefixOf_nil_left, List.isPrefixOf_nil_left]
  | cons char chars ih =>
      rw [List.mem_cons, not_or] at h
      cases lines with
      | nil => exact absurd rfl closed.ne_nil
      | cons first lines =>
          rw [List.cons_append, List.isPrefixOf_cons_cons, List.isPrefixOf_cons_cons]
          by_cases heq : char = first
          · rw [ih h.2 (closed.tail (heq ▸ Ne.symm h.1))]
          · rw [beq_eq_false_iff_ne.mpr heq, Bool.false_and, Bool.false_and]

theorem Beside.isPrefixOf_eq (h : insertion.Beside left right) {chars : List Char}
    (hchars : '\n' ∉ chars) : chars.isPrefixOf right.rest = chars.isPrefixOf left.rest := by
  cases h with
  | ahead closed shares =>
      rw [shares.rest, shares.other, isPrefixOf_append _ hchars closed,
        isPrefixOf_append _ hchars closed]
  | behind apart => rw [apart.rest]

theorem Beside.drop_token (h : insertion.Beside left right) {token rest : List Char}
    (hrest : left.rest = token ++ rest) (htoken : '\n' ∉ token) :
    insertion.Beside (left.drop token.length) (right.drop token.length) := by
  apply h.drop
  rwa [hrest, List.take_left]

theorem respects_expectAll {chars : List Char} (element : Element) (hchars : '\n' ∉ chars) :
    insertion.Respects (expectAll chars element) := by
  intro left right h
  simp only [expectAll, h.isPrefixOf_eq hchars]
  split
  · rename_i hprefix
    obtain ⟨rest, hrest⟩ := List.isPrefixOf_iff_prefix.mp hprefix
    exact .ok rfl (h.drop_token hrest.symm hchars)
  · exact .error (h.expected element)

theorem Beside.scan_eq (h : insertion.Beside left right)
    {scan : List Char → Option (α × List Char)}
    (hscan : ∀ {lines} (rest : List Char), IsClosed lines →
      (scan (lines ++ rest)).map Prod.fst = (scan lines).map Prod.fst) :
    (scan right.rest).map Prod.fst = (scan left.rest).map Prod.fst := by
  cases h with
  | ahead closed shares => rw [shares.rest, shares.other, hscan _ closed, hscan _ closed]
  | behind apart => rw [apart.rest]

theorem exists_scan_of_eq {scan : Option (α × List Char)} {value : α}
    (h : scan.map Prod.fst = some value) : ∃ rest, scan = some (value, rest) := by
  obtain ⟨found, hscan, rfl⟩ := Option.map_eq_some_iff.mp h
  exact ⟨found.2, hscan⟩

theorem respects_integer : insertion.Respects integer := by
  intro left right h
  have hscan := h.scan_eq IntegerLiteral.scan_append_fst
  rw [run_integer, run_integer]
  cases hleft : IntegerLiteral.scan left.rest with
  | none =>
      rw [hleft, Option.map_none, Option.map_eq_none_iff] at hscan
      simp only [hscan]
      exact .error (h.expected .integer)
  | some found =>
      obtain ⟨literal, rest⟩ := found
      rw [hleft] at hscan
      obtain ⟨otherRest, hright⟩ := exists_scan_of_eq hscan
      have hdrop := h.drop_token (IntegerLiteral.scan_append hleft).symm literal.newline_notMem
      simp only [hright]
      split
      · exact .ok rfl hdrop
      · exact .error (h.outOfRange .integer literal.chars)

theorem respects_number (element : Element) : insertion.Respects (number element) := by
  intro left right h
  have hscan := h.scan_eq NumberLiteral.scan_append_fst
  simp only [number]
  cases hleft : NumberLiteral.scan left.rest with
  | none =>
      rw [hleft, Option.map_none, Option.map_eq_none_iff] at hscan
      simp only [hscan]
      exact .error (h.expected element)
  | some found =>
      obtain ⟨literal, rest⟩ := found
      rw [hleft] at hscan
      obtain ⟨otherRest, hright⟩ := exists_scan_of_eq hscan
      have hdrop := h.drop_token (NumberLiteral.scan_append hleft).symm literal.newline_notMem
      simp only [hright]
      split
      · exact .ok rfl hdrop
      · exact .error (h.outOfRange element literal.chars)

theorem respects_symbol : insertion.Respects symbol := by
  refine respects_bind (respects_takeIf (by decide)) fun found => ?_
  cases found with
  | none => exact respects_failExpected .symbol
  | some char => exact respects_pure _

theorem couples_symbolRound :
    Couples insertion.Lowers insertion.Beside (Round.Agrees Eq) insertion.Beside symbolRound
      symbolRound := by
  refine couples_bind respects_skipSpaces fun _ _ _ => ?_
  refine couples_bind couples_here fun left right h => ?_
  rw [h.peek_eq]
  split
  · exact couples_pure .stop
  · exact couples_pure .stop
  · exact couples_pure .stop
  · exact couples_bind respects_symbol fun _ _ heq => couples_pure (.more heq)

theorem respects_symbols : insertion.Respects symbols := by
  refine respects_bind respects_skip fun _ => ?_
  refine respects_bind respects_symbol fun _ => ?_
  exact respects_bind (couples_collect _ couples_symbolRound) fun _ => respects_pure _

/-! A line end may lead to the border, but both texts pass over the comment lines behind it. -/

theorem couples_lineBreak :
    Couples insertion.Lowers insertion.Beside Eq insertion.Near lineBreak lineBreak := by
  intro left right h
  rw [run_lineBreak, run_lineBreak]
  rcases h.idleLineRound with ⟨hleft, hright⟩ | ⟨after, other, hleft, hright, hnear⟩
  · rw [hleft, hright]
    exact .error (h.skipSpaces.expected .newline)
  · rw [hleft, hright]
    exact .ok rfl hnear

theorem respects_lineEnd : insertion.Respects lineEnd := by
  refine couples_bind couples_lineBreak fun _ _ _ => ?_
  refine couples_bind (couples_move fun _ _ h => h.skipCommentLines) fun _ _ _ => ?_
  exact couples_move fun _ _ h => h.skipTrailingLines

end Insertion

end Lindenmayer
