import Lindenmayer.Proofs.Faults.Places
import Lindenmayer.Proofs.Faults.Tracing
import Lindenmayer.Proofs.Reading.Longest

namespace Lindenmayer

open Scanner

/-- The piece of a text that is shown of it: the rest of its line, cut to forty characters, or the
line end itself in front of one, or nothing at the end of the text and only there. -/
structure IsShown (after found : List Char) : Prop where
  nil_iff : found = [] ↔ after = []
  newline : after.head? = some '\n' → found = ['\n']
  line : after.head? ≠ some '\n' → found = (after.takeWhile (· ≠ '\n')).take 40

/-- A fault that is true of the text behind its place. A number out of range is the longest one that
stands there; it is given as it is written, or by its value where that is within reach. -/
inductive Fault.Tells (after : List Char) : Fault → Prop
  | expected {element : Element} {found : String} (shown : IsShown after found.toList) :
      Tells after (.expected element found)
  | generations {literal : IntegerLiteral} (longest : IsLongest IntegerLiteral.chars literal after)
      (range : ¬(0 ≤ literal.value ∧ literal.value < 2 ^ 32)) :
      Tells after (.outOfRange .generations
        (if FitsWord literal.value then toString literal.value else .ofList literal.chars))
  | number {literal : NumberLiteral} (longest : IsLongest NumberLiteral.chars literal after)
      (range : literal.value.isFinite = false) :
      Tells after (.outOfRange .number (.ofList literal.chars))
  | probability {literal : NumberLiteral} (longest : IsLongest NumberLiteral.chars literal after)
      (range : ¬literal.value.IsProbability) :
      Tells after (.outOfRange .probability
        (.ofList (if literal.value.isFinite then literal.value.text else literal.chars)))

namespace Cursor

theorem isShown_context (place : Cursor) : IsShown place.rest place.context := by
  rw [context]
  cases hrest : place.rest with
  | nil => exact ⟨by simp, by simp, by simp⟩
  | cons char rest =>
      by_cases hchar : char = '\n'
      · subst hchar
        exact ⟨by simp, by simp, by simp⟩
      · have hline : (char :: rest).takeWhile (· ≠ '\n') = char :: rest.takeWhile (· ≠ '\n') :=
          List.takeWhile_cons_of_pos (by simpa using hchar)
        rw [hline, if_neg (List.cons_ne_nil _ _)]
        refine ⟨by simp [contextWidth], fun hhead => ?_, fun _ => ?_⟩
        · exact absurd (Option.some.inj hhead) hchar
        · rw [hline, contextWidth]

theorem Explains.tells {place : Cursor} {error : SyntaxError} (h : place.Explains error) :
    error.fault.Tells place.rest := by
  cases h with
  | expected element =>
      refine .expected ?_
      rw [String.toList_ofList]
      exact place.isShown_context
  | generations scan range =>
      have tells := Fault.Tells.generations (IntegerLiteral.isLongest scan) range
      simp only [outOfRange]
      split
      · rename_i hword
        rwa [if_pos hword, ← String.ofList_toList (s := toString _)] at tells
      · rename_i hword
        rwa [if_neg hword] at tells
  | number scan range => exact .number (NumberLiteral.isLongest scan) range
  | probability scan range => exact .probability (NumberLiteral.isLongest scan) range

end Cursor

namespace Model

theorem exists_explains_of_parse {text : String} {error : SyntaxError}
    (h : parse text = .error error) :
    ∃ place, (Cursor.ofChars text.toList).LeadsTo place ∧ place.Explains error := by
  obtain ⟨after, hrun⟩ := parse_eq_error_iff.mp h
  exact traces_model.explains hrun

/-- An error names no file, and its line and column are those of a place in the text of which its
fault is true. -/
theorem exists_place_of_parse_error {text : String} {error : SyntaxError}
    (h : parse text = .error error) :
    ∃ before after : String, text = before ++ after ∧
      error.location = .behind before.toList ∧ error.fault.Tells after.toList := by
  obtain ⟨place, hplace, hexplains⟩ := exists_explains_of_parse h
  obtain ⟨before, htext, hlocation⟩ := Cursor.exists_split_of_leadsTo hplace
  refine ⟨.ofList before, .ofList place.rest, ?_, ?_, ?_⟩
  · rw [← String.ofList_append, ← htext, String.ofList_toList]
  · rw [String.toList_ofList, hexplains.location_eq, hlocation]
  · rw [String.toList_ofList]
    exact hexplains.tells

theorem exists_place_of_parse_negative :
    parse "generations:#\n -1.5" = .error ⟨⟨none, 2, 2⟩, .outOfRange .generations "-1"⟩ ∧
      ∃ before after : String, "generations:#\n -1.5" = before ++ after ∧
        (⟨none, 2, 2⟩ : Location) = .behind before.toList ∧
        (Fault.outOfRange .generations "-1").Tells after.toList := by
  have hparse : parse "generations:#\n -1.5" =
      .error ⟨⟨none, 2, 2⟩, .outOfRange .generations "-1"⟩ := by decide +kernel
  exact ⟨hparse, exists_place_of_parse_error hparse⟩

end Model

end Lindenmayer
