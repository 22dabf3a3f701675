import Lindenmayer.Document.Parse
import Lindenmayer.Proofs.Insertion.Tokens

namespace Lindenmayer

open Scanner

namespace Insertion

variable {α : Type} {insertion : Insertion} {left right : Cursor}

theorem respects_generations : insertion.Respects generations := by
  intro left right h
  have hinteger := respects_integer left right h
  simp only [generations]
  generalize integer.run left = result at hinteger
  generalize integer.run right = other at hinteger
  cases hinteger with
  | ok values after =>
      simp only [values]
      split
      · exact .ok rfl after
      · exact .error (h.outOfRange .generations _)
  | @error error other _ _ errors =>
      obtain ⟨location, fault⟩ := error
      obtain ⟨otherLocation, otherFault⟩ := other
      obtain rfl : otherFault = fault := errors.fault
      cases otherFault with
      | expected element found => exact .error errors
      | outOfRange element value => exact .error (h.outOfRange .generations _)
      | unreadable failure => exact .error errors

theorem couples_field {keyword : List Char} (element : Element) {value : Scanner α}
    (hkeyword : '\n' ∉ keyword) (hvalue : insertion.Respects value) :
    Couples insertion.Lowers insertion.Near Eq insertion.Beside (field keyword element value)
      (field keyword element value) := by
  refine couples_bind (couples_move fun _ _ h => h.skip) fun _ _ _ => ?_
  refine respects_bind (respects_expectAll element hkeyword) fun _ => ?_
  refine respects_bind respects_skip fun _ => ?_
  refine respects_bind hvalue fun _ => ?_
  exact respects_bind respects_lineEnd fun _ => respects_pure _

theorem respects_field {keyword : List Char} (element : Element) {value : Scanner α}
    (hkeyword : '\n' ∉ keyword) (hvalue : insertion.Respects value) :
    insertion.Respects (field keyword element value) :=
  fun left right h => couples_field element hkeyword hvalue left right (.inl h)

theorem respects_probability : insertion.Respects probability := by
  refine respects_bind (respects_eat (by decide)) fun found => ?_
  cases found with
  | false => exact respects_pure _
  | true =>
      refine respects_bind respects_skip fun _ => ?_
      -- The error of a number out of range stands where the number began.
      refine couples_bind couples_here fun start other hstart => ?_
      refine couples_bind (respects_number _) fun value otherValue heq => ?_
      refine couples_bind respects_skip fun _ _ _ => ?_
      refine couples_bind (respects_expect _ (by decide)) fun _ _ _ => ?_
      rw [← heq]
      exact couples_ite (fun _ => couples_pure rfl)
        (fun _ => couples_fail (hstart.outOfRange .probability value.text))

theorem respects_production : insertion.Respects production := by
  refine respects_bind respects_skip fun _ => ?_
  refine respects_bind respects_symbol fun _ => ?_
  refine respects_bind respects_skip fun _ => ?_
  refine respects_bind respects_probability fun _ => ?_
  refine respects_bind respects_skip fun _ => ?_
  refine respects_bind (respects_expectAll .arrow (by decide)) fun _ => ?_
  exact respects_bind respects_symbols fun _ => respects_pure _

theorem couples_productionRound :
    Couples insertion.Lowers insertion.Beside (Round.Agrees Eq) insertion.Beside productionRound
      productionRound := by
  refine couples_bind respects_production fun line _ heq => ?_
  rw [← heq]
  refine couples_bind couples_here fun left right h => ?_
  rw [h.atEnd_eq]
  refine couples_ite (fun _ => couples_pure (.last rfl)) fun _ => ?_
  refine couples_bind respects_lineEnd fun _ _ _ => ?_
  refine couples_bind couples_here fun left right h => ?_
  rw [h.atEnd_eq]
  exact couples_ite (fun _ => couples_pure (.last rfl)) fun _ => couples_pure (.more rfl)

theorem respects_productions : insertion.Respects productions :=
  respects_bind (couples_collect _ couples_productionRound) fun _ => respects_pure _

theorem couples_model :
    Couples insertion.Lowers insertion.Near Eq insertion.Beside Scanner.model Scanner.model := by
  refine couples_bind (couples_field _ (by decide) respects_generations) fun _ _ heq => ?_
  rw [← heq]
  refine respects_bind (respects_field _ (by decide) (respects_number _)) fun _ => ?_
  refine respects_bind (respects_field _ (by decide) (respects_number _)) fun _ => ?_
  refine respects_bind (respects_field _ (by decide) respects_symbols) fun _ => ?_
  exact respects_bind respects_productions fun _ => respects_pure _

/-- The comment line behind some lines of a text, or in front of all of it. -/
def behind (before : List Char) {comment : List Char} (after : List Char)
    (hbefore : before = [] ∨ IsClosed before) (h : IsCommentLine comment) : Insertion where
  border := Position.start.advanceOver before
  comment := comment
  after := after
  isCommentLine := h
  atFront := by
    rcases hbefore with rfl | ⟨line, rfl⟩
    · rfl
    · rw [Position.advanceOver_append, Position.advanceOver_cons, Position.advance_newline]
      rfl

theorem near_start {before comment : List Char} (after : List Char)
    (hbefore : before = [] ∨ IsClosed before) (h : IsCommentLine comment) :
    (behind before after hbefore h).Near (.ofChars (before ++ after))
      (.ofChars (before ++ (comment ++ after))) := by
  rcases hbefore with rfl | closed
  · exact .inr (Shares.facing ⟨rfl, rfl, rfl, rfl⟩)
  · exact .inl (.ahead closed ⟨rfl, rfl, rfl, rfl⟩)

/-- What reading one text gives, and what reading the other. -/
inductive Outcomes (insertion : Insertion) :
    Except SyntaxError Model → Except SyntaxError Model → Prop
  | ok (model : Model) : Outcomes insertion (.ok model) (.ok model)
  | error {error other : SyntaxError} (lowers : insertion.Lowers error other) :
      Outcomes insertion (.error error) (.error other)

theorem outcomes_ofChars {before comment : List Char} (after : List Char)
    (hbefore : before = [] ∨ IsClosed before) (h : IsCommentLine comment) :
    (behind before after hbefore h).Outcomes (Model.ofChars (before ++ after))
      (Model.ofChars (before ++ (comment ++ after))) := by
  have hmodel := couples_model _ _ (near_start after hbefore h)
  rw [Model.ofChars, Model.ofChars]
  generalize Scanner.model.run (.ofChars (before ++ after)) = result at hmodel
  generalize Scanner.model.run (.ofChars (before ++ (comment ++ after))) = other at hmodel
  cases hmodel with
  | error errors => exact .error errors
  | ok values final =>
      subst values
      simp only [final.atEnd_eq]
      split
      · exact .ok _
      · exact .error (final.expected .endOfInput)

end Insertion

/-- A comment line is put behind whole lines. Either text is read if the other is, and then as the
same model; and a fault is the same in both, in the same column, and below the comment line it is
one line further down. -/
theorem Model.parse_insert_commentLine {before comment : String}
    (hbefore : before = "" ∨ IsClosed before.toList) (hcomment : IsCommentLine comment.toList)
    (after : String) :
    (∀ model, parse (before ++ comment ++ after) = .ok model ↔
      parse (before ++ after) = .ok model) ∧
    ∀ error, parse (before ++ after) = .error error →
      ∃ other, parse (before ++ comment ++ after) = .error other ∧ other.fault = error.fault ∧
        other.location =
          if error.location.IsBefore (Position.start.advanceOver before.toList) then error.location
          else error.location.below := by
  have hlines : before.toList = [] ∨ IsClosed before.toList :=
    hbefore.imp_left (congrArg String.toList)
  have houtcomes := Insertion.outcomes_ofChars after.toList hlines hcomment
  simp only [parse, String.toList_append, List.append_assoc]
  generalize ofChars (before.toList ++ after.toList) = result at houtcomes
  generalize ofChars (before.toList ++ (comment.toList ++ after.toList)) = other at houtcomes
  cases houtcomes with
  | ok model => exact ⟨fun _ => Iff.rfl, fun _ h => by contradiction⟩
  | @error error other lowers =>
      refine ⟨fun model => ⟨fun h => by contradiction, fun h => by contradiction⟩, ?_⟩
      intro found h
      obtain rfl := Except.error.inj h
      exact ⟨other, rfl, lowers.fault, lowers.location⟩

theorem Model.parse_below_commentLine :
    ∃ other, parse "generations:1\n # note\nangle:x\n" = .error other ∧
      other.location = ⟨none, 3, 7⟩ := by
  have hplain : parse "generations:1\nangle:x\n" =
      .error ⟨⟨none, 2, 7⟩, .expected .number "x"⟩ := by decide +kernel
  have hcomment : IsCommentLine " # note\n".toList :=
    .space (@IsCommentLine.comment " note".toList (by decide))
  obtain ⟨other, hother, _, hlocation⟩ :=
    (@parse_insert_commentLine "generations:1\n" _ (.inr ⟨"generations:1".toList, rfl⟩)
      hcomment "angle:x\n").2 _ hplain
  exact ⟨other, hother, hlocation⟩

end Lindenmayer
