import Lindenmayer.Document.Parse
import Lindenmayer.Proofs.Reading.Tokens

namespace Lindenmayer

open Grammar

namespace Scanner

theorem expectAll_of_run {chars : List Char} {element : Element} {cursor after : Cursor}
    (h : (expectAll chars element).run cursor = (.ok (), after)) :
    cursor.rest = chars ++ after.rest := by
  simp only [expectAll] at h
  split at h
  · rename_i hchars
    obtain rfl : cursor.drop chars.length = after := (Prod.mk.inj h).2
    obtain ⟨rest, hrest⟩ := List.isPrefixOf_iff_prefix.mp hchars
    rw [rest_drop_append hrest.symm, hrest]
  · simp at h

theorem run_expectAll {chars rest : List Char} (element : Element) {cursor : Cursor}
    (h : cursor.rest = chars ++ rest) :
    (expectAll chars element).run cursor = (.ok (), cursor.drop chars.length) := by
  have hchars : chars.isPrefixOf cursor.rest = true :=
    List.isPrefixOf_iff_prefix.mpr ⟨rest, h.symm⟩
  simp only [expectAll, hchars, if_true]

theorem field_of_run {α : Type} {keyword : List Char} {element : Element} {value : Scanner α}
    {Value : List Char → α → List Char → Prop}
    (hvalue : ∀ {cursor after : Cursor} {result : α}, value.run cursor = (.ok result, after) →
      ∃ inner, Layout cursor.rest inner ∧ Value inner result after.rest)
    {cursor after : Cursor} {result : α}
    (h : (field keyword element value).run cursor = (.ok result, after)) :
    Field keyword Value cursor.rest result after.rest ∨ after.rest = [] := by
  simp only [field, run_bind_eq_ok_iff, run_move, Prod.mk.injEq] at h
  obtain ⟨_, _, ⟨_, rfl⟩, _, keyed, hkeyword, _, _, ⟨_, rfl⟩, read, behind, hread, _, final,
    hend, hresult⟩ := h
  obtain ⟨rfl, rfl⟩ : read = result ∧ final = after := by simpa using hresult
  obtain ⟨inner, hinner, hvalue⟩ := hvalue hread
  have hopening := cursor.layout_skip
  rw [expectAll_of_run hkeyword] at hopening
  rcases lineEnd_of_run hend with hline | ⟨_, hnil⟩
  · exact .inl (.intro hopening (keyed.layout_skip.trans hinner) hvalue hline)
  · exact .inr hnil

theorem field_ne_nil {α : Type} {keyword : List Char} {element : Element} {value : Scanner α}
    {cursor after : Cursor} {result : α} (hkeyword : StartsToken keyword)
    (h : (field keyword element value).run cursor = (.ok result, after)) : cursor.rest ≠ [] := by
  simp only [field, run_bind_eq_ok_iff, run_move, Prod.mk.injEq] at h
  obtain ⟨_, _, ⟨_, rfl⟩, _, keyed, hrun, _⟩ := h
  have layout := cursor.layout_skip
  rw [expectAll_of_run hrun] at layout
  exact TokenAhead.ne_nil ⟨_, layout, hkeyword.append _⟩

theorem run_field {α : Type} {keyword : List Char} (element : Element) {value : Scanner α}
    {Value : List Char → α → List Char → Prop} {cursor : Cursor} {result : α} {rest : List Char}
    (hkeyword : StartsToken keyword)
    (hstart : ∀ {source behind : List Char}, Value source result behind → StartsToken source)
    (hvalue : ∀ {cursor : Cursor} {behind : List Char}, Value cursor.rest result behind →
      LineEnd behind rest → ∃ after, value.run cursor = (.ok result, after) ∧
        LineEnd after.rest rest)
    (read : Field keyword Value cursor.rest result rest) (hahead : TokenAhead rest) :
    ∃ after, (field keyword element value).run cursor = (.ok result, after) ∧
      Layout rest after.rest := by
  cases read with
  | intro opening layout read lineEnd =>
      have hskip := Cursor.rest_skip_eq opening (hkeyword.append _).isStuck
      have hkeyed := run_expectAll element hskip
      have hinner := rest_drop_append hskip
      have hwritten := Cursor.rest_skip_eq (hinner ▸ layout) (hstart read).isStuck
      obtain ⟨behind, hread, hbehind⟩ := hvalue (hwritten ▸ read) lineEnd
      obtain ⟨after, hend, hrest⟩ := run_lineEnd_of_tokenAhead hbehind hahead
      refine ⟨after, ?_, hrest⟩
      rw [field, run_bind_of_ok (run_move _ _), run_bind_of_ok hkeyed,
        run_bind_of_ok (run_move _ _), run_bind_of_ok hread, run_bind_of_ok hend]
      rfl

theorem startsNoNumber_of_head {rest : List Char}
    (h : ∀ char, rest.head? = some char → char = ' ' ∨ char = '\n' ∨ char = '#' ∨ char = ')') :
    StartsNoNumber rest := by
  intro char hhead
  rcases h char hhead with rfl | rfl | rfl | rfl <;> decide

theorem startsNoNumber_of_lineEnd {source rest : List Char} (lineEnd : LineEnd source rest) :
    StartsNoNumber source := by
  apply startsNoNumber_of_head
  intro char hhead
  obtain ⟨tail, rfl⟩ := List.head?_eq_some_iff.mp hhead
  rcases lineEnd.head_eq with h | h | h <;> simp [h]

theorem startsNoNumber_of_layout {source rest : List Char} (layout : Layout source (')' :: rest)) :
    StartsNoNumber source := by
  apply startsNoNumber_of_head
  intro char hhead
  obtain ⟨tail, rfl⟩ := List.head?_eq_some_iff.mp hhead
  rcases layout.head_eq with h | h | h
  · simp [← (List.cons.inj h).1]
  · simp [h]
  · simp [h]

theorem generationsField_of_run {cursor after : Cursor} {result : UInt32}
    (h : generationsField.run cursor = (.ok result, after)) :
    Field "generations:".toList Count cursor.rest result after.rest ∨ after.rest = [] :=
  field_of_run (fun hrun => ⟨_, .done, count_of_run hrun⟩) h

theorem numberField_of_run {keyword : List Char} {element : Element} {cursor after : Cursor}
    {result : Binary64}
    (h : (field keyword element (number .number)).run cursor = (.ok result, after)) :
    Field keyword Number cursor.rest result after.rest ∨ after.rest = [] :=
  field_of_run (fun hrun => ⟨_, .done, number_of_run hrun⟩) h

theorem seedField_of_run {cursor after : Cursor} {result : Word}
    (h : seedField.run cursor = (.ok result, after)) :
    Field "axiom:".toList Run cursor.rest result after.rest ∨ after.rest = [] :=
  field_of_run run_of_symbols h

theorem run_generationsField {cursor : Cursor} {result : UInt32} {rest : List Char}
    (read : Field "generations:".toList Count cursor.rest result rest) (hahead : TokenAhead rest) :
    ∃ after, generationsField.run cursor = (.ok result, after) ∧ Layout rest after.rest := by
  refine run_field _ (startsToken_cons (by decide)) Integer.startsToken ?_ read hahead
  intro cursor behind read lineEnd
  obtain ⟨after, hrun, rfl⟩ :=
    run_generations read (startsNoNumber_of_lineEnd lineEnd).startsNoDigit
  exact ⟨after, hrun, lineEnd⟩

theorem run_numberField {keyword : List Char} (element : Element) {cursor : Cursor}
    {result : Binary64} {rest : List Char} (hkeyword : StartsToken keyword)
    (read : Field keyword Number cursor.rest result rest) (hahead : TokenAhead rest) :
    ∃ after, (field keyword element (number .number)).run cursor = (.ok result, after) ∧
      Layout rest after.rest := by
  refine run_field _ hkeyword Number.startsToken ?_ read hahead
  intro cursor behind read lineEnd
  obtain ⟨after, hrun, rfl⟩ := run_number .number read (startsNoNumber_of_lineEnd lineEnd)
  exact ⟨after, hrun, lineEnd⟩

theorem run_seedField {cursor : Cursor} {result : Word} {rest : List Char}
    (read : Field "axiom:".toList Run cursor.rest result rest) (hahead : TokenAhead rest) :
    ∃ after, seedField.run cursor = (.ok result, after) ∧ Layout rest after.rest := by
  refine run_field _ (startsToken_cons (by decide)) Run.startsToken ?_ read hahead
  intro cursor behind run lineEnd
  obtain ⟨after, hrun, hrest⟩ := run_symbols .done run lineEnd.endsRun
  exact ⟨after, hrun, hrest ▸ lineEnd.dropWhile⟩

end Scanner

end Lindenmayer
