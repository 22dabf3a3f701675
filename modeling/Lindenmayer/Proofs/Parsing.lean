import Mathlib.Data.Set.Subsingleton
import Lindenmayer.Proofs.Head

namespace Lindenmayer

open Grammar

namespace Scanner

theorem document_of_run {cursor after : Cursor} {model : Model}
    (h : Scanner.model.run cursor = (.ok model, after)) :
    Document cursor.rest model ∧ after.rest = [] := by
  simp only [model_eq, productions, run_bind_eq_ok_iff, run_pure, Prod.mk.injEq,
    Except.ok.injEq] at h
  obtain ⟨head, middle, hhead, _, _, ⟨lines, _, hlines, rfl, rfl⟩, rfl, rfl⟩ := h
  obtain ⟨read, hend⟩ := lines_of_run hlines
  have head := head_of_run hhead read.tokenAhead.ne_nil
  exact ⟨head.document read (Table.collects_ofList lines), hend⟩

theorem run_of_document {cursor : Cursor} {model : Model} (h : Document cursor.rest model) :
    ∃ after, Scanner.model.run cursor = (.ok model, after) ∧ after.rest = [] := by
  obtain ⟨rest, lines, head, read, table⟩ := h.exists_head
  obtain ⟨middle, hmiddle, layout⟩ := run_of_head head read.tokenAhead
  obtain ⟨after, hafter, hend⟩ := run_productionLines read layout
  have htable : productions.run middle = (.ok model.productions, after) := by
    rw [productions, run_bind_of_ok hafter, table.unique (Table.collects_ofList _)]
    rfl
  refine ⟨after, ?_, hend⟩
  rw [model_eq, run_bind_of_ok hmiddle, run_bind_of_ok htable]
  rfl

end Scanner

namespace Model

theorem document_of_parse {text : String} {model : Model} (h : parse text = .ok model) :
    Document text.toList model := by
  simp only [parse, ofChars] at h
  split at h
  · contradiction
  · rename_i found after hrun
    obtain ⟨hdocument, hend⟩ := Scanner.document_of_run hrun
    rw [if_pos (Scanner.atEnd_iff.mpr hend)] at h
    obtain rfl := Except.ok.inj h
    exact hdocument

theorem parse_of_document {text : String} {model : Model} (h : Document text.toList model) :
    parse text = .ok model := by
  obtain ⟨after, hrun, hend⟩ := @Scanner.run_of_document (.ofChars text.toList) _ h
  simp only [parse, ofChars, hrun, if_pos (Scanner.atEnd_iff.mpr hend)]

theorem parse_eq_error_iff {text : String} {error : SyntaxError} :
    parse text = .error error ↔
      ∃ after, Scanner.model.run (.ofChars text.toList) = (.error error, after) := by
  simp only [parse, ofChars]
  constructor
  · intro h
    split at h
    · rename_i found after hrun
      obtain rfl := Except.error.inj h
      exact ⟨after, hrun⟩
    · rename_i model after hrun
      have hend := (Scanner.document_of_run hrun).2
      rw [if_pos (Scanner.atEnd_iff.mpr hend)] at h
      contradiction
  · rintro ⟨after, hrun⟩
    rw [hrun]

theorem parse_eq_ok_iff (text : String) :
    (∀ model, parse text = .ok model ↔ Document text.toList model) ∧
      {model | Document text.toList model}.Subsingleton := by
  refine ⟨fun model => ⟨document_of_parse, parse_of_document⟩, ?_⟩
  intro model hmodel other hother
  exact Except.ok.inj ((parse_of_document hmodel).symm.trans (parse_of_document hother))

end Model

end Lindenmayer
