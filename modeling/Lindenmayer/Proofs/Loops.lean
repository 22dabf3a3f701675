import Lindenmayer.Proofs.Accumulation
import Lindenmayer.Proofs.Faults.Places
import Lindenmayer.Proofs.Grammar.Extent

/-! Every round that does not leave its loop starts the next one further on. -/

namespace Lindenmayer

namespace Cursor

variable {round : Cursor → Option Cursor} {cursor last : Cursor} {places : List Cursor}

/-- The places where the rounds of a loop start, and the last of them, from which it is left. -/
inductive Rounds (round : Cursor → Option Cursor) : Cursor → List Cursor → Cursor → Prop
  | leave {cursor : Cursor} (left : round cursor = none) : Rounds round cursor [cursor] cursor
  | again {cursor after last : Cursor} {places : List Cursor} (goes : round cursor = some after)
      (rounds : Rounds round after places last) : Rounds round cursor (cursor :: places) last

/-- A loop that moves on with every round until the last. -/
structure Ends (round : Cursor → Option Cursor) (cursor : Cursor) (places : List Cursor)
    (last : Cursor) : Prop where
  rounds : Rounds round cursor places last
  increasing : places.Pairwise (fun earlier later =>
    earlier.position.offset < later.position.offset)
  length_le : places.length ≤ cursor.rest.length + 1

theorem UsesText.offset_lt (h : UsesText round) {after : Cursor}
    (hround : round cursor = some after) : cursor.position.offset < after.position.offset :=
  (h cursor after hround).1.offset_lt (h cursor after hround).2

namespace Rounds

theorem leadsTo (rounds : Rounds round cursor places last) (h : UsesText round) :
    ∀ place ∈ places, cursor.LeadsTo place := by
  induction rounds with
  | leave _ =>
      intro place hplace
      rw [List.mem_singleton.mp hplace]
      exact .refl _
  | again goes _ ih =>
      intro place hplace
      rcases List.mem_cons.mp hplace with rfl | hplace
      · exact .refl _
      · exact (h _ _ goes).1.trans (ih place hplace)

theorem increasing (rounds : Rounds round cursor places last) (h : UsesText round) :
    places.Pairwise (fun earlier later => earlier.position.offset < later.position.offset) := by
  induction rounds with
  | leave _ => exact List.pairwise_singleton _ _
  | again goes rounds ih =>
      refine List.pairwise_cons.mpr ⟨fun place hplace => ?_, ih⟩
      exact Nat.lt_of_lt_of_le (h.offset_lt goes) (rounds.leadsTo h place hplace).offset_le

theorem length_le (rounds : Rounds round cursor places last) (h : UsesText round) :
    places.length ≤ cursor.rest.length + 1 := by
  induction rounds with
  | leave _ => exact Nat.le_add_left _ _
  | again goes _ ih => exact Nat.succ_le_succ (ih.trans (h _ _ goes).2)

theorem ends (rounds : Rounds round cursor places last) (h : UsesText round) :
    cursor.Ends round places last :=
  ⟨rounds, rounds.increasing h, rounds.length_le h⟩

end Rounds

theorem exists_rounds (h : UsesText round) (cursor : Cursor) :
    ∃ places, Rounds round cursor places (exhaust round h cursor) := by
  fun_induction exhaust round h cursor with
  | case1 cursor hround => exact ⟨[cursor], .leave hround⟩
  | case2 cursor after hround ih =>
      obtain ⟨places, rounds⟩ := ih
      exact ⟨cursor :: places, .again hround rounds⟩

theorem exists_ends (h : UsesText round) (cursor : Cursor) :
    ∃ places, cursor.Ends round places (exhaust round h cursor) := by
  obtain ⟨places, rounds⟩ := exists_rounds h cursor
  exact ⟨places, rounds.ends h⟩

end Cursor

namespace Scanner

variable {round : Scanner (Round α)} {cursor last : Cursor} {places : List Cursor}

def onward (round : Scanner (Round α)) (cursor : Cursor) : Option Cursor :=
  match round.run cursor with
  | (.ok (.more _), after) => some after
  | _ => none

/-- What a loop gives that has found some items and is left by a round. -/
def leaving (items : List α) : Scan (Round α) → Scan (List α)
  | (.ok .stop, after) => (.ok items, after)
  | (.ok (.last item), after) => (.ok (items ++ [item]), after)
  | (.ok (.more item), after) => (.ok (items ++ [item]), after)
  | (.error error, after) => (.error error, after)

theorem onward_eq_some_iff {after : Cursor} :
    round.onward cursor = some after ↔ ∃ item, round.run cursor = (.ok (.more item), after) := by
  unfold onward
  split
  · rename_i hrun
    simp [hrun]
  · rename_i hother
    constructor
    · nofun
    · rintro ⟨item, hrun⟩
      exact absurd hrun (hother item after)

theorem UsesText.onward (h : UsesText round) (hround : Advances round) :
    Cursor.UsesText round.onward := by
  intro cursor after honward
  obtain ⟨item, hrun⟩ := onward_eq_some_iff.mp honward
  exact ⟨hround.leadsTo hrun, h cursor item after hrun⟩

theorem collect_of_rounds (h : UsesText round)
    (rounds : Cursor.Rounds round.onward cursor places last) :
    ∃ items, items.length + 1 = places.length ∧
      (collect round h).run cursor = leaving items (round.run last) := by
  induction rounds with
  | @leave cursor left =>
      refine ⟨[], rfl, ?_⟩
      cases hrun : round.run cursor with
      | mk outcome after =>
          cases outcome with
          | error error => exact run_collect_of_error h hrun
          | ok found =>
              cases found with
              | stop => exact run_collect_of_stop h hrun
              | last item => exact run_collect_of_last h hrun
              | more item =>
                  rw [onward_eq_some_iff.mpr ⟨item, hrun⟩] at left
                  contradiction
  | @again cursor after last places goes _ ih =>
      obtain ⟨item, hrun⟩ := onward_eq_some_iff.mp goes
      obtain ⟨items, hlength, hitems⟩ := ih
      refine ⟨item :: items, congrArg Nat.succ hlength, ?_⟩
      rw [run_collect_of_more h hrun, hitems]
      cases round.run last with
      | mk outcome final =>
          cases outcome with
          | error error => rfl
          | ok found => cases found <;> rfl

theorem exists_ends_collect (h : UsesText round) (hround : Advances round) (cursor : Cursor) :
    ∃ places last, cursor.Ends round.onward places last ∧
      ∃ items, items.length + 1 = places.length ∧
        (collect round h).run cursor = leaving items (round.run last) := by
  obtain ⟨places, ends⟩ := Cursor.exists_ends (h.onward hround) cursor
  exact ⟨places, _, ends, collect_of_rounds h ends.rounds⟩

theorem count_of_run_productions {cursor after : Cursor} {table : Table}
    (h : productions.run cursor = (.ok table, after)) :
    5 * table.count - 1 ≤ cursor.rest.length := by
  simp only [productions, run_bind_eq_ok_iff, run_pure, Prod.mk.injEq, Except.ok.injEq] at h
  obtain ⟨lines, middle, hlines, rfl, _⟩ := h
  have hlength := (lines_of_run hlines).1.length_le
  rw [Table.count_ofList]
  omega

/-- From every place the loops over layout, over lines without meaning, over symbols and over
production lines run through rounds that start further and further on, and only the round that
leaves a loop may go back. A line takes five characters, its end included. -/
theorem rounds_of_loops (cursor : Cursor) :
    (∃ places, cursor.Ends Cursor.layoutRound places cursor.skip) ∧
      (∃ places, cursor.Ends Cursor.commentLineRound places cursor.skipCommentLines) ∧
      (∃ places last, cursor.Ends Cursor.idleLineRound places last ∧
        cursor.skipTrailingLines = if last.skipSpaces.atEnd then last.skipSpaces else cursor) ∧
      (∃ places last, cursor.Ends symbolRound.onward places last ∧
        ∃ items, items.length + 1 = places.length ∧
          (collect symbolRound symbolRound_usesText).run cursor =
            leaving items (symbolRound.run last)) ∧
      (∃ places last, cursor.Ends productionRound.onward places last ∧
        ∃ items, items.length + 1 = places.length ∧
          productionLines.run cursor = leaving items (productionRound.run last)) ∧
      ∀ table after, productions.run cursor = (.ok table, after) →
        5 * table.count - 1 ≤ cursor.rest.length := by
  refine ⟨Cursor.exists_ends _ cursor, Cursor.exists_ends _ cursor, ?_,
    exists_ends_collect _ advances_symbolRound cursor,
    exists_ends_collect _ advances_productionRound cursor,
    fun _ _ hrun => count_of_run_productions hrun⟩
  obtain ⟨places, ends⟩ := Cursor.exists_ends Cursor.idleLineRound_usesText cursor
  exact ⟨places, _, ends, rfl⟩

/-- Two lines in as few characters as two lines can have. -/
theorem rounds_of_loops_two_lines :
    ∃ table after, productions.run (.ofChars "F->G\nF->H".toList) = (.ok table, after) ∧
      table.count = 2 ∧ "F->G\nF->H".toList.length = 5 * 2 - 1 ∧
      5 * table.count - 1 ≤ "F->G\nF->H".toList.length := by
  have hrun : productions.run (.ofChars "F->G\nF->H".toList) =
      (.ok (.ofList [(.ofChar 'F', ⟨.one, [.ofChar 'G']⟩), (.ofChar 'F', ⟨.one, [.ofChar 'H']⟩)]),
        (Cursor.ofChars "F->G\nF->H".toList).drop 9) := by decide +kernel
  exact ⟨_, _, hrun, by decide +kernel, by decide +kernel,
    (rounds_of_loops (.ofChars "F->G\nF->H".toList)).2.2.2.2.2 _ _ hrun⟩

end Scanner

end Lindenmayer
