import Lindenmayer.Proofs.Accumulation
import Lindenmayer.Proofs.Balance.Verdict
import Lindenmayer.Proofs.Canonical

namespace Lindenmayer

open Grammar

/-- What the lines of one predecessor weigh together, added in their order. -/
def totalOf (lines : List (Symbol × Production)) (predecessor : Symbol) : Binary64 :=
  .sum ((alternatives lines predecessor).map Production.probability)

namespace Table

theorem Collects.mem_iff {table : Table} {lines : List (Symbol × Production)}
    (h : table.Collects lines) {entry : Entry} :
    entry ∈ table.entries ↔ entry.2 ≠ [] ∧ entry.2 = alternatives lines entry.1 := by
  refine ⟨h.eq_of_mem, ?_⟩
  rintro ⟨hne, heq⟩
  have hlookup : table.lookup entry.1 = some entry.2 := by
    rw [h, ← heq, listed_of_ne_nil hne]
  obtain ⟨before, behind, hsplit, _⟩ := List.lookup_eq_some_iff.mp hlookup
  rw [hsplit]
  exact List.mem_append_right before List.mem_cons_self

theorem Entry.imbalance?_eq_some_iff {entry : Entry} {imbalance : Imbalance} :
    entry.imbalance? = some imbalance ↔
      entry.1 = imbalance.predecessor ∧ entry.total = imbalance.total ∧
        imbalance.total.IsUnbalanced := by
  obtain ⟨predecessor, total⟩ := imbalance
  rw [imbalance?]
  split
  · rename_i hunbalanced
    rw [Option.some.injEq, Imbalance.mk.injEq]
    exact and_congr_right fun _ => ⟨fun heq => ⟨heq, heq ▸ hunbalanced⟩, And.left⟩
  · rename_i hbalanced
    refine iff_of_false (by simp) ?_
    rintro ⟨_, htotal, hunbalanced⟩
    exact hbalanced (htotal ▸ hunbalanced)

theorem Collects.mem_imbalances_iff {model : Model} {lines : List (Symbol × Production)}
    (h : model.productions.Collects lines) {imbalance : Imbalance} :
    imbalance ∈ model.imbalances ↔
      alternatives lines imbalance.predecessor ≠ [] ∧
        imbalance.total = totalOf lines imbalance.predecessor ∧ imbalance.total.IsUnbalanced := by
  rw [Model.imbalances, List.mem_filterMap]
  constructor
  · rintro ⟨entry, hentry, himbalance⟩
    obtain ⟨hpredecessor, htotal, hunbalanced⟩ := Entry.imbalance?_eq_some_iff.mp himbalance
    obtain ⟨hne, heq⟩ := h.mem_iff.mp hentry
    rw [← hpredecessor, totalOf, ← heq]
    exact ⟨hne, htotal.symm, hunbalanced⟩
  · rintro ⟨hne, htotal, hunbalanced⟩
    refine ⟨(imbalance.predecessor, alternatives lines imbalance.predecessor),
      h.mem_iff.mpr ⟨hne, rfl⟩, ?_⟩
    exact Entry.imbalance?_eq_some_iff.mpr ⟨rfl, htotal.symm, hunbalanced⟩

end Table

theorem Model.increasing_imbalances (model : Model) :
    (model.imbalances.map Imbalance.predecessor).Pairwise (· < ·) := by
  refine List.pairwise_map.mpr (List.pairwise_filterMap.mpr ?_)
  refine model.productions.increasing.imp ?_
  intro left right hlt first hfirst second hsecond
  rw [← (Table.Entry.imbalance?_eq_some_iff.mp hfirst).1,
    ← (Table.Entry.imbalance?_eq_some_iff.mp hsecond).1]
  exact hlt

theorem Grammar.Lines.isTotal {rest : List Char} {lines : List (Symbol × Production)}
    (read : Lines rest lines) (predecessor : Symbol) : (totalOf lines predecessor).IsTotal := by
  refine Binary64.isTotal_sum fun value hvalue => ?_
  obtain ⟨production, hmem, rfl⟩ := List.mem_map.mp hvalue
  exact (read.wellFormed.2 _ (Table.mem_alternatives.mp hmem)).2.probability

namespace Model

theorem collects_of_listing {head rest : List Char} {fields : Fields}
    {lines : List (Symbol × Production)} {text : String} {model : Model}
    (h : parse text = .ok model) (htext : text = .ofList (head ++ rest))
    (hhead : IsHead head fields) (listing : Listing rest lines) :
    model.productions.Collects lines := by
  subst htext
  obtain rfl := Except.ok.inj ((parse_of_listing hhead listing).symm.trans h)
  exact Table.collects_ofList lines

/-- However a description is cut into its head and its lines, a predecessor has an imbalance if it
has lines and what these weigh together, added from the left, is farther from one than a
thousand-millionth. -/
theorem imbalances_of_parse {text : String} {model : Model} (h : parse text = .ok model) :
    (model.imbalances.map Imbalance.predecessor).Pairwise (· < ·) ∧
    (∃ head fields rest lines, text = .ofList (head ++ rest) ∧ IsHead head fields ∧
      Listing rest lines) ∧
    (∀ head fields rest lines, text = .ofList (head ++ rest) → IsHead head fields →
      Listing rest lines →
        (∀ predecessor, (totalOf lines predecessor).isFinite = true) ∧
        ∀ imbalance : Imbalance, imbalance ∈ model.imbalances ↔
          alternatives lines imbalance.predecessor ≠ [] ∧
            imbalance.total = totalOf lines imbalance.predecessor ∧
            1 / 10 ^ 9 < |imbalance.total.toRat - 1|) ∧
    ∃ other, parse model.canonical = .ok other ∧ other.imbalances = model.imbalances := by
  refine ⟨model.increasing_imbalances, ?_, fun head fields rest lines htext hhead listing => ?_, ?_⟩
  · obtain ⟨head, rest, lines, htext, hhead, listing, _⟩ := exists_listing_of_parse h
    exact ⟨head, model.head, rest, lines, htext, hhead, listing⟩
  · refine ⟨fun predecessor => (listing.lines.isTotal predecessor).isFinite, fun imbalance => ?_⟩
    rw [(collects_of_listing h htext hhead listing).mem_imbalances_iff]
    refine and_congr_right fun _ => and_congr_right fun htotal => ?_
    rw [htotal]
    exact (listing.lines.isTotal imbalance.predecessor).isUnbalanced_iff
  · exact ⟨model, parse_canonical_of_wellFormed (wellFormed_of_document (document_of_parse h)), rfl⟩

/-- A head to put lines below. -/
theorem isHead_short : IsHead "generations:1\nangle:0\nscale:1\naxiom:F\n".toList
    ⟨1, .zero false, .one, [.moveForward]⟩ :=
  @Scanner.isHead_of_run _ '!' _ (Scanner.fields.run (.ofChars
    ("generations:1\nangle:0\nscale:1\naxiom:F\n".toList ++ ['!']))).2
    (by decide +kernel) (by decide +kernel)

/-- The lines of a predecessor add up to three quarters past a line of another one, which weighs
one. -/
theorem imbalances_of_parse_interleaved :
    ∃ model lines, parse (.ofList ("generations:1\nangle:0\nscale:1\naxiom:F\n".toList ++
        "F(0.5)->F\nX->F\nF(.25)->FF".toList)) = .ok model ∧
      Listing "F(0.5)->F\nX->F\nF(.25)->FF".toList lines ∧
      (model.imbalances.map Imbalance.predecessor).Pairwise (· < ·) ∧
      totalOf lines .moveForward = .ofDecimal false ⟨75, -2⟩ ∧
      (Binary64.ofDecimal false ⟨75, -2⟩).toRat = 3 / 4 ∧
      (⟨.moveForward, .ofDecimal false ⟨75, -2⟩⟩ : Imbalance) ∈ model.imbalances ∧
      (∀ total, (⟨.letter 'X', total⟩ : Imbalance) ∉ model.imbalances) ∧
      ∃ other, parse model.canonical = .ok other ∧ other.imbalances = model.imbalances := by
  have half : ReadsAs "F(0.5)->F".toList
      (.moveForward, ⟨.ofDecimal false ⟨5, -1⟩, [.moveForward]⟩) := by decide +kernel
  have certain : ReadsAs "X->F".toList (.letter 'X', ⟨.one, [.moveForward]⟩) := by decide +kernel
  have quarter : ReadsAs "F(.25)->FF".toList
      (.moveForward, ⟨.ofDecimal false ⟨25, -2⟩, [.moveForward, .moveForward]⟩) := by
    decide +kernel
  have newline : ∀ rest, LineEnd (['\n'] ++ rest) rest := fun rest => .intro .done .newline .done
  let lines : List (Symbol × Production) :=
    [(.moveForward, ⟨.ofDecimal false ⟨5, -1⟩, [.moveForward]⟩),
      (.letter 'X', ⟨.one, [.moveForward]⟩),
      (.moveForward, ⟨.ofDecimal false ⟨25, -2⟩, [.moveForward, .moveForward]⟩)]
  have listing : Listing "F(0.5)->F\nX->F\nF(.25)->FF".toList lines :=
    .more half (newline _) (.more certain (newline _) (.last quarter (.spaces .done)))
  have hparse := parse_of_listing isHead_short listing
  obtain ⟨hincreasing, _, hlines, hcanonical⟩ := imbalances_of_parse hparse
  obtain ⟨_, hmem⟩ := hlines _ _ _ _ rfl isHead_short listing
  have hfar := (listing.lines.isTotal .moveForward).isUnbalanced_iff.mp (by decide +kernel)
  have hnear := mt (listing.lines.isTotal (.letter 'X')).isUnbalanced_iff.mpr (by decide +kernel)
  have htotal : totalOf lines .moveForward = .ofDecimal false ⟨75, -2⟩ := by decide +kernel
  have hquarters : Binary64.ofDecimal false ⟨75, -2⟩ =
      .finite false ⟨3 * 2 ^ 1072, by decide +kernel⟩ := by decide +kernel
  have hpower (places : ℕ) : ((3 * 2 ^ places : ℕ) : ℚ) / 2 ^ (places + 2) = 3 / 4 := by
    rw [pow_add, div_eq_div_iff (by positivity) (by norm_num)]
    push_cast
    ring
  have hrational : (Binary64.ofDecimal false ⟨75, -2⟩).toRat = 3 / 4 := by
    rw [hquarters, Binary64.toRat_positive, Binary64.Magnitude.size]
    exact hpower 1072
  refine ⟨_, _, hparse, listing, hincreasing, htotal, hrational,
    htotal ▸ (hmem _).mpr ⟨by decide, rfl, hfar⟩, fun total hother => ?_, hcanonical⟩
  obtain ⟨_, hother, hshown⟩ := (hmem _).mp hother
  rw [hother] at hshown
  exact hnear hshown

end Model

end Lindenmayer
