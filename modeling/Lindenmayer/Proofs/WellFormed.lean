import Lindenmayer.Proofs.Arithmetic.Order
import Lindenmayer.Proofs.Parsing

namespace Lindenmayer

open Grammar

/-- A symbol as a character of a description gives it. -/
def Symbol.IsPlain (symbol : Symbol) : Prop :=
  symbol.IsCanonical ∧ symbol ≠ letter ' ' ∧ symbol ≠ letter '\n' ∧ symbol ≠ letter '#'

instance (symbol : Symbol) : Decidable symbol.IsPlain :=
  inferInstanceAs (Decidable (_ ∧ _))

structure Word.WellFormed (word : Word) : Prop where
  ne_nil : word ≠ []
  isPlain : ∀ symbol ∈ word, symbol.IsPlain

structure Production.WellFormed (production : Production) : Prop where
  probability : production.probability.IsProbability
  successor : Word.WellFormed production.successor

structure Table.Entry.WellFormed (entry : Table.Entry) : Prop where
  predecessor : entry.1.IsPlain
  ne_nil : entry.2 ≠ []
  productions : ∀ production ∈ entry.2, production.WellFormed

structure Model.WellFormed (model : Model) : Prop where
  angle : model.angle.isFinite = true
  scale : model.scale.isFinite = true
  seed : Word.WellFormed model.seed
  ne_nil : model.productions.entries ≠ []
  entries : ∀ entry ∈ model.productions.entries, Table.Entry.WellFormed entry

theorem Symbol.isPlain_ofChar {char : Char} (h : StandsForSymbol char) :
    (ofChar char).IsPlain := by
  obtain ⟨hspace, hnewline, hmark⟩ := h
  refine ⟨isCanonical_ofChar char, ?_, ?_, ?_⟩
  · intro heq
    exact hspace (by simpa using congrArg Symbol.char heq)
  · intro heq
    exact hnewline (by simpa using congrArg Symbol.char heq)
  · intro heq
    exact hmark (by simpa using congrArg Symbol.char heq)

theorem Symbol.IsPlain.standsForSymbol {symbol : Symbol} (h : symbol.IsPlain) :
    StandsForSymbol symbol.char := by
  obtain ⟨_, hspace, hnewline, hmark⟩ := h
  cases symbol with
  | moveForward => decide
  | jumpForward => decide
  | letter char =>
      refine ⟨?_, ?_, ?_⟩
      · rintro rfl
        exact hspace rfl
      · rintro rfl
        exact hnewline rfl
      · rintro rfl
        exact hmark rfl

section Lists

variable {α : Type} [BEq α]

theorem forall_mem_of_beq {left right : List α} {Holds : α → Prop}
    (hstep : ∀ first second, (first == second) = true → Holds first → Holds second)
    (h : ∀ item ∈ left, Holds item) (heq : (left == right) = true) :
    ∀ item ∈ right, Holds item := by
  induction left generalizing right with
  | nil =>
      cases right with
      | nil => exact h
      | cons second right => simp at heq
  | cons first left ih =>
      cases right with
      | nil => simp at heq
      | cons second right =>
          rw [List.cons_beq_cons, Bool.and_eq_true] at heq
          intro item hmem
          rcases List.mem_cons.mp hmem with rfl | hmem
          · exact hstep first item heq.1 (h first List.mem_cons_self)
          · exact ih (fun item hmem => h item (.tail _ hmem)) heq.2 item hmem

theorem beq_self_of_forall {list : List α} (h : ∀ item ∈ list, (item == item) = true) :
    (list == list) = true := by
  induction list with
  | nil => rfl
  | cons first list ih =>
      rw [List.cons_beq_cons, Bool.and_eq_true]
      exact ⟨h first List.mem_cons_self, ih (fun item hmem => h item (.tail _ hmem))⟩

theorem ne_nil_of_beq {left right : List α} (h : left ≠ []) (heq : (left == right) = true) :
    right ≠ [] := by
  rintro rfl
  cases left with
  | nil => exact h rfl
  | cons first left => simp at heq

end Lists

theorem Production.beq_iff {left right : Production} :
    (left == right) = true ↔
      (left.probability == right.probability) = true ∧ left.successor = right.successor := by
  change (left.probability == right.probability && left.successor == right.successor) = true ↔ _
  rw [Bool.and_eq_true, @beq_iff_eq _ _ _ left.successor]

theorem Table.Entry.beq_iff {left right : Table.Entry} :
    (left == right) = true ↔ left.1 = right.1 ∧ (left.2 == right.2) = true := by
  change (left.1 == right.1 && left.2 == right.2) = true ↔ _
  rw [Bool.and_eq_true, beq_iff_eq]

theorem Model.beq_iff {left right : Model} :
    (left == right) = true ↔ left.generations = right.generations ∧
      (left.angle == right.angle) = true ∧ (left.scale == right.scale) = true ∧
      left.seed = right.seed ∧
      (left.productions.entries == right.productions.entries) = true := by
  change (left.generations == right.generations && (left.angle == right.angle &&
    (left.scale == right.scale && (left.seed == right.seed &&
      left.productions.entries == right.productions.entries)))) = true ↔ _
  rw [Bool.and_eq_true, Bool.and_eq_true, Bool.and_eq_true, Bool.and_eq_true, beq_iff_eq,
    @beq_iff_eq _ _ _ left.seed]

theorem Production.WellFormed.of_beq {left right : Production} (heq : (left == right) = true)
    (h : left.WellFormed) : right.WellFormed := by
  obtain ⟨hprobability, hsuccessor⟩ := Production.beq_iff.mp heq
  exact ⟨h.probability.of_beq hprobability, hsuccessor ▸ h.successor⟩

theorem Table.Entry.WellFormed.of_beq {left right : Table.Entry} (heq : (left == right) = true)
    (h : left.WellFormed) : right.WellFormed := by
  obtain ⟨hpredecessor, hproductions⟩ := Table.Entry.beq_iff.mp heq
  exact ⟨hpredecessor ▸ h.predecessor, ne_nil_of_beq h.ne_nil hproductions,
    forall_mem_of_beq (fun _ _ => Production.WellFormed.of_beq) h.productions hproductions⟩

theorem Model.WellFormed.of_beq {left right : Model} (heq : (left == right) = true)
    (h : left.WellFormed) : right.WellFormed := by
  obtain ⟨_, hangle, hscale, hseed, hentries⟩ := Model.beq_iff.mp heq
  exact ⟨Binary64.isFinite_of_beq h.angle hangle, Binary64.isFinite_of_beq h.scale hscale,
    hseed ▸ h.seed, ne_nil_of_beq h.ne_nil hentries,
    forall_mem_of_beq (fun _ _ => Table.Entry.WellFormed.of_beq) h.entries hentries⟩

theorem Model.WellFormed.beq_self {model : Model} (h : model.WellFormed) :
    (model == model) = true := by
  refine Model.beq_iff.mpr ⟨rfl, ?_, ?_, rfl, ?_⟩
  · exact Binary64.beq_self_iff.mpr (Binary64.ne_nan_of_isFinite h.angle)
  · exact Binary64.beq_self_iff.mpr (Binary64.ne_nan_of_isFinite h.scale)
  · refine beq_self_of_forall fun entry hentry => Table.Entry.beq_iff.mpr ⟨rfl, ?_⟩
    refine beq_self_of_forall fun production hmem => Production.beq_iff.mpr ⟨?_, rfl⟩
    have hproduction := (h.entries entry hentry).productions production hmem
    exact Binary64.beq_self_iff.mpr hproduction.probability.ne_nan

theorem Grammar.Run.wellFormed {source rest : List Char} {word : Word}
    (run : Run source word rest) : word.WellFormed := by
  induction run with
  | one symbol _ =>
      refine ⟨List.cons_ne_nil _ _, fun other hmem => ?_⟩
      rw [List.mem_singleton.mp hmem]
      exact Symbol.isPlain_ofChar symbol
  | more symbol _ _ ih =>
      refine ⟨List.cons_ne_nil _ _, fun other hmem => ?_⟩
      rcases List.mem_cons.mp hmem with rfl | hmem
      · exact Symbol.isPlain_ofChar symbol
      · exact ih.isPlain other hmem

theorem Grammar.Weight.isProbability {source rest : List Char} {value : Binary64}
    (weight : Weight source value rest) : value.IsProbability := by
  cases weight with
  | absent => exact Binary64.isProbability_one
  | present _ _ _ _ allowed => exact allowed

theorem Grammar.Line.wellFormed {source rest : List Char} {line : Symbol × Production}
    (read : Line source line rest) : line.1.IsPlain ∧ line.2.WellFormed := by
  cases read with
  | intro _ symbol _ weighted _ written =>
      exact ⟨Symbol.isPlain_ofChar symbol, weighted.isProbability, written.wellFormed⟩

theorem Grammar.Lines.wellFormed {source : List Char} {lines : List (Symbol × Production)}
    (read : Lines source lines) :
    lines ≠ [] ∧ ∀ line ∈ lines, line.1.IsPlain ∧ line.2.WellFormed := by
  induction read with
  | last read _ =>
      refine ⟨List.cons_ne_nil _ _, fun line hmem => ?_⟩
      rw [List.mem_singleton.mp hmem]
      exact read.wellFormed
  | more read _ _ ih =>
      refine ⟨List.cons_ne_nil _ _, fun line hmem => ?_⟩
      rcases List.mem_cons.mp hmem with rfl | hmem
      · exact read.wellFormed
      · exact ih.2 line hmem

theorem Grammar.Field.exists_read {α : Type} {keyword source rest : List Char}
    {Value : List Char → α → List Char → Prop} {value : α}
    (field : Field keyword Value source value rest) : ∃ written behind, Value written value behind := by
  cases field with
  | intro _ _ read _ => exact ⟨_, _, read⟩

theorem Grammar.Number.isFinite {source rest : List Char} {value : Binary64}
    (read : Number source value rest) : value.isFinite = true := by
  cases read with
  | intro _ _ finite => exact finite

theorem Model.wellFormed_of_document {text : List Char} {model : Model} (h : Document text model) :
    model.WellFormed := by
  obtain ⟨_, angle, scale, seed, lines, table⟩ := h
  obtain ⟨_, _, angle⟩ := angle.exists_read
  obtain ⟨_, _, scale⟩ := scale.exists_read
  obtain ⟨_, _, seed⟩ := seed.exists_read
  obtain ⟨hlines, hmember⟩ := lines.wellFormed
  refine ⟨angle.isFinite, scale.isFinite, seed.wellFormed, table.entries_ne_nil hlines, ?_⟩
  intro entry hentry
  have hne := (table.eq_of_mem hentry).1
  obtain ⟨first, hfirst⟩ := List.exists_mem_of_ne_nil _ hne
  refine ⟨(hmember _ (table.mem_of_mem hentry hfirst)).1, hne, fun production hmem => ?_⟩
  exact (hmember _ (table.mem_of_mem hentry hmem)).2

/-- What is read is well formed, so it is equal to itself also numerically. -/
theorem Model.wellFormed_of_parse {text : String} {model : Model}
    (h : Model.parse text = .ok model) :
    model.WellFormed ∧ model.productions.predecessors.Pairwise (· < ·) ∧
      (∀ entry ∈ model.productions.entries, ∀ production ∈ entry.2,
        production.probability ≠ .nan ∧ .zero false < production.probability ∧
          production.probability ≤ .one) ∧
      (model == model) = true := by
  have hwell := wellFormed_of_document (document_of_parse h)
  refine ⟨hwell, ?_, fun entry hentry production hmem => ?_, hwell.beq_self⟩
  · exact List.pairwise_map.mpr model.productions.increasing
  · have hprobability := ((hwell.entries entry hentry).productions production hmem).probability
    exact ⟨hprobability.ne_nan, hprobability⟩

theorem Model.wellFormed_of_parse_weighted :
    ∃ model,
      Model.parse "generations:1\nangle:-0\nscale:1\naxiom:F\nX(.25)->f\nF->X # turn\nX(.5)->F" =
        .ok model ∧
      model.WellFormed ∧
      model.productions.entries =
        [(.moveForward, [⟨.one, [.letter 'X']⟩]),
          (.letter 'X', [⟨.ofDecimal false ⟨25, -2⟩, [.jumpForward]⟩,
            ⟨.ofDecimal false ⟨5, -1⟩, [.moveForward]⟩])] ∧
      model.productions.predecessors.Pairwise (· < ·) ∧
      (∀ entry ∈ model.productions.entries, ∀ production ∈ entry.2,
        production.probability ≠ .nan ∧ .zero false < production.probability ∧
          production.probability ≤ .one) ∧
      (model == model) = true := by
  have hparse :
      Model.parse "generations:1\nangle:-0\nscale:1\naxiom:F\nX(.25)->f\nF->X # turn\nX(.5)->F" =
        .ok ⟨1, .zero true, .one, [.moveForward],
          .ofList [(.letter 'X', ⟨.ofDecimal false ⟨25, -2⟩, [.jumpForward]⟩),
            (.moveForward, ⟨.one, [.letter 'X']⟩),
            (.letter 'X', ⟨.ofDecimal false ⟨5, -1⟩, [.moveForward]⟩)]⟩ := by decide +kernel
  obtain ⟨hwell, hincreasing, hweights, hsame⟩ := wellFormed_of_parse hparse
  exact ⟨_, hparse, hwell, by decide +kernel, hincreasing, hweights, hsame⟩

end Lindenmayer
