import Lindenmayer.Proofs.Accumulation
import Lindenmayer.Proofs.Arithmetic.Sums
import Lindenmayer.Proofs.Reading.Thresholds

namespace Lindenmayer

open Binary64

namespace Grammar

/-- The number in parentheses that an alternative weighs, or one without them. -/
inductive WrittenWeight : List Char → ℚ → List Char → Prop
  | absent {rest : List Char} : WrittenWeight rest 1 rest
  | present {inner behind outer rest : List Char} (literal : NumberLiteral)
      (opening : Layout inner (literal.chars ++ behind)) (closing : Layout behind (')' :: outer))
      (layout : Layout outer rest) (positive : 1 / 2 ^ 1075 < literal.exact)
      (bounded : literal.exact ≤ 1 + 1 / 2 ^ 53) : WrittenWeight ('(' :: inner) literal.exact rest

inductive WrittenLine : List Char → Symbol × ℚ → List Char → Prop
  | intro {char : Char} {source inner weight behind run rest : List Char} {size : ℚ}
      {successor : Word} (opening : Layout source (char :: inner)) (symbol : StandsForSymbol char)
      (layout : Layout inner weight) (weighted : WrittenWeight weight size ('-' :: '>' :: behind))
      (closing : Layout behind run) (written : Run run successor rest) :
      WrittenLine source (.ofChar char, size) rest

inductive WrittenLines : List Char → List (Symbol × ℚ) → Prop
  | last {source rest : List Char} {entry : Symbol × ℚ} (read : WrittenLine source entry rest)
      (idle : Idle rest) : WrittenLines source [entry]
  | more {source behind next : List Char} {entry : Symbol × ℚ} {others : List (Symbol × ℚ)}
      (read : WrittenLine source entry behind) (lineEnd : LineEnd behind next)
      (lines : WrittenLines next others) : WrittenLines source (entry :: others)

structure IsWritten (line : Symbol × Production) (entry : Symbol × ℚ) : Prop where
  predecessor : line.1 = entry.1
  rounded : IsRounded line.2.probability entry.2

theorem isRounded_one : IsRounded .one 1 := by
  have rounds := rounds_self false ⟨_, representable_one⟩
  rw [← toRat_positive, ← one, toRat_one] at rounds
  exact ⟨isProbability_one, rounds⟩

theorem WrittenWeight.exists_weight {source rest : List Char} {size : ℚ}
    (written : WrittenWeight source size rest) :
    ∃ value, Weight source value rest ∧ IsRounded value size := by
  cases written with
  | absent => exact ⟨_, .absent, isRounded_one⟩
  | present literal opening closing layout positive bounded =>
      have hallowed := literal.isProbability_value_iff.mpr ⟨positive, bounded⟩
      exact ⟨literal.value,
        .present opening (.intro literal (rounds_ofDecimal _ _) hallowed.isFinite) closing layout
          hallowed,
        hallowed, NumberLiteral.rounds_of_isProbability hallowed⟩

theorem Weight.exists_written {source rest : List Char} {value : Binary64}
    (weight : Weight source value rest) :
    ∃ size, WrittenWeight source size rest ∧ IsRounded value size := by
  cases weight with
  | absent => exact ⟨_, .absent, isRounded_one⟩
  | present opening read closing layout allowed =>
      cases read with
      | intro literal rounds finite =>
          obtain rfl := rounds_size_iff.mp rounds
          obtain ⟨hpositive, hbounded⟩ := literal.isProbability_value_iff.mp allowed
          exact ⟨_, .present literal opening closing layout hpositive hbounded, allowed,
            NumberLiteral.rounds_of_isProbability allowed⟩

theorem WrittenLine.exists_line {source rest : List Char} {entry : Symbol × ℚ}
    (written : WrittenLine source entry rest) :
    ∃ line, Line source line rest ∧ IsWritten line entry := by
  cases written with
  | intro opening symbol layout weighted closing run =>
      obtain ⟨value, hweight, hrounded⟩ := weighted.exists_weight
      exact ⟨_, .intro opening symbol layout hweight closing run, rfl, hrounded⟩

theorem Line.exists_written {source rest : List Char} {line : Symbol × Production}
    (read : Line source line rest) :
    ∃ entry, WrittenLine source entry rest ∧ IsWritten line entry := by
  cases read with
  | intro opening symbol layout weighted closing run =>
      obtain ⟨size, hwritten, hrounded⟩ := weighted.exists_written
      exact ⟨_, .intro opening symbol layout hwritten closing run, rfl, hrounded⟩

theorem WrittenLines.exists_lines {source : List Char} {entries : List (Symbol × ℚ)}
    (written : WrittenLines source entries) :
    ∃ lines, Lines source lines ∧ List.Forall₂ IsWritten lines entries := by
  induction written with
  | last read idle =>
      obtain ⟨line, hline, hwritten⟩ := read.exists_line
      exact ⟨[line], .last hline idle, .cons hwritten .nil⟩
  | more read lineEnd _ ih =>
      obtain ⟨line, hline, hwritten⟩ := read.exists_line
      obtain ⟨lines, hlines, hothers⟩ := ih
      exact ⟨line :: lines, .more hline lineEnd hlines, .cons hwritten hothers⟩

theorem Lines.exists_written {source : List Char} {lines : List (Symbol × Production)}
    (read : Lines source lines) :
    ∃ entries, WrittenLines source entries ∧ List.Forall₂ IsWritten lines entries := by
  induction read with
  | last read idle =>
      obtain ⟨entry, hentry, hwritten⟩ := read.exists_written
      exact ⟨[entry], .last hentry idle, .cons hwritten .nil⟩
  | more read lineEnd _ ih =>
      obtain ⟨entry, hentry, hwritten⟩ := read.exists_written
      obtain ⟨entries, hentries, hothers⟩ := ih
      exact ⟨entry :: entries, .more hentry lineEnd hentries, .cons hwritten hothers⟩

end Grammar

/-- What the lines of one predecessor weigh as they are written, in their order. -/
def weightsOf (entries : List (Symbol × ℚ)) (predecessor : Symbol) : List ℚ :=
  (entries.filter (fun entry => entry.1 = predecessor)).map Prod.snd

theorem weightsOf_cons (entry : Symbol × ℚ) (entries : List (Symbol × ℚ)) (predecessor : Symbol) :
    weightsOf (entry :: entries) predecessor =
      if entry.1 = predecessor then entry.2 :: weightsOf entries predecessor
      else weightsOf entries predecessor := by
  by_cases h : entry.1 = predecessor
  · simp [weightsOf, h]
  · simp [weightsOf, h]

theorem isRounded_weightsOf {lines : List (Symbol × Production)} {entries : List (Symbol × ℚ)}
    (h : List.Forall₂ Grammar.IsWritten lines entries) (predecessor : Symbol) :
    List.Forall₂ IsRounded ((alternatives lines predecessor).map Production.probability)
      (weightsOf entries predecessor) := by
  induction h with
  | nil => exact .nil
  | cons hwritten _ ih =>
      rw [alternatives_cons, weightsOf_cons, hwritten.predecessor]
      split
      · exact .cons hwritten.rounded ih
      · exact ih

end Lindenmayer
