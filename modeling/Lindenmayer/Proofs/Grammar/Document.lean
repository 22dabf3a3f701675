import Lindenmayer.Literal.Number
import Lindenmayer.Model
import Lindenmayer.Proofs.Alternatives
import Lindenmayer.Proofs.Grammar.Layout
import Lindenmayer.Proofs.Rounding

/-! A part relates a text, the value of the part, and what is left of the text behind it. -/

namespace Lindenmayer

namespace Grammar

inductive Integer : List Char → Int → List Char → Prop
  | intro {rest : List Char} (literal : IntegerLiteral) :
      Integer (literal.chars ++ rest) literal.value rest

def Count (source : List Char) (value : UInt32) (rest : List Char) : Prop :=
  Integer source value.toNat rest

/-- A written number, rounded; it must not be beyond the finite ones. -/
inductive Number : List Char → Binary64 → List Char → Prop
  | intro {value : Binary64} {rest : List Char} (literal : NumberLiteral)
      (rounds : Binary64.Rounds literal.sign.isNegative literal.decimal.size value)
      (finite : value.isFinite = true) : Number (literal.chars ++ rest) value rest

/-- One symbol or more, with spaces anywhere behind the first. -/
inductive Run : List Char → Word → List Char → Prop
  | one {char : Char} {source rest : List Char} (symbol : StandsForSymbol char)
      (spaces : Spaces source rest) : Run (char :: source) [.ofChar char] rest
  | more {char : Char} {source next rest : List Char} {word : Word} (symbol : StandsForSymbol char)
      (spaces : Spaces source next) (run : Run next word rest) :
      Run (char :: source) (.ofChar char :: word) rest

/-- The weight of an alternative in parentheses, or nothing for certainty. -/
inductive Weight : List Char → Binary64 → List Char → Prop
  | absent {rest : List Char} : Weight rest .one rest
  | present {inner number behind outer rest : List Char} {value : Binary64}
      (opening : Layout inner number) (read : Number number value behind)
      (closing : Layout behind (')' :: outer)) (layout : Layout outer rest)
      (allowed : value.IsProbability) : Weight ('(' :: inner) value rest

inductive Line : List Char → Symbol × Production → List Char → Prop
  | intro {char : Char} {source inner weight behind run rest : List Char}
      {probability : Binary64} {successor : Word} (opening : Layout source (char :: inner))
      (symbol : StandsForSymbol char) (layout : Layout inner weight)
      (weighted : Weight weight probability ('-' :: '>' :: behind)) (closing : Layout behind run)
      (written : Run run successor rest) :
      Line source (.ofChar char, ⟨probability, successor⟩) rest

/-- Lines up to the end of the text, where idle lines may follow. -/
inductive Lines : List Char → List (Symbol × Production) → Prop
  | last {source rest : List Char} {line : Symbol × Production} (read : Line source line rest)
      (idle : Idle rest) : Lines source [line]
  | more {source behind next : List Char} {line : Symbol × Production}
      {others : List (Symbol × Production)} (read : Line source line behind)
      (lineEnd : LineEnd behind next) (lines : Lines next others) : Lines source (line :: others)

inductive Field {α : Type} (keyword : List Char) (Value : List Char → α → List Char → Prop) :
    List Char → α → List Char → Prop
  | intro {source inner written behind rest : List Char} {value : α}
      (opening : Layout source (keyword ++ inner)) (layout : Layout inner written)
      (read : Value written value behind) (lineEnd : LineEnd behind rest) :
      Field keyword Value source value rest

inductive Document (text : List Char) (model : Model) : Prop
  | intro {second third fourth rest : List Char} {lines : List (Symbol × Production)}
      (generations : Field "generations:".toList Count text model.generations second)
      (angle : Field "angle:".toList Number second model.angle third)
      (scale : Field "scale:".toList Number third model.scale fourth)
      (seed : Field "axiom:".toList Run fourth model.seed rest)
      (productions : Lines rest lines) (table : model.productions.Collects lines)

theorem standsForSymbol_of_isDigit {char : Char} (h : char.isDigit = true) :
    StandsForSymbol char := by
  refine ⟨?_, ?_, ?_⟩ <;> rintro rfl <;> simp at h

theorem startsToken_digits {digits : Digits} (h : digits.chars ≠ []) :
    StartsToken digits.chars := by
  cases hchars : digits.chars with
  | nil => exact absurd hchars h
  | cons char rest =>
      exact startsToken_cons (standsForSymbol_of_isDigit (digits.isDigit char (by simp [hchars])))

theorem startsToken_sign {sign : Sign} {rest : List Char} (h : StartsToken rest) :
    StartsToken (sign.chars ++ rest) := by
  cases sign with
  | absent => exact h
  | plus => exact startsToken_cons (by decide)
  | minus => exact startsToken_cons (by decide)

theorem Integer.startsToken {source rest : List Char} {value : Int}
    (read : Integer source value rest) : StartsToken source := by
  cases read with
  | intro literal => exact (startsToken_sign (startsToken_digits literal.hasDigits)).append rest

theorem startsToken_number (literal : NumberLiteral) (rest : List Char) :
    StartsToken (literal.chars ++ rest) := by
  rw [NumberLiteral.chars, List.append_assoc, List.append_assoc, List.append_assoc]
  apply startsToken_sign
  by_cases hwhole : literal.whole.chars = []
  · cases hfraction : literal.fraction with
    | none => exact absurd (by simp [hwhole, hfraction]) literal.hasDigits
    | some digits =>
        rw [hwhole]
        exact startsToken_cons (by decide)
  · exact (startsToken_digits hwhole).append _

theorem Number.startsToken {source rest : List Char} {value : Binary64}
    (read : Number source value rest) : StartsToken source := by
  cases read with
  | intro literal _ _ => exact startsToken_number literal rest

theorem Run.exists_cons {source rest : List Char} {word : Word} (run : Run source word rest) :
    ∃ char tail others, source = char :: tail ∧ StandsForSymbol char ∧
      word = .ofChar char :: others := by
  cases run with
  | one symbol _ => exact ⟨_, _, _, rfl, symbol, rfl⟩
  | more symbol _ _ => exact ⟨_, _, _, rfl, symbol, rfl⟩

theorem Run.startsToken {source rest : List Char} {word : Word} (run : Run source word rest) :
    StartsToken source := by
  obtain ⟨char, tail, _, rfl, hchar, _⟩ := run.exists_cons
  exact startsToken_cons hchar

theorem Field.tokenAhead {α : Type} {keyword source rest : List Char}
    {Value : List Char → α → List Char → Prop} {value : α}
    (field : Field keyword Value source value rest) (h : StartsToken keyword) :
    TokenAhead source := by
  cases field with
  | intro opening _ _ _ => exact ⟨_, opening, h.append _⟩

theorem Line.tokenAhead {source rest : List Char} {line : Symbol × Production}
    (read : Line source line rest) : TokenAhead source := by
  cases read with
  | intro opening symbol _ _ _ _ => exact ⟨_, opening, startsToken_cons symbol⟩

theorem Lines.tokenAhead {source : List Char} {lines : List (Symbol × Production)}
    (read : Lines source lines) : TokenAhead source := by
  cases read with
  | last read _ => exact read.tokenAhead
  | more read _ _ => exact read.tokenAhead

theorem Field.of_layout {α : Type} {keyword source middle rest : List Char}
    {Value : List Char → α → List Char → Prop} {value : α}
    (field : Field keyword Value source value rest) (h : StartsToken keyword)
    (layout : Layout source middle) : Field keyword Value middle value rest := by
  cases field with
  | intro opening inner read lineEnd =>
      exact .intro (layout.resume opening (h.append _).isStuck) inner read lineEnd

theorem Line.of_layout {source middle rest : List Char} {line : Symbol × Production}
    (read : Line source line rest) (layout : Layout source middle) : Line middle line rest := by
  cases read with
  | intro opening symbol inner weighted closing written =>
      exact .intro (layout.resume opening (startsToken_cons symbol).isStuck) symbol inner weighted
        closing written

end Grammar

end Lindenmayer
