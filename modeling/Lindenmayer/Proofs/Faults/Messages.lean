import Lindenmayer.Proofs.Faults.Telling
import Lindenmayer.Proofs.Grammar.Trailing
import Lindenmayer.Proofs.Reading.Counting

namespace Lindenmayer

open Grammar

namespace Text

/-- Holds nothing that steers a terminal, and so no line end either. -/
def IsInert (chars : List Char) : Prop :=
  ∀ char ∈ chars, ¬IsControl char

instance (chars : List Char) : Decidable (IsInert chars) :=
  List.decidableBAll (¬IsControl ·) chars

theorem isInert_nil : IsInert [] := nofun

theorem isInert_cons {char : Char} {chars : List Char} :
    IsInert (char :: chars) ↔ ¬IsControl char ∧ IsInert chars :=
  List.forall_mem_cons

theorem IsInert.append {left right : List Char} (hleft : IsInert left) (hright : IsInert right) :
    IsInert (left ++ right) :=
  List.forall_mem_append.mpr ⟨hleft, hright⟩

theorem IsInert.appendText {left right : String} (hleft : IsInert left.toList)
    (hright : IsInert right.toList) : IsInert (left ++ right).toList := by
  rw [String.toList_append]
  exact hleft.append hright

theorem not_isControl_digitChar (digit : Nat) : ¬IsControl digit.digitChar := by
  by_cases h : digit < 16
  · have hdigits : ∀ digit < 16, ¬IsControl (Nat.digitChar digit) := by decide
    exact hdigits digit h
  · rw [Nat.digitChar_eq_star.mpr (Nat.le_of_not_lt h)]
    decide

theorem isInert_toDigits {base : Nat} (hbase : 1 < base) (value : Nat) :
    IsInert (Nat.toDigits base value) := by
  induction value using Nat.strongRecOn with
  | _ value ih =>
      have hlast (digit : Nat) : IsInert [digit.digitChar] :=
        isInert_cons.mpr ⟨not_isControl_digitChar digit, isInert_nil⟩
      rw [Nat.toDigits_eq_if hbase]
      split
      · exact hlast value
      · rename_i hlarge
        have hsmaller : value / base < value := Nat.div_lt_self (by omega) hbase
        exact (ih (value / base) hsmaller).append (hlast _)

theorem isInert_toString (value : Nat) : IsInert (toString value).toList := by
  rw [Nat.toString_eq_repr, Nat.toList_repr]
  exact isInert_toDigits (by decide) value

theorem isInert_escape {quote : Char} (hquote : ¬IsControl quote) (char : Char) :
    IsInert (escape quote char) := by
  unfold escape
  split
  · decide
  split
  · decide
  split
  · decide
  split
  · decide
  split
  · rename_i hchar
    have hshown : ¬IsControl char := by
      rcases hchar with rfl | rfl
      · decide
      · exact hquote
    exact isInert_cons.mpr ⟨by decide, isInert_cons.mpr ⟨hshown, isInert_nil⟩⟩
  split
  · rename_i hplain
    have hshown : ¬IsControl char := fun h => by simp [not_isPlain_of_isControl h] at hplain
    exact isInert_cons.mpr ⟨hshown, isInert_nil⟩
  · exact (IsInert.append (by decide) (isInert_toDigits (by decide) _)).append (by decide)

theorem isInert_quoted {quote : Char} (hquote : ¬IsControl quote) (chars : List Char) :
    IsInert (quoted quote chars) := by
  have hinner : IsInert (chars.flatMap (escape quote)) := by
    intro shown hmem
    obtain ⟨char, _, hshown⟩ := List.mem_flatMap.mp hmem
    exact isInert_escape hquote char shown hshown
  exact (isInert_cons.mpr ⟨hquote, hinner⟩).append (isInert_cons.mpr ⟨hquote, isInert_nil⟩)

theorem isInert_quotedString (chars : List Char) :
    IsInert (String.ofList (quotedString chars)).toList := by
  rw [String.toList_ofList]
  exact isInert_quoted (by decide) chars

theorem getLast?_quotedString (chars : List Char) :
    (String.ofList (quotedString chars)).toList.getLast? = some '\x22' := by
  rw [String.toList_ofList]
  exact List.getLast?_concat

theorem head?_append {left right : String} {char : Char} (h : left.toList.head? = some char) :
    (left ++ right).toList.head? = some char := by
  rw [String.toList_append, List.head?_append, h, Option.some_or]

theorem getLast?_append {left right : String} {char : Char}
    (h : right.toList.getLast? = some char) : (left ++ right).toList.getLast? = some char := by
  rw [String.toList_append, List.getLast?_append, h, Option.some_or]

end Text

theorem Grammar.InNumber.not_isControl {char : Char} (h : InNumber char) :
    ¬Text.IsControl char := by
  rcases h with hdigit | hmark
  · obtain ⟨hlow, hhigh⟩ : 48 ≤ char.toNat ∧ char.toNat ≤ 57 := Char.isDigit_iff_toNat.mp hdigit
    unfold Text.IsControl
    omega
  · have hmarks : Text.IsInert ['+', '-', '.', 'e', 'E'] := by decide
    exact hmarks char hmark

theorem IntegerLiteral.isInert_chars (literal : IntegerLiteral) : Text.IsInert literal.chars :=
  fun _ hmem => (inNumber_of_mem_integer hmem).not_isControl

theorem NumberLiteral.isInert_chars (literal : NumberLiteral) : Text.IsInert literal.chars :=
  fun _ hmem => (inNumber_of_mem_number hmem).not_isControl

theorem Binary64.isInert_text {value : Binary64} (h : value.isFinite = true) :
    Text.IsInert value.text := by
  have read := number_text h []
  rw [List.append_nil] at read
  generalize value.text = text at read
  cases read with
  | intro literal =>
      rw [List.append_nil]
      exact literal.isInert_chars

theorem IntegerLiteral.isInert_toString (value : Int) : Text.IsInert (toString value).toList := by
  rw [← chars_plain]
  exact (plain value).isInert_chars

theorem Element.isInert_text (element : Element) : Text.IsInert element.text.toList := by
  cases element <;> decide

namespace Fault

theorem message_expected (element : Element) (found : String) :
    (expected element found).message =
      if found = "" then "Expecting " ++ element.text ++ " here: end of input"
      else "Expecting " ++ element.text ++ " here: " ++
        String.ofList (Text.quotedString found.toList) := rfl

theorem exists_message_outOfRange (element : Element) :
    ∃ front behind : String, Text.IsInert front.toList ∧ Text.IsInert behind.toList ∧
      (∃ initial ≠ 'E', front.toList.head? = some initial) ∧
      ∀ value, (outOfRange element value).message = front ++ value ++ behind := by
  cases element
  case generations =>
    exact ⟨"Generations must be a non-negative integer, got `", "`", by decide, by decide,
      ⟨'G', by decide, by decide⟩, fun _ => rfl⟩
  case probability =>
    exact ⟨"Probability must be in (0, 1], got `", "`", by decide, by decide,
      ⟨'P', by decide, by decide⟩, fun _ => rfl⟩
  all_goals
    exact ⟨"Value `", "` is out of range for " ++ Element.text _, by decide, by decide,
      ⟨'V', by decide, by decide⟩, fun _ => String.append_assoc⟩

theorem isInert_message_expected (element : Element) (found : String) :
    Text.IsInert (expected element found).message.toList := by
  have hfront : Text.IsInert ("Expecting " ++ element.text).toList :=
    .appendText (by decide) element.isInert_text
  rw [message_expected]
  split
  · exact hfront.appendText (by decide)
  · exact (hfront.appendText (by decide)).appendText (Text.isInert_quotedString found.toList)

theorem isInert_message_outOfRange (element : Element) {value : String}
    (h : Text.IsInert value.toList) :
    Text.IsInert (outOfRange element value).message.toList := by
  obtain ⟨front, behind, hfront, hbehind, _, hmessage⟩ := exists_message_outOfRange element
  rw [hmessage]
  exact (hfront.appendText h).appendText hbehind

theorem Tells.isInert_message {after : List Char} {fault : Fault} (h : fault.Tells after) :
    Text.IsInert fault.message.toList := by
  cases h with
  | expected => exact isInert_message_expected _ _
  | @generations literal =>
      apply isInert_message_outOfRange
      split
      · exact IntegerLiteral.isInert_toString literal.value
      · rw [String.toList_ofList]
        exact literal.isInert_chars
  | @number literal =>
      apply isInert_message_outOfRange
      rw [String.toList_ofList]
      exact literal.isInert_chars
  | @probability literal =>
      apply isInert_message_outOfRange
      rw [String.toList_ofList]
      split
      · rename_i hfinite
        exact Binary64.isInert_text hfinite
      · exact literal.isInert_chars

theorem message_eq_end_iff {fault : Fault} :
    (∃ element : Element,
      fault.message = "Expecting " ++ element.text ++ " here: end of input") ↔
    ∃ element, fault = .expected element "" := by
  constructor
  · rintro ⟨told, hmessage⟩
    have hfirst : fault.message.toList.head? = some 'E' := by
      rw [hmessage]
      exact Text.head?_append (Text.head?_append (by decide))
    have hlast : fault.message.toList.getLast? = some 't' := by
      rw [hmessage]
      exact Text.getLast?_append (by decide)
    cases fault with
    | expected element found =>
        by_cases hfound : found = ""
        · rw [hfound]
          exact ⟨element, rfl⟩
        · rw [message_expected, if_neg hfound,
            Text.getLast?_append (Text.getLast?_quotedString found.toList)] at hlast
          exact absurd hlast (by decide)
    | outOfRange element value =>
        obtain ⟨front, behind, _, _, ⟨initial, hinitial, hhead⟩, hfront⟩ :=
          exists_message_outOfRange element
        rw [hfront, Text.head?_append (Text.head?_append hhead)] at hfirst
        exact absurd (Option.some.inj hfirst) hinitial
    | unreadable failure =>
        have hhead : (unreadable failure).message.toList.head? = some 'R' :=
          Text.head?_append (by decide)
        rw [hhead] at hfirst
        exact absurd hfirst (by decide)
  · rintro ⟨element, rfl⟩
    exact ⟨element, rfl⟩

end Fault

theorem Location.isInert_text {location : Location} (h : location.file = none) :
    Text.IsInert location.text.toList := by
  obtain ⟨file, line, column⟩ := location
  subst h
  cases line with
  | zero => exact (by decide : Text.IsInert "input".toList)
  | succ line =>
      have htext : (⟨none, line + 1, column⟩ : Location).text =
          toString (line + 1) ++ ":" ++ toString column := rfl
      rw [htext]
      exact ((Text.isInert_toString _).appendText (by decide)).appendText (Text.isInert_toString _)

theorem Cursor.Explains.found_eq_empty_iff {text : List Char} {place : Cursor}
    {error : SyntaxError} {element : Element} {found : String} (hexplains : place.Explains error)
    (hplace : (Cursor.ofChars text).LeadsTo place)
    (hfault : error.fault = .expected element found) :
    found = "" ↔ error.location = .behind text := by
  obtain ⟨before, htext, hbefore⟩ := exists_split_of_leadsTo hplace
  have tells := hexplains.tells
  rw [hfault] at tells
  cases tells with
  | expected shown =>
      rw [← String.toList_eq_nil_iff, shown.nil_iff, hexplains.location_eq, hbefore]
      constructor
      · intro hrest
        rw [htext, hrest, List.append_nil]
      · intro hend
        have hsame : before ++ place.rest = text ++ [] := by rw [← htext, List.append_nil]
        exact (Location.eq_of_behind_eq hsame hend).2

namespace Model

/-- Whatever a text holds, the message of its error holds no control character, and the escapes of
the error as it is displayed are those that set and reset its colours. The message tells of the end
of the text in place of quoting it exactly when an element is missing there. -/
theorem message_of_parse {text : String} {error : SyntaxError} (h : parse text = .error error) :
    Text.IsInert error.fault.message.toList ∧
      (∃ place : String, Text.IsInert place.toList ∧
        error.display = "\x1b[31;49;1m" ++ place ++ "\x1b[39;49;1m" ++
          ("  " ++ error.fault.message) ++ "\x1b[0m") ∧
      ((∃ element : Element,
          error.fault.message = "Expecting " ++ element.text ++ " here: end of input") ↔
        (∃ element found, error.fault = .expected element found) ∧
          error.location = .behind text.toList) := by
  obtain ⟨place, hplace, hexplains⟩ := exists_explains_of_parse h
  refine ⟨hexplains.tells.isInert_message, ?_, ?_⟩
  · obtain ⟨before, _, hbefore⟩ := Cursor.exists_split_of_leadsTo hplace
    have hfile : error.location.file = none := by
      rw [hexplains.location_eq, hbefore]
      rfl
    refine ⟨"[" ++ error.location.text ++ "]", ?_, ?_⟩
    · have hopened : Text.IsInert ("[" ++ error.location.text).toList :=
        .appendText (by decide) (Location.isInert_text hfile)
      exact hopened.appendText (by decide)
    · apply String.toList_inj.mp
      simp [SyntaxError.display]
  · rw [Fault.message_eq_end_iff]
    constructor
    · rintro ⟨element, hfault⟩
      exact ⟨⟨element, "", hfault⟩, (hexplains.found_eq_empty_iff hplace hfault).mp rfl⟩
    · rintro ⟨⟨element, found, hfault⟩, hend⟩
      obtain rfl := (hexplains.found_eq_empty_iff hplace hfault).mpr hend
      exact ⟨element, hfault⟩

theorem message_of_parse_escape :
    parse "generations:\x1b[2J\n" = .error ⟨⟨none, 1, 13⟩, .expected .integer "\x1b[2J"⟩ ∧
      (Fault.expected .integer "\x1b[2J").message =
        "Expecting integer here: \x22\\u\x7b1b\x7d[2J\x22" ∧
      Text.IsInert (Fault.expected .integer "\x1b[2J").message.toList := by
  have hparse : parse "generations:\x1b[2J\n" =
      .error ⟨⟨none, 1, 13⟩, .expected .integer "\x1b[2J"⟩ := by decide +kernel
  exact ⟨hparse, by decide +kernel, (message_of_parse hparse).1⟩

end Model

end Lindenmayer
