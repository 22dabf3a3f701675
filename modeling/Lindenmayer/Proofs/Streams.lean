import Lindenmayer.Stream

/-! Only bytes that have arrived before the end count, and the failure that ends them. -/

namespace Lindenmayer

namespace Read

/-- There may be more behind the read: it has brought bytes, or is to be tried again. -/
def GoesOn : Read → Prop
  | bytes chunk => chunk.size ≠ 0
  | failed failure => failure.kind = .interrupted

instance : DecidablePred GoesOn
  | bytes chunk => inferInstanceAs (Decidable (chunk.size ≠ 0))
  | failed failure => inferInstanceAs (Decidable (failure.kind = .interrupted))

def chunk : Read → ByteArray
  | bytes chunk => chunk
  | failed _ => .empty

def failure? : Read → Option ReadFailure
  | bytes _ => none
  | failed failure => some failure

/-- All bytes in front of the read that ends the stream, in one piece. -/
def arrived (reads : List Read) : ByteArray :=
  ((reads.takeWhile fun read => decide read.GoesOn).map chunk).foldr (· ++ ·) .empty

/-- The failure that ends the stream. -/
def breakdown? (reads : List Read) : Option ReadFailure :=
  (reads.find? fun read => !decide read.GoesOn).bind failure?

theorem arrived_of_goesOn {read : Read} (h : read.GoesOn) (rest : List Read) :
    arrived (read :: rest) = read.chunk ++ arrived rest := by
  simp [arrived, h]

theorem arrived_of_not_goesOn {read : Read} (h : ¬read.GoesOn) (rest : List Read) :
    arrived (read :: rest) = .empty := by
  simp [arrived, h]

theorem breakdown?_of_goesOn {read : Read} (h : read.GoesOn) (rest : List Read) :
    breakdown? (read :: rest) = breakdown? rest := by
  simp [breakdown?, h]

theorem breakdown?_of_not_goesOn {read : Read} (h : ¬read.GoesOn) (rest : List Read) :
    breakdown? (read :: rest) = read.failure? := by
  simp [breakdown?, h]

/-- Content, or the failure that came instead of the end. -/
def outcome (breakdown? : Option ReadFailure) (content : ByteArray) :
    Except ReadFailure ByteArray :=
  match breakdown? with
  | some failure => .error failure
  | none => .ok content

theorem gather_of_goesOn {read : Read} (h : read.GoesOn) (rest : List Read) :
    gather (read :: rest) = (gather rest).map (read.chunk ++ ·) := by
  cases read with
  | bytes chunk =>
      rw [gather, if_neg h]
      cases gather rest <;> rfl
  | failed failure =>
      have hkind : failure.kind = .interrupted := h
      rw [gather, if_pos hkind]
      cases gather rest with
      | ok content => exact congrArg Except.ok ByteArray.empty_append.symm
      | error failure => rfl

theorem gather_of_not_goesOn {read : Read} (h : ¬read.GoesOn) (rest : List Read) :
    gather (read :: rest) = outcome read.failure? .empty := by
  cases read with
  | bytes chunk =>
      have hsize : chunk.size = 0 := Decidable.not_not.mp h
      rw [gather, if_pos hsize]
      rfl
  | failed failure =>
      have hkind : failure.kind ≠ .interrupted := h
      rw [gather, if_neg hkind]
      rfl

theorem gather_eq (reads : List Read) :
    gather reads = outcome (breakdown? reads) (arrived reads) := by
  induction reads with
  | nil => rfl
  | cons read rest ih =>
      by_cases h : read.GoesOn
      · rw [gather_of_goesOn h, breakdown?_of_goesOn h, arrived_of_goesOn h, ih]
        cases breakdown? rest <;> rfl
      · rw [gather_of_not_goesOn h, breakdown?_of_not_goesOn h, arrived_of_not_goesOn h]

theorem fromUTF8?_eq_some_iff {content : ByteArray} {text : String} :
    String.fromUTF8? content = some text ↔ text.toUTF8 = content := by
  simp only [String.fromUTF8?, Option.dite_none_right_eq_some, Option.some.injEq]
  constructor
  · rintro ⟨_, rfl⟩
    rfl
  · rintro rfl
    exact ⟨text.isValidUTF8, rfl⟩

theorem fromUTF8?_eq_none_iff {content : ByteArray} :
    String.fromUTF8? content = none ↔ ∀ text : String, text.toUTF8 ≠ content := by
  simp only [Option.eq_none_iff_forall_ne_some, ne_eq, fromUTF8?_eq_some_iff]

theorem gatherText_of_breakdown {reads : List Read} {failure : ReadFailure}
    (h : breakdown? reads = some failure) : gatherText reads = .error failure := by
  rw [gatherText, gather_eq, h]
  rfl

theorem gatherText_of_text {reads : List Read} (h : breakdown? reads = none) {text : String}
    (htext : text.toUTF8 = arrived reads) : gatherText reads = .ok text := by
  simp only [gatherText, gather_eq, h, outcome, fromUTF8?_eq_some_iff.mpr htext]

theorem gatherText_of_no_text {reads : List Read} (h : breakdown? reads = none)
    (htext : ∀ text : String, text.toUTF8 ≠ arrived reads) :
    gatherText reads = .error .notUtf8 := by
  simp only [gatherText, gather_eq, h, outcome, fromUTF8?_eq_none_iff.mpr htext]

end Read

namespace Model

/-- A failure that ends a stream is all there is to report of it. Otherwise the bytes are those of
one text, which is parsed as if it had come in one piece, or of none. -/
theorem parseReads_of_arrived (reads : List Read) :
    (∀ failure, Read.breakdown? reads = some failure →
      parseReads reads = .error ⟨⟨none, 0, 0⟩, .unreadable failure⟩) ∧
    (Read.breakdown? reads = none →
      (∀ text : String, text.toUTF8 = Read.arrived reads → parseReads reads = parse text) ∧
      ((∀ text : String, text.toUTF8 ≠ Read.arrived reads) →
        parseReads reads = .error ⟨⟨none, 0, 0⟩,
          .unreadable ⟨.invalidData, "stream did not contain valid UTF-8"⟩⟩)) ∧
    ∀ others, Read.breakdown? others = Read.breakdown? reads →
      Read.arrived others = Read.arrived reads → parseReads others = parseReads reads := by
  refine ⟨fun failure h => ?_, fun h => ⟨fun text htext => ?_, fun htext => ?_⟩,
    fun others hbreakdown harrived => ?_⟩
  · rw [parseReads, Read.gatherText_of_breakdown h]
    rfl
  · rw [parseReads, Read.gatherText_of_text h htext]
  · rw [parseReads, Read.gatherText_of_no_text h htext]
    rfl
  · rw [parseReads, parseReads, Read.gatherText, Read.gatherText, Read.gather_eq, Read.gather_eq,
      hbreakdown, harrived]

/-- A letter of two bytes that comes in two reads, with an interruption between them. It is spoilt
by an end between them, and lost to a failure. -/
theorem parseReads_of_arrived_split :
    (let reads := [.bytes ⟨#[0x78, 0xc3]⟩, .failed ⟨.interrupted, "again"⟩, .bytes ⟨#[0xa9]⟩]
     Read.breakdown? reads = none ∧ "xé".toUTF8 = Read.arrived reads ∧
        parseReads reads = parse "xé" ∧
        parseReads [.bytes ⟨#[0x78]⟩, .bytes ⟨#[0xc3, 0xa9]⟩, .bytes .empty] = parseReads reads) ∧
    (let reads := [.bytes ⟨#[0x78, 0xc3]⟩, .bytes .empty, .bytes ⟨#[0xa9]⟩]
     Read.breakdown? reads = none ∧ (∀ text : String, text.toUTF8 ≠ Read.arrived reads) ∧
        parseReads reads = .error ⟨⟨none, 0, 0⟩,
          .unreadable ⟨.invalidData, "stream did not contain valid UTF-8"⟩⟩) ∧
    (let reads := [.bytes ⟨#[0x78, 0xc3]⟩, .failed ⟨.timedOut, "late"⟩, .bytes ⟨#[0xa9]⟩]
     Read.breakdown? reads = some ⟨.timedOut, "late"⟩ ∧
        parseReads reads = .error ⟨⟨none, 0, 0⟩, .unreadable ⟨.timedOut, "late"⟩⟩) := by
  refine ⟨?_, ?_, ?_⟩
  · obtain ⟨_, hend, hothers⟩ := parseReads_of_arrived
      [.bytes ⟨#[0x78, 0xc3]⟩, .failed ⟨.interrupted, "again"⟩, .bytes ⟨#[0xa9]⟩]
    have htext : "xé".toUTF8 = Read.arrived
        [.bytes ⟨#[0x78, 0xc3]⟩, .failed ⟨.interrupted, "again"⟩, .bytes ⟨#[0xa9]⟩] := by
      decide +kernel
    exact ⟨rfl, htext, (hend rfl).1 _ htext, hothers _ rfl (by decide +kernel)⟩
  · obtain ⟨_, hend, _⟩ := parseReads_of_arrived
      [.bytes ⟨#[0x78, 0xc3]⟩, .bytes .empty, .bytes ⟨#[0xa9]⟩]
    have hnone : ∀ text : String, text.toUTF8 ≠ Read.arrived
        [.bytes ⟨#[0x78, 0xc3]⟩, .bytes .empty, .bytes ⟨#[0xa9]⟩] :=
      Read.fromUTF8?_eq_none_iff.mp (by decide +kernel)
    exact ⟨rfl, hnone, (hend rfl).2 hnone⟩
  · exact ⟨rfl, (parseReads_of_arrived _).1 _ rfl⟩

end Model

end Lindenmayer
