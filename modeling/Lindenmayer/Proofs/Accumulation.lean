import Lindenmayer.Proofs.Parsing

/-! Lines accumulate: none is lost, doubled, or moved behind another one of its predecessor. -/

namespace Lindenmayer

open Grammar

theorem alternatives_cons (line : Symbol × Production) (lines : List (Symbol × Production))
    (predecessor : Symbol) :
    alternatives (line :: lines) predecessor =
      if line.1 = predecessor then line.2 :: alternatives lines predecessor
      else alternatives lines predecessor := by
  by_cases h : line.1 = predecessor
  · simp [alternatives, h]
  · simp [alternatives, h]

/-- Steps from one order of lines to another. Neighbours change places only if their predecessors
differ. -/
inductive Reorders : List (Symbol × Production) → List (Symbol × Production) → Prop
  | nil : Reorders [] []
  | cons {lines others : List (Symbol × Production)} (line : Symbol × Production)
      (reorders : Reorders lines others) : Reorders (line :: lines) (line :: others)
  | swap {first second : Symbol × Production} (h : first.1 ≠ second.1)
      (lines : List (Symbol × Production)) :
      Reorders (first :: second :: lines) (second :: first :: lines)
  | trans {lines between others : List (Symbol × Production)} (left : Reorders lines between)
      (right : Reorders between others) : Reorders lines others

namespace Reorders

theorem refl (lines : List (Symbol × Production)) : Reorders lines lines := by
  induction lines with
  | nil => exact .nil
  | cons line lines ih => exact .cons line ih

theorem alternatives_eq {lines others : List (Symbol × Production)} (h : Reorders lines others)
    (predecessor : Symbol) : alternatives lines predecessor = alternatives others predecessor := by
  induction h with
  | nil => rfl
  | cons line _ ih => rw [alternatives_cons, alternatives_cons, ih]
  | @swap first second h lines =>
      simp only [alternatives_cons]
      by_cases hfirst : first.1 = predecessor
      · have hsecond : second.1 ≠ predecessor := fun heq => h (hfirst.trans heq.symm)
        rw [if_pos hfirst, if_neg hsecond, if_neg hsecond, if_pos hfirst]
      · rw [if_neg hfirst, if_neg hfirst]
  | trans _ _ left right => exact left.trans right

theorem front {before : List (Symbol × Production)} {line : Symbol × Production}
    (h : alternatives before line.1 = []) (after : List (Symbol × Production)) :
    Reorders (line :: (before ++ after)) (before ++ line :: after) := by
  induction before with
  | nil => exact .refl _
  | cons first before ih =>
      rw [alternatives_cons] at h
      by_cases hne : first.1 = line.1
      · rw [if_pos hne] at h
        contradiction
      · rw [if_neg hne] at h
        exact .trans (.swap (Ne.symm hne) _) (.cons first (ih h))

end Reorders

theorem exists_line_of_alternatives {lines : List (Symbol × Production)} {predecessor : Symbol}
    {production : Production} {others : List Production}
    (h : alternatives lines predecessor = production :: others) :
    ∃ before after, lines = before ++ (predecessor, production) :: after ∧
      alternatives before predecessor = [] := by
  induction lines with
  | nil => contradiction
  | cons line lines ih =>
      rw [alternatives_cons] at h
      by_cases hline : line.1 = predecessor
      · subst hline
        rw [if_pos rfl, List.cons.injEq] at h
        exact ⟨[], lines, by rw [← h.1, List.nil_append], rfl⟩
      · rw [if_neg hline] at h
        obtain ⟨before, after, rfl, hbefore⟩ := ih h
        refine ⟨line :: before, after, rfl, ?_⟩
        rw [alternatives_cons, if_neg hline, hbefore]

theorem reorders_of_alternatives {lines others : List (Symbol × Production)}
    (h : ∀ predecessor, alternatives lines predecessor = alternatives others predecessor) :
    Reorders lines others := by
  induction lines generalizing others with
  | nil =>
      cases others with
      | nil => exact .nil
      | cons other others =>
          have hother := h other.1
          rw [alternatives_cons, if_pos rfl] at hother
          contradiction
  | cons line lines ih =>
      have hline := h line.1
      rw [alternatives_cons, if_pos rfl] at hline
      obtain ⟨before, after, rfl, hbefore⟩ := exists_line_of_alternatives hline.symm
      have front := Reorders.front hbefore after
      refine .trans (.cons line (ih fun predecessor => ?_)) front
      have htail := (h predecessor).trans (front.alternatives_eq predecessor).symm
      rw [alternatives_cons, alternatives_cons] at htail
      split at htail
      · exact (List.cons.inj htail).2
      · exact htail

theorem reorders_iff {lines others : List (Symbol × Production)} :
    Reorders lines others ↔
      ∀ predecessor, alternatives lines predecessor = alternatives others predecessor :=
  ⟨Reorders.alternatives_eq, reorders_of_alternatives⟩

namespace Table

theorem count_ofList (lines : List (Symbol × Production)) :
    (ofList lines).count = lines.length := by
  induction lines using List.reverseRecOn with
  | nil => rfl
  | append_singleton lines line ih =>
      rw [ofList_append_singleton, count_add, ih, List.length_append, List.length_singleton]

theorem listed_injective {left right : List Production} (h : listed left = listed right) :
    left = right := by
  rw [← getD_listed left, h, getD_listed]

theorem ofList_eq_iff {lines others : List (Symbol × Production)} :
    ofList lines = ofList others ↔
      ∀ predecessor, alternatives lines predecessor = alternatives others predecessor := by
  constructor
  · intro h predecessor
    apply listed_injective
    rw [← collects_ofList, h, collects_ofList]
  · intro h
    refine (collects_ofList lines).unique fun predecessor => ?_
    rw [collects_ofList, h]

end Table

/-- The text is read to its end as one production line. -/
def ReadsAs (chars : List Char) (line : Symbol × Production) : Prop :=
  (Scanner.production.run (.ofChars chars)).1 = .ok line ∧
    (Scanner.production.run (.ofChars chars)).2.atEnd = true

instance (chars : List Char) (line : Symbol × Production) : Decidable (ReadsAs chars line) :=
  inferInstanceAs (Decidable (_ ∧ _))

theorem ReadsAs.line {chars : List Char} {line : Symbol × Production} (h : ReadsAs chars line)
    (rest : List Char) : Line (chars ++ rest) line rest := by
  have read := Scanner.line_of_run (Scanner.run_of_fst h.1)
  rw [Scanner.atEnd_iff.mp h.2] at read
  exact read.takes.append rest

theorem exists_readsAs {source rest : List Char} {line : Symbol × Production}
    (read : Line source line rest) : ∃ chars, source = chars ++ rest ∧ ReadsAs chars line := by
  obtain ⟨chars, rfl, htakes⟩ := read.takes
  have halone := htakes []
  rw [List.append_nil] at halone
  obtain ⟨after, hrun, hrest⟩ := @Scanner.run_production (.ofChars chars) _ _ halone (.inl rfl)
  refine ⟨chars, rfl, ?_, ?_⟩
  · rw [hrun]
  · rw [hrun]
    exact Scanner.atEnd_iff.mpr hrest

/-- Production lines, each with any text that ends it. -/
inductive Listing : List Char → List (Symbol × Production) → Prop
  | last {chars ending : List Char} {line : Symbol × Production} (read : ReadsAs chars line)
      (idle : Idle ending) : Listing (chars ++ ending) [line]
  | more {chars ending rest : List Char} {line : Symbol × Production}
      {others : List (Symbol × Production)} (read : ReadsAs chars line)
      (lineEnd : LineEnd (ending ++ rest) rest) (listing : Listing rest others) :
      Listing (chars ++ (ending ++ rest)) (line :: others)

theorem Listing.lines {rest : List Char} {lines : List (Symbol × Production)}
    (listing : Listing rest lines) : Lines rest lines := by
  induction listing with
  | last read idle => exact .last (read.line _) idle
  | more read lineEnd _ ih => exact .more (read.line _) lineEnd ih

theorem listing_of_lines {rest : List Char} {lines : List (Symbol × Production)}
    (read : Lines rest lines) : Listing rest lines := by
  induction read with
  | last read idle =>
      obtain ⟨chars, rfl, hchars⟩ := exists_readsAs read
      exact .last hchars idle
  | more read lineEnd others ih =>
      obtain ⟨chars, rfl, hchars⟩ := exists_readsAs read
      obtain ⟨ending, rfl, hending⟩ := lineEnd.takes others.tokenAhead.ne_nil
      exact .more hchars (hending _) ih

namespace Model

theorem parse_of_listing {head rest : List Char} {fields : Fields}
    {lines : List (Symbol × Production)} (h : IsHead head fields) (listing : Listing rest lines) :
    parse (.ofList (head ++ rest)) = .ok (fields.model (.ofList lines)) := by
  apply parse_of_document
  rw [String.toList_ofList]
  exact (h rest).document listing.lines (Table.collects_ofList lines)

/-- Every description that is read is a head with lines below it, and its table is theirs. -/
theorem exists_listing_of_parse {text : String} {model : Model} (h : parse text = .ok model) :
    ∃ head rest lines, text = .ofList (head ++ rest) ∧ IsHead head model.head ∧
      Listing rest lines ∧ model = model.head.model (.ofList lines) := by
  obtain ⟨rest, lines, hhead, read, hcollects⟩ := (document_of_parse h).exists_head
  obtain ⟨head, hsplit, hhead⟩ := hhead.takes read.tokenAhead.ne_nil
  refine ⟨head, rest, lines, ?_, hhead, listing_of_lines read, ?_⟩
  · rw [← hsplit, String.ofList_toList]
  · rw [(Table.collects_ofList lines).unique hcollects]
    rfl

/-- Below a head, every list of lines gives the table that lists each predecessor's productions in
the order of the lines. So tables differ only if the lines of some predecessor do. -/
theorem parse_listing {head : List Char} {fields : Fields} (h : IsHead head fields) :
    (∀ rest lines, Listing rest lines →
      ∃ table, parse (.ofList (head ++ rest)) = .ok (fields.model table) ∧
        (∀ symbol, (fields.model table).productionsFor symbol =
          Table.listed (alternatives lines symbol)) ∧
        table.count = lines.length) ∧
    ∀ rest otherRest lines otherLines model other, Listing rest lines →
      Listing otherRest otherLines → parse (.ofList (head ++ rest)) = .ok model →
      parse (.ofList (head ++ otherRest)) = .ok other →
        (model.productions = other.productions ↔
          ∀ predecessor, alternatives lines predecessor = alternatives otherLines predecessor) ∧
        (Reorders lines otherLines ↔ model = other) := by
  refine ⟨fun rest lines listing => ?_, ?_⟩
  · exact ⟨_, parse_of_listing h listing, Table.collects_ofList lines, Table.count_ofList lines⟩
  · intro rest otherRest lines otherLines model other listing otherListing hmodel hother
    rw [parse_of_listing h listing, Except.ok.injEq] at hmodel
    rw [parse_of_listing h otherListing, Except.ok.injEq] at hother
    subst hmodel hother
    refine ⟨Table.ofList_eq_iff, ?_⟩
    rw [reorders_iff, ← Table.ofList_eq_iff]
    exact ⟨congrArg fields.model, congrArg Model.productions⟩

/-- The second line passes in front of the first, and the third one stays behind it. -/
theorem parse_listing_interleaved :
    ∃ model, parse (.ofList ("generations:2\nangle:0 # degrees\nscale:1\naxiom:X\n".toList ++
        "F->FF # twice\nX->F\n F(1)->X\n\n".toList)) = .ok model ∧
      model.productionsFor .moveForward =
        some [⟨.one, [.moveForward, .moveForward]⟩, ⟨.one, [.letter 'X']⟩] ∧
      model.productionsFor .jumpForward = none ∧ model.productions.count = 3 ∧
      parse (.ofList ("generations:2\nangle:0 # degrees\nscale:1\naxiom:X\n".toList ++
        "X->F\nF->FF\n F(1)->X".toList)) = .ok model := by
  have head : IsHead "generations:2\nangle:0 # degrees\nscale:1\naxiom:X\n".toList
      ⟨2, .zero false, .one, [.letter 'X']⟩ :=
    @Scanner.isHead_of_run _ '!' _ (Scanner.fields.run (.ofChars
      ("generations:2\nangle:0 # degrees\nscale:1\naxiom:X\n".toList ++ ['!']))).2
      (by decide +kernel) (by decide +kernel)
  have double : ReadsAs "F->FF".toList
      (.moveForward, ⟨.one, [.moveForward, .moveForward]⟩) := by decide +kernel
  have back : ReadsAs "X->F".toList (.letter 'X', ⟨.one, [.moveForward]⟩) := by decide +kernel
  have weighted : ReadsAs " F(1)->X".toList (.moveForward, ⟨.one, [.letter 'X']⟩) := by
    decide +kernel
  have note : LineEnd (" # twice\n".toList ++ "X->F\n F(1)->X\n\n".toList)
      "X->F\n F(1)->X\n\n".toList :=
    .intro (.space .done) (.comment (comment_iff.mpr ⟨_, rfl, rfl⟩)) .done
  have newline : ∀ rest, LineEnd (['\n'] ++ rest) rest := fun rest => .intro .done .newline .done
  have listing : Listing "F->FF # twice\nX->F\n F(1)->X\n\n".toList [_, _, _] :=
    .more double note (.more back (newline _)
      (.last weighted (.line .done .newline (.line .done .newline (.spaces .done)))))
  have other : Listing "X->F\nF->FF\n F(1)->X".toList [_, _, _] :=
    .more back (newline _) (.more double (newline _) (.last weighted (.spaces .done)))
  obtain ⟨hparse, hdiffer⟩ := parse_listing head
  obtain ⟨table, hmodel, hlisted, hcount⟩ := hparse _ _ listing
  obtain ⟨otherTable, hother, _⟩ := hparse _ _ other
  have hsame := (hdiffer _ _ _ _ _ _ listing other hmodel hother).2.mp (.swap (by decide) _)
  exact ⟨_, hmodel, hlisted _, hlisted _, hcount, hsame ▸ hother⟩

end Model

end Lindenmayer
