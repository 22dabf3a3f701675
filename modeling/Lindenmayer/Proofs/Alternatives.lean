import Lindenmayer.Table
import Mathlib.Data.List.Induction

namespace Lindenmayer

/-- The alternatives of one predecessor among lines, in their order. -/
def alternatives (lines : List (Symbol × Production)) (predecessor : Symbol) : List Production :=
  (lines.filter (fun line => line.1 = predecessor)).map Prod.snd

@[simp] theorem alternatives_nil (predecessor : Symbol) : alternatives [] predecessor = [] := rfl

theorem alternatives_append (left right : List (Symbol × Production)) (predecessor : Symbol) :
    alternatives (left ++ right) predecessor =
      alternatives left predecessor ++ alternatives right predecessor := by
  simp [alternatives]

theorem alternatives_singleton (line : Symbol × Production) (predecessor : Symbol) :
    alternatives [line] predecessor = if line.1 = predecessor then [line.2] else [] := by
  by_cases h : line.1 = predecessor
  · simp [alternatives, h]
  · simp [alternatives, h]

namespace Table

/-- A list of alternatives as a table gives it: none stands for no alternative. -/
def listed (productions : List Production) : Option (List Production) :=
  if productions = [] then none else some productions

/-- The table lists for each predecessor the alternatives of its lines, and nothing else. -/
def Collects (table : Table) (lines : List (Symbol × Production)) : Prop :=
  ∀ predecessor, table.lookup predecessor = listed (alternatives lines predecessor)

@[simp] theorem listed_nil : listed [] = none := rfl

theorem listed_of_ne_nil {productions : List Production} (h : productions ≠ []) :
    listed productions = some productions :=
  if_neg h

theorem getD_listed (productions : List Production) :
    (listed productions).getD [] = productions := by
  by_cases h : productions = []
  · simp [h]
  · simp [listed_of_ne_nil h]

theorem collects_ofList (lines : List (Symbol × Production)) : (ofList lines).Collects lines := by
  induction lines using List.reverseRecOn with
  | nil => exact fun predecessor => rfl
  | append_singleton lines line ih =>
      intro predecessor
      rw [ofList_append_singleton, lookup_add, alternatives_append, alternatives_singleton]
      by_cases heq : predecessor = line.1
      · subst heq
        rw [if_pos rfl, if_pos rfl, ih, getD_listed, listed_of_ne_nil (by simp)]
      · rw [if_neg heq, if_neg (Ne.symm heq), List.append_nil, ih]

theorem lookup_eq_none_of_lt {predecessor : Symbol} {entries : List Entry}
    (h : ∀ entry ∈ entries, predecessor < entry.1) : entries.lookup predecessor = none := by
  rw [List.lookup_eq_none_iff]
  intro entry hmem
  rw [bne_iff_ne]
  rintro rfl
  exact Symbol.lt_irrefl _ (h entry hmem)

theorem lookup_eq_none_of_lt_head {first : Entry} {rest : List Entry}
    (h : Increasing (first :: rest)) {predecessor : Symbol} (hlt : predecessor < first.1) :
    (first :: rest).lookup predecessor = none := by
  apply lookup_eq_none_of_lt
  intro entry hmem
  rcases List.mem_cons.mp hmem with rfl | hmem
  · exact hlt
  · exact Symbol.lt_trans hlt ((List.pairwise_cons.mp h).1 entry hmem)

theorem lookup_tail {key : Symbol} {list : List Production} {rest : List Entry}
    (h : Increasing ((key, list) :: rest)) (predecessor : Symbol) :
    rest.lookup predecessor =
      if predecessor = key then none else ((key, list) :: rest).lookup predecessor := by
  split
  · rename_i heq
    subst heq
    exact lookup_eq_none_of_lt (List.pairwise_cons.mp h).1
  · rename_i hne
    rw [List.lookup_cons, beq_eq_false_iff_ne.mpr hne]

theorem eq_of_lookup_eq {left right : List Entry} (hleft : Increasing left)
    (hright : Increasing right)
    (h : ∀ predecessor, left.lookup predecessor = right.lookup predecessor) : left = right := by
  induction left generalizing right with
  | nil =>
      cases right with
      | nil => rfl
      | cons second rest =>
          obtain ⟨key, list⟩ := second
          simpa using h key
  | cons first leftRest ih =>
      obtain ⟨key, list⟩ := first
      cases right with
      | nil => simpa using h key
      | cons second rightRest =>
          obtain ⟨otherKey, otherList⟩ := second
          have hkey : key = otherKey := by
            by_contra hne
            by_cases hlt : key < otherKey
            · have hnone := lookup_eq_none_of_lt_head hright hlt
              rw [← h key] at hnone
              simp at hnone
            · have hnone := lookup_eq_none_of_lt_head hleft (Symbol.lt_of_not_lt_of_ne hlt hne)
              rw [h otherKey] at hnone
              simp at hnone
          subst hkey
          have hlist : list = otherList := by simpa using h key
          subst hlist
          congr 1
          apply ih (List.pairwise_cons.mp hleft).2 (List.pairwise_cons.mp hright).2
          intro predecessor
          rw [lookup_tail hleft, lookup_tail hright, h]

theorem Collects.unique {left right : Table} {lines : List (Symbol × Production)}
    (hleft : left.Collects lines) (hright : right.Collects lines) : left = right := by
  have hentries : left.entries = right.entries := by
    apply eq_of_lookup_eq left.increasing right.increasing
    exact fun predecessor => (hleft predecessor).trans (hright predecessor).symm
  cases left
  cases right
  cases hentries
  rfl

theorem lookup_of_mem {entries : List Entry} (h : Increasing entries) {key : Symbol}
    {list : List Production} (hmem : (key, list) ∈ entries) : entries.lookup key = some list := by
  induction entries with
  | nil => simp at hmem
  | cons first rest ih =>
      obtain ⟨hfirst, hrest⟩ := List.pairwise_cons.mp h
      rcases List.mem_cons.mp hmem with rfl | hbehind
      · simp
      · have hne : key ≠ first.1 := by
          intro heq
          have hlt := hfirst _ hbehind
          rw [heq] at hlt
          exact Symbol.lt_irrefl _ hlt
        obtain ⟨other, others⟩ := first
        rw [List.lookup_cons, beq_eq_false_iff_ne.mpr hne]
        exact ih hrest hbehind

theorem mem_alternatives {lines : List (Symbol × Production)} {predecessor : Symbol}
    {production : Production} :
    production ∈ alternatives lines predecessor ↔ (predecessor, production) ∈ lines := by
  simp only [alternatives, List.mem_map, List.mem_filter, decide_eq_true_eq]
  constructor
  · rintro ⟨line, ⟨hmem, rfl⟩, rfl⟩
    exact hmem
  · intro hmem
    exact ⟨_, ⟨hmem, rfl⟩, rfl⟩

theorem Collects.eq_of_mem {table : Table} {lines : List (Symbol × Production)}
    (h : table.Collects lines) {entry : Entry} (hmem : entry ∈ table.entries) :
    entry.2 ≠ [] ∧ entry.2 = alternatives lines entry.1 := by
  have hlookup := h entry.1
  rw [lookup, lookup_of_mem table.increasing hmem, listed] at hlookup
  split at hlookup
  · contradiction
  · rename_i hne
    have heq := Option.some.inj hlookup
    exact ⟨heq ▸ hne, heq⟩

theorem Collects.mem_of_mem {table : Table} {lines : List (Symbol × Production)}
    (h : table.Collects lines) {entry : Entry} (hentry : entry ∈ table.entries)
    {production : Production} (hmem : production ∈ entry.2) : (entry.1, production) ∈ lines := by
  rw [(h.eq_of_mem hentry).2] at hmem
  exact mem_alternatives.mp hmem

theorem Collects.entries_ne_nil {table : Table} {lines : List (Symbol × Production)}
    (h : table.Collects lines) (hne : lines ≠ []) : table.entries ≠ [] := by
  intro hnil
  cases lines with
  | nil => exact hne rfl
  | cons line rest =>
      have hlookup := h line.1
      have hmem : line.2 ∈ alternatives (line :: rest) line.1 :=
        mem_alternatives.mpr List.mem_cons_self
      rw [lookup, hnil, listed_of_ne_nil (List.ne_nil_of_mem hmem)] at hlookup
      contradiction

def Entry.lines (entry : Entry) : List (Symbol × Production) :=
  entry.2.map (Prod.mk entry.1)

def lines (table : Table) : List (Symbol × Production) :=
  table.entries.flatMap Entry.lines

theorem alternatives_entry (entry : Entry) (predecessor : Symbol) :
    alternatives entry.lines predecessor = if entry.1 = predecessor then entry.2 else [] := by
  obtain ⟨key, list⟩ := entry
  induction list with
  | nil => simp [Entry.lines]
  | cons production list ih =>
      change alternatives ([(key, production)] ++ Entry.lines (key, list)) predecessor = _
      rw [alternatives_append, alternatives_singleton, ih]
      by_cases h : key = predecessor
      · simp [h]
      · simp [h]

theorem lookup_eq_listed {entries : List Entry} (h : Increasing entries)
    (hne : ∀ entry ∈ entries, entry.2 ≠ []) (predecessor : Symbol) :
    entries.lookup predecessor = listed (alternatives (entries.flatMap Entry.lines) predecessor) := by
  induction entries with
  | nil => rfl
  | cons first rest ih =>
      have hrest := ih (List.pairwise_cons.mp h).2 (fun entry hmem => hne entry (.tail _ hmem))
      obtain ⟨key, list⟩ := first
      have htail := lookup_tail h predecessor
      rw [List.flatMap_cons, alternatives_append, alternatives_entry]
      by_cases hkey : predecessor = key
      · subst hkey
        rw [if_pos rfl] at htail
        rw [htail] at hrest
        have hnil : alternatives (rest.flatMap Entry.lines) predecessor = [] := by
          by_contra hsome
          rw [listed_of_ne_nil hsome] at hrest
          contradiction
        rw [if_pos rfl, hnil, List.append_nil, listed_of_ne_nil (hne _ List.mem_cons_self)]
        simp
      · rw [if_neg hkey] at htail
        rw [if_neg (Ne.symm hkey), List.nil_append, ← hrest, htail]

theorem collects_lines {table : Table} (h : ∀ entry ∈ table.entries, entry.2 ≠ []) :
    table.Collects table.lines :=
  lookup_eq_listed table.increasing h

end Table

end Lindenmayer
