import Lindenmayer.Binary64.Basic
import Lindenmayer.Symbol

/-! Predecessors are kept in increasing order, and their alternatives as they were added. -/

namespace Lindenmayer

structure Production where
  probability : Binary64
  successor : Word
  deriving BEq, DecidableEq

abbrev Table.Entry := Symbol × List Production

namespace Table

def Increasing (entries : List Entry) : Prop :=
  entries.Pairwise (fun left right => left.1 < right.1)

/-- Adds an alternative at the end of its predecessor's list, or opens a list in its place. -/
def insert (predecessor : Symbol) (production : Production) : List Entry → List Entry
  | [] => [(predecessor, [production])]
  | entry :: rest =>
      if predecessor < entry.1 then (predecessor, [production]) :: entry :: rest
      else if predecessor = entry.1 then (entry.1, entry.2 ++ [production]) :: rest
      else entry :: insert predecessor production rest

theorem mem_insert {predecessor : Symbol} {production : Production} {entries : List Entry}
    {entry : Entry} (h : entry ∈ insert predecessor production entries) :
    entry.1 = predecessor ∨ ∃ other ∈ entries, other.1 = entry.1 := by
  induction entries with
  | nil =>
      simp only [insert, List.mem_singleton] at h
      exact .inl (h ▸ rfl)
  | cons first rest ih =>
      simp only [insert] at h
      split at h
      · rcases List.mem_cons.mp h with rfl | hmem
        · exact .inl rfl
        · exact .inr ⟨entry, hmem, rfl⟩
      · split at h
        · rcases List.mem_cons.mp h with rfl | hmem
          · exact .inr ⟨first, List.mem_cons_self, rfl⟩
          · exact .inr ⟨entry, List.mem_cons_of_mem _ hmem, rfl⟩
        · rcases List.mem_cons.mp h with rfl | hmem
          · exact .inr ⟨entry, List.mem_cons_self, rfl⟩
          · rcases ih hmem with heq | ⟨other, hother, heq⟩
            · exact .inl heq
            · exact .inr ⟨other, List.mem_cons_of_mem _ hother, heq⟩

theorem increasing_insert (predecessor : Symbol) (production : Production) {entries : List Entry}
    (h : Increasing entries) : Increasing (insert predecessor production entries) := by
  induction entries with
  | nil => exact List.pairwise_singleton _ _
  | cons first rest ih =>
      obtain ⟨hfirst, hrest⟩ := List.pairwise_cons.mp h
      simp only [insert]
      split
      · rename_i hlt
        refine List.pairwise_cons.mpr ⟨fun entry hmem => ?_, h⟩
        rcases List.mem_cons.mp hmem with rfl | hmem
        · exact hlt
        · exact Symbol.lt_trans hlt (hfirst entry hmem)
      · rename_i hnlt
        split
        · exact List.pairwise_cons.mpr ⟨hfirst, hrest⟩
        · rename_i hne
          refine List.pairwise_cons.mpr ⟨fun entry hmem => ?_, ih hrest⟩
          rcases mem_insert hmem with heq | ⟨other, hother, heq⟩
          · rw [heq]
            exact Symbol.lt_of_not_lt_of_ne hnlt hne
          · rw [← heq]
            exact hfirst other hother

end Table

structure Table where
  entries : List Table.Entry
  increasing : Table.Increasing entries
  deriving DecidableEq

namespace Table

/-- Numeric comparison of the probabilities, entry by entry. -/
instance : BEq Table := ⟨fun left right => left.entries == right.entries⟩

def empty : Table :=
  ⟨[], List.Pairwise.nil⟩

@[simp] theorem entries_empty : empty.entries = [] := rfl

def add (table : Table) (predecessor : Symbol) (production : Production) : Table :=
  ⟨insert predecessor production table.entries,
    increasing_insert predecessor production table.increasing⟩

@[simp] theorem entries_add (table : Table) (predecessor : Symbol) (production : Production) :
    (table.add predecessor production).entries =
      insert predecessor production table.entries := rfl

def ofList (lines : List (Symbol × Production)) : Table :=
  lines.foldl (fun table line => table.add line.1 line.2) empty

@[simp] theorem ofList_nil : ofList [] = empty := rfl

theorem ofList_append_singleton (lines : List (Symbol × Production))
    (line : Symbol × Production) :
    ofList (lines ++ [line]) = (ofList lines).add line.1 line.2 := by
  simp [ofList]

def predecessors (table : Table) : List Symbol :=
  table.entries.map Prod.fst

def lookup (table : Table) (predecessor : Symbol) : Option (List Production) :=
  table.entries.lookup predecessor

def count (table : Table) : Nat :=
  (table.entries.flatMap Prod.snd).length

@[simp] theorem lookup_empty (predecessor : Symbol) : empty.lookup predecessor = none := rfl

@[simp] theorem count_empty : empty.count = 0 := rfl

theorem lookup_insert_self (predecessor : Symbol) (production : Production)
    {entries : List Entry} (h : Increasing entries) :
    (insert predecessor production entries).lookup predecessor =
      some ((entries.lookup predecessor).getD [] ++ [production]) := by
  induction entries with
  | nil => simp [insert]
  | cons first rest ih =>
      obtain ⟨hfirst, hrest⟩ := List.pairwise_cons.mp h
      simp only [insert]
      split
      · rename_i hlt
        have hnone : (first :: rest).lookup predecessor = none := by
          rw [List.lookup_eq_none_iff]
          intro entry hmem
          have hbelow : predecessor < entry.1 := by
            rcases List.mem_cons.mp hmem with rfl | hmem
            · exact hlt
            · exact Symbol.lt_trans hlt (hfirst entry hmem)
          simp only [bne_iff_ne, ne_eq]
          rintro rfl
          exact Symbol.lt_irrefl _ hbelow
        rw [hnone]
        simp
      · split
        · rename_i heq
          obtain ⟨key, list⟩ := first
          subst heq
          simp
        · rename_i hne
          have hbeq : (predecessor == first.1) = false := by simpa using hne
          obtain ⟨key, list⟩ := first
          simp only [List.lookup_cons, hbeq]
          exact ih hrest

theorem lookup_insert_of_ne {predecessor other : Symbol} (production : Production)
    (hne : other ≠ predecessor) (entries : List Entry) :
    (insert predecessor production entries).lookup other = entries.lookup other := by
  have hother : (other == predecessor) = false := by simpa using hne
  induction entries with
  | nil => simp [insert, List.lookup_cons, hother]
  | cons first rest ih =>
      obtain ⟨key, list⟩ := first
      simp only [insert]
      split
      · simp [List.lookup_cons, hother]
      · split
        · rename_i heq
          subst heq
          simp [List.lookup_cons, hother]
        · simp [List.lookup_cons, ih]

theorem lookup_add (table : Table) (predecessor other : Symbol) (production : Production) :
    (table.add predecessor production).lookup other =
      if other = predecessor then some ((table.lookup predecessor).getD [] ++ [production])
      else table.lookup other := by
  split
  · rename_i heq
    subst heq
    exact lookup_insert_self _ _ table.increasing
  · rename_i hne
    exact lookup_insert_of_ne _ hne _

@[simp] theorem count_add (table : Table) (predecessor : Symbol) (production : Production) :
    (table.add predecessor production).count = table.count + 1 := by
  simp only [count, entries_add]
  induction table.entries with
  | nil => simp [insert]
  | cons first rest ih =>
      simp only [insert]
      split
      · simp
      · split
        · simp
          omega
        · simp [ih]
          omega

end Table

end Lindenmayer
