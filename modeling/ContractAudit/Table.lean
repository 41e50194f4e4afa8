/-!
# Tables

A table is a finite map that remembers the order in which its keys were first entered. Lists serve
as sets in the same way: a new element is added at the end, and only if it is not there yet.
-/

namespace ContractAudit

/-- A list with an element added at its end unless it is in the list already. -/
def addNew {α : Type} [DecidableEq α] (items : List α) (item : α) : List α :=
  if item ∈ items then items else items ++ [item]

/-- The elements of a list without repetitions, each where it first occurs. -/
def distinct {α : Type} [DecidableEq α] (items : List α) : List α :=
  items.foldl addNew []

/-- Strings in increasing order of their code points. -/
def sortStrings (items : List String) : List String :=
  items.mergeSort fun x y => decide (x ≤ y)

/-- A finite map in the order of first entry: every key has one entry. -/
@[ext]
structure Table (κ α : Type) where
  entries : List (κ × α)
  nodup : (entries.map Prod.fst).Nodup

namespace Table

def empty {κ α : Type} : Table κ α :=
  ⟨[], .nil⟩

instance {κ α : Type} : Inhabited (Table κ α) :=
  ⟨empty⟩

def keys {κ α : Type} (table : Table κ α) : List κ :=
  table.entries.map Prod.fst

def values {κ α : Type} (table : Table κ α) : List α :=
  table.entries.map Prod.snd

def size {κ α : Type} (table : Table κ α) : Nat :=
  table.entries.length

/-- The table with every value changed, at its key. -/
def mapValues {κ α β : Type} (change : κ → α → β) (table : Table κ α) : Table κ β where
  entries := table.entries.map fun entry => (entry.1, change entry.1 entry.2)
  nodup := by simpa [Function.comp_def] using table.nodup

variable {κ α : Type} [DecidableEq κ]

def get? (table : Table κ α) (key : κ) : Option α :=
  (table.entries.find? fun entry => entry.1 = key).map Prod.snd

def contains (table : Table κ α) (key : κ) : Bool :=
  table.entries.any fun entry => entry.1 = key

/-- Entries with one more, which takes the place of an entry with the same key. -/
def insertEntry (key : κ) (value : α) : List (κ × α) → List (κ × α)
  | [] => [(key, value)]
  | entry :: rest =>
      if entry.1 = key then (key, value) :: rest else entry :: insertEntry key value rest

theorem mem_map_insertEntry {key other : κ} {value : α} {entries : List (κ × α)} :
    other ∈ (insertEntry key value entries).map Prod.fst ↔
      other ∈ entries.map Prod.fst ∨ other = key := by
  induction entries with
  | nil => simp [insertEntry]
  | cons entry rest ih =>
      unfold insertEntry
      split
      · next hkey => simp [← hkey, or_comm]
      · simp only [List.map_cons, List.mem_cons, ih, or_assoc]

theorem nodup_insertEntry {entries : List (κ × α)} (h : (entries.map Prod.fst).Nodup) (key : κ)
    (value : α) : ((insertEntry key value entries).map Prod.fst).Nodup := by
  induction entries with
  | nil => simp [insertEntry]
  | cons entry rest ih =>
      rw [List.map_cons, List.nodup_cons] at h
      unfold insertEntry
      split
      · next hkey => simpa [← hkey] using h
      · next hkey =>
          rw [List.map_cons, List.nodup_cons, mem_map_insertEntry, not_or]
          exact ⟨⟨h.1, hkey⟩, ih h.2⟩

/-- The table with a value at a key. A key that has a value keeps its place. -/
def insert (table : Table κ α) (key : κ) (value : α) : Table κ α :=
  ⟨insertEntry key value table.entries, nodup_insertEntry table.nodup key value⟩

/-- The table with a value at a key, unless the key has one. -/
def insertNew (table : Table κ α) (key : κ) (value : α) : Table κ α :=
  if table.contains key then table else table.insert key value

def erase (table : Table κ α) (key : κ) : Table κ α where
  entries := table.entries.filter fun entry => entry.1 ≠ key
  nodup := table.nodup.sublist (List.filter_sublist.map Prod.fst)

/-- The table with the value at a key changed, if the key has one. -/
def modify (table : Table κ α) (key : κ) (change : α → α) : Table κ α :=
  table.mapValues fun other value => if other = key then change value else value

/-- The table of the given entries, the last of those with one key. -/
def ofList (entries : List (κ × α)) : Table κ α :=
  entries.foldl (fun table entry => table.insert entry.1 entry.2) empty

end Table

end ContractAudit
