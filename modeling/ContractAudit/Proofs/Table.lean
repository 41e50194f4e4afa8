import ContractAudit.Table
import Mathlib.Data.List.Basic
import Mathlib.Data.List.Induction
import Mathlib.Data.List.Nodup
import Mathlib.Data.List.Perm.Subperm

/-!
# Keys and values of tables

What entering a key does to the keys of a table and to the values at them, and what a list has in
common with its distinct elements.
-/

namespace ContractAudit

open List

section Distinct

variable {α : Type} [DecidableEq α] {item : α} (items : List α)

theorem distinct_concat (item : α) : distinct (items ++ [item]) = addNew (distinct items) item := by
  simp [distinct]

theorem mem_addNew {items : List α} {other : α} :
    other ∈ addNew items item ↔ other ∈ items ∨ other = item := by
  unfold addNew
  split
  · next hmem =>
      refine ⟨.inl, fun h => h.elim id fun heq => ?_⟩
      rwa [heq]
  · simp

theorem addNew_addNew (items : List α) (item : α) :
    addNew (addNew items item) item = addNew items item := by
  rw [addNew, if_pos (mem_addNew.mpr (.inr rfl))]

theorem mem_distinct {items : List α} : item ∈ distinct items ↔ item ∈ items := by
  induction items using reverseRecOn with
  | nil => rfl
  | append_singleton rest last ih => rw [distinct_concat, mem_addNew, ih]; simp

theorem distinct_filter (p : α → Bool) (items : List α) :
    distinct (items.filter p) = (distinct items).filter p := by
  induction items using reverseRecOn with
  | nil => rfl
  | append_singleton rest last ih =>
      rw [filter_append, distinct_concat]
      by_cases hlast : p last = true
      · rw [filter_cons_of_pos hlast, filter_nil, distinct_concat, ih]
        unfold addNew
        by_cases hmem : last ∈ distinct rest
        · rw [if_pos hmem, if_pos (mem_filter.mpr ⟨hmem, hlast⟩)]
        · rw [if_neg hmem, if_neg fun h => hmem (mem_filter.mp h).1]
          simp [hlast]
      · rw [filter_cons_of_neg hlast, filter_nil, append_nil, ih]
        unfold addNew
        split <;> simp [hlast]

/-- The distinct elements stand in the order in which they first occur. -/
theorem pairwise_distinct :
    (distinct items).Pairwise fun first second => items.idxOf first < items.idxOf second := by
  induction items using reverseRecOn with
  | nil => exact .nil
  | append_singleton rest last ih =>
      have hold : (distinct rest).Pairwise fun first second =>
          (rest ++ [last]).idxOf first < (rest ++ [last]).idxOf second := by
        refine ih.imp_of_mem fun hfirst hsecond hlt => ?_
        rwa [idxOf_append_of_mem (mem_distinct.mp hfirst),
          idxOf_append_of_mem (mem_distinct.mp hsecond)]
      rw [distinct_concat]
      unfold addNew
      split
      · exact hold
      · next hnew =>
          -- A new element comes behind all those before it.
          refine pairwise_append.mpr ⟨hold, pairwise_singleton _ _, ?_⟩
          intro first hfirst second hsecond
          rw [mem_distinct] at hnew hfirst
          rw [mem_singleton.mp hsecond, idxOf_append_of_mem hfirst, idxOf_append_of_notMem hnew]
          exact Nat.lt_of_lt_of_le (idxOf_lt_length_of_mem hfirst) (Nat.le_add_right _ _)

theorem nodup_distinct : (distinct items).Nodup :=
  (pairwise_distinct items).imp fun hlt heq => by
    rw [heq] at hlt
    exact Nat.lt_irrefl _ hlt

theorem distinct_eq_self {items : List α} (h : items.Nodup) : distinct items = items := by
  induction items using reverseRecOn with
  | nil => rfl
  | append_singleton rest last ih =>
      obtain ⟨hrest, _, hapart⟩ := nodup_append.mp h
      have hnew : last ∉ rest := fun hmem => hapart last hmem last (by simp) rfl
      rw [distinct_concat, ih hrest, addNew, if_neg hnew]

theorem length_distinct_iff {items : List α} :
    (distinct items).length = items.length ↔ items.Nodup := by
  constructor
  · intro hlength
    have hsubperm : (distinct items).Subperm items :=
      (nodup_distinct items).subperm fun _ hmem => mem_distinct.mp hmem
    exact (hsubperm.perm_of_length_le (Nat.le_of_eq hlength.symm)).nodup_iff.mp
      (nodup_distinct items)
  · intro hnodup
    rw [distinct_eq_self hnodup]

end Distinct

namespace Table

variable {κ α β γ : Type} {other : κ} {entries : List (κ × α)} {before : α → α} (change : κ → α → β)
  (table : Table κ α)

@[simp]
theorem length_keys : table.keys.length = table.size :=
  length_map _

@[simp]
theorem keys_mapValues : (table.mapValues change).keys = table.keys := by simp [mapValues, keys]

theorem mapValues_id : table.mapValues (fun _ value => value) = table := by simp [mapValues]

theorem mapValues_mapValues (next : κ → β → γ) (table : Table κ α) :
    (table.mapValues change).mapValues next =
      table.mapValues fun key value => next key (change key value) := by
  simp [mapValues]

variable [DecidableEq κ]

theorem contains_iff {table : Table κ α} {key : κ} :
    table.contains key = true ↔ key ∈ table.keys := by
  simp [contains, keys]

theorem get?_eq_none_iff {table : Table κ α} {key : κ} :
    table.get? key = none ↔ key ∉ table.keys := by
  rw [← contains_iff, get?, Option.map_eq_none_iff, find?_eq_none, contains, any_eq_true]
  simp only [not_exists, not_and]

theorem isSome_get? (key : κ) : (table.get? key).isSome = table.contains key := by
  cases hget : table.get? key with
  | none =>
      have hmissing := get?_eq_none_iff.mp hget
      rw [← contains_iff] at hmissing
      simp [Bool.eq_false_iff.mpr hmissing]
  | some value =>
      have hmem : key ∈ table.keys := by
        by_contra hmissing
        rw [get?_eq_none_iff.mpr hmissing] at hget
        cases hget
      simp [contains_iff.mpr hmem]

theorem get?_insert_self (key : κ) (value : α) :
    (table.insert key value).get? key = some value := by
  simp only [get?, insert]
  induction table.entries with
  | nil => simp [insertEntry]
  | cons entry rest ih =>
      by_cases hkey : entry.1 = key
      · simp [insertEntry, hkey]
      · simpa [insertEntry, hkey] using ih

theorem get?_insert_of_ne {key : κ} (value : α) (h : other ≠ key) :
    (table.insert key value).get? other = table.get? other := by
  simp only [get?, insert]
  induction table.entries with
  | nil => simp [insertEntry, h.symm]
  | cons entry rest ih =>
      by_cases hkey : entry.1 = key
      · simp [insertEntry, hkey, h.symm]
      · by_cases hother : entry.1 = other
        · simp [insertEntry, hother, h]
        · simpa [insertEntry, hkey, hother] using ih

theorem mem_keys_insert {table : Table κ α} {key : κ} {value : α} :
    other ∈ (table.insert key value).keys ↔ other ∈ table.keys ∨ other = key :=
  mem_map_insertEntry

theorem insertEntry_of_not_mem {key : κ} (h : key ∉ entries.map Prod.fst) (value : α) :
    insertEntry key value entries = entries ++ [(key, value)] := by
  induction entries with
  | nil => rfl
  | cons entry rest ih =>
      rw [map_cons, mem_cons, not_or] at h
      rw [insertEntry, if_neg (Ne.symm h.1), ih h.2, cons_append]

/-- A new key is entered behind the others. -/
theorem entries_insert_of_not_mem {table : Table κ α} {key : κ} (h : key ∉ table.keys) (value : α) :
    (table.insert key value).entries = table.entries ++ [(key, value)] :=
  insertEntry_of_not_mem h value

theorem insertNew_of_not_mem {table : Table κ α} {key : κ} (h : key ∉ table.keys) (value : α) :
    table.insertNew key value = table.insert key value :=
  if_neg fun hmem => h (contains_iff.mp hmem)

section Entries

variable {ι : Type} {key : ι → κ} {value : ι → α} {items : List ι}

theorem get?_foldl_insert_of_not_mem (h : other ∉ items.map key) (table : Table κ α) :
    (items.foldl (fun table item => table.insert (key item) (value item)) table).get? other =
      table.get? other := by
  induction items generalizing table with
  | nil => rfl
  | cons first rest ih =>
      rw [map_cons, mem_cons, not_or] at h
      rw [foldl_cons, ih h.2, get?_insert_of_ne _ _ h.1]

/-- What is entered under different keys is found under them. -/
theorem get?_foldl_insert (hdistinct : (items.map key).Nodup) {item : ι} (hitem : item ∈ items)
    (table : Table κ α) :
    (items.foldl (fun table item => table.insert (key item) (value item)) table).get? (key item) =
      some (value item) := by
  induction items generalizing table with
  | nil => cases hitem
  | cons first rest ih =>
      rw [map_cons, nodup_cons] at hdistinct
      rw [foldl_cons]
      rcases mem_cons.mp hitem with rfl | hrest
      · rw [get?_foldl_insert_of_not_mem hdistinct.1, get?_insert_self]
      · exact ih hdistinct.2 hrest _

end Entries

theorem get?_ofList (hdistinct : (entries.map Prod.fst).Nodup) {key : κ} {value : α}
    (h : (key, value) ∈ entries) : (ofList entries).get? key = some value :=
  get?_foldl_insert hdistinct h empty

theorem keys_insertNew {table : Table κ α} {key : κ} (h : key ∉ table.keys) (value : α) :
    (table.insertNew key value).keys = table.keys ++ [key] := by
  rw [insertNew_of_not_mem h, keys, entries_insert_of_not_mem h, map_append]
  rfl

theorem entries_foldl_insertNew (value : α) (keys : List κ) (table : Table κ α)
    (h : (table.keys ++ keys).Nodup) :
    (keys.foldl (fun table key => table.insertNew key value) table).entries =
      table.entries ++ keys.map fun key => (key, value) := by
  induction keys generalizing table with
  | nil => simp
  | cons key rest ih =>
      have hnew : key ∉ table.keys := fun hmem =>
        (nodup_append.mp h).2.2 key hmem key mem_cons_self rfl
      have hentries : (table.insertNew key value).entries = table.entries ++ [(key, value)] := by
        rw [insertNew_of_not_mem hnew, entries_insert_of_not_mem hnew]
      rw [foldl_cons, ih (table.insertNew key value), hentries, append_assoc]
      · rfl
      · rwa [keys_insertNew hnew, append_assoc]

theorem get?_insertNew_self {table : Table κ α} {key : κ} (h : key ∉ table.keys) (value : α) :
    (table.insertNew key value).get? key = some value := by
  rw [insertNew_of_not_mem h, get?_insert_self]

theorem get?_insertNew_of_mem {table : Table κ α} {key : κ} (h : other ∈ table.keys) (value : α) :
    (table.insertNew key value).get? other = table.get? other := by
  unfold insertNew
  split
  · rfl
  · next hnew =>
      refine get?_insert_of_ne _ _ fun heq => hnew ?_
      rwa [← heq, contains_iff]

theorem keys_insertNew_eq_addNew (key : κ) (value : α) :
    (table.insertNew key value).keys = addNew table.keys key := by
  unfold addNew
  split
  · next hmem => rw [insertNew, if_pos (contains_iff.mpr hmem)]
  · next hnew => exact keys_insertNew hnew value

/-- The table of entries of which the first of each key counts. -/
def ofFirst (items : List (κ × α)) : Table κ α :=
  items.foldl (fun table item => table.insertNew item.1 item.2) empty

theorem ofFirst_concat (items : List (κ × α)) (item : κ × α) :
    ofFirst (items ++ [item]) = (ofFirst items).insertNew item.1 item.2 := by
  simp [ofFirst]

theorem keys_ofFirst (items : List (κ × α)) :
    (ofFirst items).keys = distinct (items.map Prod.fst) := by
  induction items using reverseRecOn with
  | nil => rfl
  | append_singleton rest last ih =>
      rw [ofFirst_concat, keys_insertNew_eq_addNew, ih, map_append, map_singleton, distinct_concat]

theorem mem_entries_ofFirst {items : List (κ × α)} {entry : κ × α} :
    entry ∈ (ofFirst items).entries ↔ items.find? (fun item => item.1 = entry.1) = some entry := by
  induction items using reverseRecOn with
  | nil => simp [ofFirst, empty]
  | append_singleton rest last ih =>
      have hkey : last.1 ∈ (ofFirst rest).keys ↔ ∃ item ∈ rest, item.1 = last.1 := by
        rw [keys_ofFirst, mem_distinct, mem_map]
      rw [ofFirst_concat, find?_append]
      by_cases hold : last.1 ∈ (ofFirst rest).keys
      · -- The key has its entry already, and a search stops there.
        rw [insertNew, if_pos (contains_iff.mpr hold), ih]
        obtain ⟨item, hitem, heq⟩ := hkey.mp hold
        by_cases hlast : last.1 = entry.1
        · have hsome : (rest.find? fun item => item.1 = entry.1).isSome = true := by
            rw [find?_isSome]
            exact ⟨item, hitem, by simp [heq, hlast]⟩
          rw [Option.or_of_isSome hsome]
        · simp [hlast]
      · rw [insertNew_of_not_mem hold, entries_insert_of_not_mem hold, mem_append, ih,
          mem_singleton]
        by_cases hlast : last.1 = entry.1
        · have hnone : (rest.find? fun item => item.1 = entry.1) = none := by
            rw [find?_eq_none]
            intro item hitem hitemKey
            exact hold (hkey.mpr ⟨item, hitem, by simpa [hlast] using hitemKey⟩)
          have hfound : [last].find? (fun item => item.1 = entry.1) = some last := by simp [hlast]
          rw [hnone, hfound]
          simp [eq_comm]
        · have hne : entry ≠ last := fun heq => hlast (by rw [heq])
          simp [hlast, hne]

theorem entries_ofFirst {items : List (κ × α)} (h : (items.map Prod.fst).Nodup) :
    (ofFirst items).entries = items := by
  induction items using reverseRecOn with
  | nil => rfl
  | append_singleton rest last ih =>
      rw [map_append, map_singleton, nodup_append] at h
      have hnew : last.1 ∉ (ofFirst rest).keys := by
        rw [keys_ofFirst, mem_distinct]
        exact fun hmem => h.2.2 _ hmem _ (mem_singleton.mpr rfl) rfl
      rw [ofFirst_concat, insertNew_of_not_mem hnew, entries_insert_of_not_mem hnew, ih h.1]

theorem get?_eq_some_iff {table : Table κ α} {key : κ} {value : α} :
    table.get? key = some value ↔ (key, value) ∈ table.entries := by
  constructor
  · intro hget
    obtain ⟨entry, hfind, rfl⟩ := Option.map_eq_some_iff.mp hget
    have hkey : entry.1 = key := by simpa using find?_some hfind
    rw [← hkey]
    exact mem_of_find?_eq_some hfind
  · intro hmem
    have hsome : (table.get? key).isSome = true := by
      rw [isSome_get?, contains_iff]
      exact mem_map_of_mem hmem
    obtain ⟨entry, hfind⟩ := Option.isSome_iff_exists.mp (by simpa [get?] using hsome :
      (table.entries.find? fun entry => entry.1 = key).isSome = true)
    have hkey : entry.1 = key := by simpa using find?_some hfind
    -- The key is used once, so the entry that is found is the given one.
    have hsame := inj_on_of_nodup_map table.nodup (mem_of_find?_eq_some hfind) hmem hkey
    rw [get?, hfind, hsame, Option.map_some]

theorem get?_ofFirst (items : List (κ × α)) (key : κ) :
    (ofFirst items).get? key = (items.find? fun item => item.1 = key).map Prod.snd := by
  apply Option.ext
  intro value
  rw [get?_eq_some_iff, mem_entries_ofFirst, Option.map_eq_some_iff]
  constructor
  · intro hfind
    exact ⟨_, hfind, rfl⟩
  · intro hfind
    obtain ⟨item, hfind, rfl⟩ := hfind
    have hkey : item.1 = key := by simpa using find?_some hfind
    rw [← hkey] at hfind ⊢
    exact hfind

theorem get?_eq_of_perm {first second : Table κ α} (hperm : first.entries.Perm second.entries)
    (key : κ) : first.get? key = second.get? key := by
  apply Option.ext
  intro value
  rw [get?_eq_some_iff, get?_eq_some_iff, hperm.mem_iff]

theorem get?_mapValues (key : κ) :
    (table.mapValues change).get? key = (table.get? key).map (change key) := by
  simp only [get?, mapValues]
  induction table.entries with
  | nil => rfl
  | cons entry rest ih =>
      by_cases hkey : entry.1 = key
      · subst hkey
        simp
      · simpa [hkey] using ih

theorem mapValues_insert (key : κ) (value : α) : (table.insert key value).mapValues change =
      (table.mapValues change).insert key (change key value) := by
  refine Table.ext ?_
  simp only [mapValues, insert]
  induction table.entries with
  | nil => rfl
  | cons entry rest ih =>
      by_cases hkey : entry.1 = key
      · simp [insertEntry, hkey]
      · simpa [insertEntry, hkey] using ih

omit [DecidableEq κ] in
theorem mapValues_congr {table : Table κ α} {change other : κ → α → β}
    (h : ∀ entry ∈ table.entries, change entry.1 entry.2 = other entry.1 entry.2) :
    table.mapValues change = table.mapValues other :=
  Table.ext (map_congr_left fun entry hentry => by rw [h entry hentry])

@[simp]
theorem contains_mapValues (key : κ) :
    (table.mapValues change).contains key = table.contains key := by
  rw [Bool.eq_iff_iff, contains_iff, contains_iff, keys_mapValues]

theorem mapValues_modify (key : κ) {after : β → β} {change : κ → α → β}
    (h : ∀ value, change key (before value) = after (change key value)) :
    (table.modify key before).mapValues change = (table.mapValues change).modify key after := by
  rw [modify, modify, mapValues_mapValues, mapValues_mapValues]
  congr 1
  funext other value
  by_cases hother : other = key
  · rw [if_pos hother, if_pos hother, hother, h]
  · rw [if_neg hother, if_neg hother]

theorem mapValues_modify_of_eq (key : κ) {change : κ → α → β}
    (h : ∀ value, change key (before value) = change key value) :
    (table.modify key before).mapValues change = table.mapValues change := by
  rw [modify, mapValues_mapValues]
  congr 1
  funext other value
  split
  · next hother => rw [hother, h]
  · rfl

theorem modify_of_not_mem {table : Table κ α} {key : κ} (h : key ∉ table.keys) (change : α → α) :
    table.modify key change = table := by
  refine (mapValues_congr fun entry hentry => if_neg fun hkey => h ?_).trans (mapValues_id table)
  exact mem_map.mpr ⟨entry, hentry, hkey⟩

theorem modify_congr {table : Table κ α} {key : κ} {change other : α → α}
    (h : ∀ value, (key, value) ∈ table.entries → change value = other value) :
    table.modify key change = table.modify key other := by
  refine mapValues_congr fun entry hentry => ?_
  split
  · next hkey => rw [h entry.2 (hkey ▸ hentry)]
  · rfl

theorem modify_ite {table : Table κ α} (key : κ) (p : α → Prop) [DecidablePred p]
    (change : α → α) :
    table.modify key (fun value => if p value then change value else value) =
      if (table.get? key).any (fun value => p value) then table.modify key change else table := by
  cases hget : table.get? key with
  | none =>
      have hnew := get?_eq_none_iff.mp hget
      rw [modify_of_not_mem hnew, modify_of_not_mem hnew, ite_self]
  | some value =>
      have honly : ∀ other, (key, other) ∈ table.entries → other = value := by
        intro other hother
        rw [← get?_eq_some_iff, hget, Option.some_inj] at hother
        exact hother.symm
      show _ = if decide (p value) = true then table.modify key change else table
      rw [if_congr decide_eq_true_iff rfl rfl]
      by_cases hp : p value
      · rw [if_pos hp]
        exact modify_congr fun other hother => by rw [honly other hother, if_pos hp]
      · rw [if_neg hp]
        have hsame : table.modify key (fun value => value) = table := by
          simp only [modify, ite_self]
          exact mapValues_id table
        refine (modify_congr fun other hother => ?_).trans hsame
        rw [honly other hother, if_neg hp]

end Table

end ContractAudit
