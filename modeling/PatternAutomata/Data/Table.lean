/-! # Tables keyed by strings

A table keeps its entries in the order in which their keys were first put in.
Putting a present key again changes its value and not its place; erasing a key
and putting it again moves it to the end. The keys are distinct by construction.
-/

namespace PatternAutomata

/-- A finite map from strings that remembers the order of its keys. -/
@[ext]
structure Table (α : Type) where
  /-- The entries, oldest key first. -/
  entries : List (String × α)
  /-- No key has two entries. -/
  distinct : (entries.map Prod.fst).Nodup := by simp
deriving DecidableEq

namespace Table

variable {α β : Type}

instance : EmptyCollection (Table α) := ⟨⟨[], .nil⟩⟩

instance : Inhabited (Table α) := ⟨∅⟩

/-- The keys, oldest first. -/
def keys (table : Table α) : List String :=
  table.entries.map Prod.fst

/-- The values, in the order of their keys. -/
def values (table : Table α) : List α :=
  table.entries.map Prod.snd

/-- The value kept under a key. -/
def find? (table : Table α) (key : String) : Option α :=
  table.entries.lookup key

theorem nodup_keys (table : Table α) : table.keys.Nodup := table.distinct

@[simp] theorem entries_empty : (∅ : Table α).entries = [] := rfl

@[simp] theorem keys_empty : (∅ : Table α).keys = [] := rfl

@[simp] theorem values_empty : (∅ : Table α).values = [] := rfl

@[simp] theorem find?_empty (key : String) : (∅ : Table α).find? key = none := rfl

private theorem lookup_eq_some_iff_mem {entries : List (String × α)}
    (distinct : (entries.map Prod.fst).Nodup) {key : String} {value : α} :
    entries.lookup key = some value ↔ (key, value) ∈ entries := by
  induction entries with
  | nil => simp
  | cons entry rest ih =>
      obtain ⟨name, content⟩ := entry
      have ⟨fresh, restDistinct⟩ := List.nodup_cons.mp distinct
      by_cases same : key = name
      · subst same
        have absent : (key, value) ∉ rest := fun member =>
          fresh (List.mem_map.mpr ⟨_, member, rfl⟩)
        simp only [List.lookup_cons, BEq.rfl, List.mem_cons, Prod.mk.injEq, true_and, absent,
          or_false, Option.some.injEq]
        exact eq_comm
      · have apart : (key == name) = false := by simpa using same
        simp only [List.lookup_cons, apart, ih restDistinct, List.mem_cons, Prod.mk.injEq, same,
          false_and, false_or]

theorem find?_eq_some_iff {table : Table α} {key : String} {value : α} :
    table.find? key = some value ↔ (key, value) ∈ table.entries :=
  lookup_eq_some_iff_mem table.distinct

/-- A key has one value. -/
theorem value_unique {table : Table α} {key : String} {value other : α}
    (member : (key, value) ∈ table.entries) (also : (key, other) ∈ table.entries) :
    value = other := by
  rw [← find?_eq_some_iff] at member also
  exact Option.some.inj (member.symm.trans also)

theorem mem_keys_of_find? {table : Table α} {key : String} {value : α}
    (found : table.find? key = some value) : key ∈ table.keys :=
  List.mem_map.mpr ⟨_, find?_eq_some_iff.mp found, rfl⟩

theorem mem_values_of_find? {table : Table α} {key : String} {value : α}
    (found : table.find? key = some value) : value ∈ table.values :=
  List.mem_map.mpr ⟨_, find?_eq_some_iff.mp found, rfl⟩

theorem find?_eq_none_iff {table : Table α} {key : String} :
    table.find? key = none ↔ key ∉ table.keys := by
  constructor
  · intro missing member
    obtain ⟨⟨name, value⟩, inside, rfl⟩ := List.mem_map.mp member
    rw [find?_eq_some_iff.mpr inside] at missing
    cases missing
  · intro absent
    cases found : table.find? key with
    | none => rfl
    | some value =>
        exact absurd (mem_keys_of_find? found) absent

theorem mem_keys_iff {table : Table α} {key : String} :
    key ∈ table.keys ↔ ∃ value, table.find? key = some value := by
  constructor
  · intro member
    obtain ⟨⟨name, value⟩, inside, rfl⟩ := List.mem_map.mp member
    exact ⟨value, find?_eq_some_iff.mpr inside⟩
  · intro given
    obtain ⟨value, found⟩ := given
    exact mem_keys_of_find? found

/-- Replaces the value of a key, or adds an entry at the end when the key is
absent. -/
def insertInto (key : String) (value : α) : List (String × α) → List (String × α)
  | [] => [(key, value)]
  | entry :: rest =>
      if entry.1 = key then (key, value) :: rest else entry :: insertInto key value rest

theorem keys_insertInto (key : String) (value : α) (entries : List (String × α)) :
    (insertInto key value entries).map Prod.fst =
      if key ∈ entries.map Prod.fst then entries.map Prod.fst
      else entries.map Prod.fst ++ [key] := by
  induction entries with
  | nil => simp [insertInto]
  | cons entry rest ih =>
      unfold insertInto
      by_cases same : entry.1 = key
      · simp [same]
      · simp only [same, if_false, List.map_cons, ih, List.mem_cons, Ne.symm same, false_or]
        split <;> rfl

theorem lookup_insertInto (key other : String) (value : α) (entries : List (String × α)) :
    (insertInto key value entries).lookup other =
      if other = key then some value else entries.lookup other := by
  induction entries with
  | nil =>
      by_cases same : other = key
      · simp [insertInto, same]
      · simp [insertInto, List.lookup_cons, beq_eq_false_iff_ne.mpr same, same]
  | cons entry rest ih =>
      obtain ⟨name, content⟩ := entry
      unfold insertInto
      by_cases asked : other = name
      · subst asked
        by_cases same : other = key <;> simp [same]
      · have apart : (other == name) = false := beq_eq_false_iff_ne.mpr asked
        by_cases same : name = key
        · subst same
          simp [List.lookup_cons, apart, asked]
        · simp [same, List.lookup_cons, apart, ih]

/-- Keeps a value under a key. A present key keeps its place and an absent one
is added at the end. -/
def insert (table : Table α) (key : String) (value : α) : Table α where
  entries := insertInto key value table.entries
  distinct := by
    rw [keys_insertInto]
    split
    · exact table.distinct
    · refine List.nodup_append.mpr ⟨table.distinct, by simp, ?_⟩
      intro name member other single
      rw [List.mem_singleton.mp single]
      exact fun same => absurd (same ▸ member) ‹_›

theorem keys_insert (table : Table α) (key : String) (value : α) :
    (table.insert key value).keys =
      if key ∈ table.keys then table.keys else table.keys ++ [key] :=
  keys_insertInto key value table.entries

theorem find?_insert (table : Table α) (key other : String) (value : α) :
    (table.insert key value).find? other =
      if other = key then some value else table.find? other :=
  lookup_insertInto key other value table.entries

theorem mem_keys_insert {table : Table α} {key other : String} {value : α} :
    other ∈ (table.insert key value).keys ↔ other = key ∨ other ∈ table.keys := by
  rw [keys_insert]
  split
  · exact ⟨Or.inr, fun h => h.elim (fun same => same ▸ ‹_›) id⟩
  · rw [List.mem_append, List.mem_singleton]
    exact or_comm

private theorem insertInto_insertInto (key : String) (first second : α)
    (entries : List (String × α)) :
    insertInto key second (insertInto key first entries) = insertInto key second entries := by
  induction entries with
  | nil => simp [insertInto]
  | cons entry rest ih =>
      by_cases same : entry.1 = key
      · simp [insertInto, same]
      · simp [insertInto, same, ih]

theorem insert_insert (table : Table α) (key : String) (first second : α) :
    (table.insert key first).insert key second = table.insert key second :=
  Table.ext (insertInto_insertInto key first second table.entries)

/-- Removes a key and its value; the other entries keep their order. -/
def erase (table : Table α) (key : String) : Table α where
  entries := table.entries.filter fun entry => entry.1 ≠ key
  distinct := table.distinct.sublist (List.filter_sublist.map Prod.fst)

theorem keys_erase (table : Table α) (key : String) :
    (table.erase key).keys = table.keys.filter (· ≠ key) := by
  simp only [keys, erase, List.filter_map]
  rfl

theorem find?_erase (table : Table α) (key other : String) :
    (table.erase key).find? other = if other = key then none else table.find? other := by
  by_cases same : other = key
  · subst same
    simp [find?_eq_none_iff, keys_erase]
  · simp only [same, if_false]
    cases found : table.find? other with
    | none =>
        rw [find?_eq_none_iff] at found ⊢
        exact fun member => found (List.mem_filter.mp (keys_erase table key ▸ member)).1
    | some value =>
        rw [find?_eq_some_iff] at found ⊢
        exact List.mem_filter.mpr ⟨found, by simpa using same⟩

/-- The table of a list of entries: for a repeated key the first entry gives the
place and the last one the value. -/
def ofList (entries : List (String × α)) : Table α :=
  entries.foldl (fun table entry => table.insert entry.1 entry.2) ∅

theorem entries_insert_of_not_mem {table : Table α} {key : String} {value : α}
    (absent : key ∉ table.keys) :
    (table.insert key value).entries = table.entries ++ [(key, value)] := by
  obtain ⟨entries, distinct⟩ := table
  change insertInto key value entries = entries ++ [(key, value)]
  change key ∉ entries.map Prod.fst at absent
  clear distinct
  induction entries with
  | nil => rfl
  | cons entry rest ih =>
      have other : key ≠ entry.1 := List.ne_of_not_mem_cons absent
      have later : key ∉ rest.map Prod.fst := List.not_mem_of_not_mem_cons absent
      rw [insertInto, if_neg other.symm, ih later, List.cons_append]

/-- Keeping a value that is kept already changes nothing. -/
theorem insert_of_find? {table : Table α} {key : String} {value : α}
    (found : table.find? key = some value) : table.insert key value = table := by
  obtain ⟨entries, distinct⟩ := table
  apply Table.ext
  change entries.lookup key = some value at found
  change insertInto key value entries = entries
  clear distinct
  induction entries with
  | nil => cases found
  | cons entry rest ih =>
      obtain ⟨name, content⟩ := entry
      by_cases same : name = key
      · subst same
        rw [List.lookup_cons, BEq.rfl] at found
        cases found
        exact if_pos rfl
      · have apart : (key == name) = false := beq_eq_false_iff_ne.mpr (Ne.symm same)
        rw [List.lookup_cons, apart] at found
        rw [insertInto, if_neg same, ih found]

/-- The entries of a table with one more are that one and those of before. -/
theorem mem_entries_insert {table : Table α} {key : String} {value : α} {entry : String × α}
    (member : entry ∈ (table.insert key value).entries) :
    entry = (key, value) ∨ entry ∈ table.entries := by
  obtain ⟨name, content⟩ := entry
  have found := find?_eq_some_iff.mpr member
  rw [find?_insert] at found
  by_cases same : name = key
  · rw [if_pos same, Option.some.injEq] at found
    exact Or.inl (by rw [same, found])
  · rw [if_neg same] at found
    exact Or.inr (find?_eq_some_iff.mp found)

/-- A list of entries with distinct keys is the table's own list. -/
theorem entries_ofList {entries : List (String × α)} (distinct : (entries.map Prod.fst).Nodup) :
    (ofList entries).entries = entries := by
  have appended (rest : List (String × α)) (table : Table α)
      (apart : (table.keys ++ rest.map Prod.fst).Nodup) :
      (rest.foldl (fun table entry => table.insert entry.1 entry.2) table).entries =
        table.entries ++ rest := by
    induction rest generalizing table with
    | nil => exact (List.append_nil _).symm
    | cons entry rest ih =>
        have absent : entry.1 ∉ table.keys := fun member =>
          (List.nodup_append.mp apart).2.2 _ member _ List.mem_cons_self rfl
        have keys : (table.insert entry.1 entry.2).keys = table.keys ++ [entry.1] := by
          rw [keys_insert, if_neg absent]
        rw [List.foldl_cons, ih _ (by rw [keys]; simpa using apart),
          entries_insert_of_not_mem absent, List.append_assoc, List.singleton_append]
  exact appended entries ∅ (by simpa using distinct)

/-- Applies a function to every value. -/
def map (change : α → β) (table : Table α) : Table β where
  entries := table.entries.map fun entry => (entry.1, change entry.2)
  distinct := by
    rw [List.map_map]
    exact table.distinct

@[simp] theorem keys_map (change : α → β) (table : Table α) :
    (table.map change).keys = table.keys := by
  simp [keys, map, Function.comp_def]

@[simp] theorem values_map (change : α → β) (table : Table α) :
    (table.map change).values = table.values.map change := by
  simp [values, map, Function.comp_def]

@[simp] theorem find?_map (change : α → β) (table : Table α) (key : String) :
    (table.map change).find? key = (table.find? key).map change := by
  obtain ⟨entries, distinct⟩ := table
  simp only [find?, map]
  induction entries with
  | nil => rfl
  | cons entry rest ih =>
      obtain ⟨name, content⟩ := entry
      have restDistinct := (List.nodup_cons.mp distinct).2
      simp only [List.map_cons, List.lookup_cons]
      cases key == name
      · exact ih restDistinct
      · rfl

end Table

end PatternAutomata
