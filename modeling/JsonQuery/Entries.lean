/-!
# Entries

A table with string keys is a list of entries, each key once. A table that is made by `insert`
has them in strictly ascending key order, and the last write wins; `find?_insert` and
`ascending_insert` say so. `sorted` brings any table into that order. Strings are ordered by code
point, which is also the order of their UTF-8 bytes.
-/

namespace JsonQuery

/-- A table: string keys with their values. -/
abbrev Entries (α : Type) := List (String × α)

namespace Entries

variable {α : Type}

def find? (key : String) : Entries α → Option α
  | [] => none
  | (k, value) :: rest => if k = key then some value else find? key rest

/-- Writes `value` under `key`, in place of any value already there. -/
def insert (key : String) (value : α) : Entries α → Entries α
  | [] => [(key, value)]
  | (k, old) :: rest =>
    if key < k then (key, value) :: (k, old) :: rest
    else if key = k then (key, value) :: rest
    else (k, old) :: insert key value rest

/-- The table that writing `writes` from left to right leaves behind. -/
def ofWrites (writes : List (String × α)) : Entries α :=
  writes.foldl (fun table write => table.insert write.1 write.2) []

def keys (table : Entries α) : List String := table.map Prod.fst

/-- The same entries in key order. -/
def sorted (table : Entries α) : Entries α := table.mergeSort fun a b => a.1 ≤ b.1

def Distinct (table : Entries α) : Prop := table.keys.Nodup

instance (table : Entries α) : Decidable table.Distinct :=
  inferInstanceAs (Decidable table.keys.Nodup)

/-- Every key is smaller than the keys after it. -/
def Ascending (table : Entries α) : Prop := table.keys.Pairwise (· < ·)

instance (table : Entries α) : Decidable table.Ascending :=
  inferInstanceAs (Decidable (table.keys.Pairwise (· < ·)))

theorem lt_of_not_lt_of_ne {a b : String} (h : ¬a < b) (ne : a ≠ b) : b < a :=
  Decidable.byContradiction fun h' =>
    ne (String.le_antisymm (String.not_lt.mp h') (String.not_lt.mp h))

theorem find?_insert (key key' : String) (value : α) (table : Entries α) :
    find? key' (insert key value table) = if key = key' then some value else find? key' table := by
  induction table with
  | nil => simp [insert, find?]
  | cons entry rest ih =>
    obtain ⟨k, old⟩ := entry
    by_cases lt : key < k
    · simp [insert, find?, lt]
    by_cases same : key = k
    · subst same; by_cases h : key = key' <;> simp [insert, find?, h]
    · by_cases h : k = key'
      · subst h; simp [insert, find?, lt, same]
      · simp [insert, find?, lt, same, h, ih]

theorem mem_keys_insert {key key' : String} {value : α} {table : Entries α} :
    key' ∈ (insert key value table).keys ↔ key' = key ∨ key' ∈ table.keys := by
  induction table with
  | nil => simp [insert, keys]
  | cons entry rest ih =>
    obtain ⟨k, old⟩ := entry
    simp only [keys] at ih
    by_cases lt : key < k
    · simp [insert, keys, lt]
    by_cases same : key = k
    · subst same; simp [insert, keys]
    · simp only [insert, keys, lt, same, if_false, List.map_cons, List.mem_cons, ih]
      constructor <;> rintro (h | h | h) <;> simp [h]

theorem ascending_insert {key : String} {value : α} {table : Entries α} (h : table.Ascending) :
    (insert key value table).Ascending := by
  induction table with
  | nil => simp [insert, Ascending, keys]
  | cons entry rest ih =>
    obtain ⟨k, old⟩ := entry
    obtain ⟨below, sorted⟩ := List.pairwise_cons.mp h
    by_cases lt : key < k
    · simp only [insert, lt, if_true]
      exact List.pairwise_cons.mpr ⟨fun other mem => by
        rcases List.mem_cons.mp mem with rfl | mem
        · exact lt
        · exact String.lt_trans lt (below _ mem), h⟩
    by_cases same : key = k
    · subst same
      simp only [insert, lt, if_false, if_true]
      exact List.pairwise_cons.mpr ⟨below, sorted⟩
    · simp only [insert, lt, same, if_false]
      exact List.pairwise_cons.mpr ⟨fun other mem => by
        rcases mem_keys_insert.mp mem with rfl | mem
        · exact lt_of_not_lt_of_ne lt same
        · exact below _ mem, ih sorted⟩

theorem ascending_ofWrites (writes : List (String × α)) : (ofWrites writes).Ascending := by
  suffices general : ∀ table : Entries α, table.Ascending →
      (writes.foldl (fun table write => table.insert write.1 write.2) table).Ascending from
    general [] List.Pairwise.nil
  induction writes with
  | nil => exact fun _ h => h
  | cons write writes ih => exact fun _ h => ih _ (ascending_insert h)

end Entries

end JsonQuery
