import JsonQuery.Entries

/-!
# Facts about tables

What `find?`, `insert` and `ofWrites` say about the entries of a table, and what `sorted` keeps:
two tables without repeated keys have the same sorted form if and only if they have the same
entries (`sorted_eq_iff`).
-/

namespace JsonQuery

namespace Entries

variable {α : Type}

theorem mem_of_find? {key : String} {value : α} {table : Entries α}
    (found : find? key table = some value) : (key, value) ∈ table := by
  induction table with
  | nil => cases found
  | cons entry rest ih =>
    obtain ⟨k, old⟩ := entry
    rw [find?] at found
    split at found
    case isTrue same =>
      obtain rfl := Option.some.inj found
      exact same ▸ List.mem_cons_self
    case isFalse => exact List.mem_cons_of_mem _ (ih found)

/-- Whatever a table holds was in it before or is what was written. -/
theorem mem_of_mem_insert {key : String} {value : α} {table : Entries α} {entry : String × α}
    (mem : entry ∈ insert key value table) : entry = (key, value) ∨ entry ∈ table := by
  induction table with
  | nil => exact Or.inl (List.mem_singleton.mp mem)
  | cons first rest ih =>
    obtain ⟨k, old⟩ := first
    rw [insert] at mem
    split at mem
    · exact List.mem_cons.mp mem
    split at mem
    · rcases List.mem_cons.mp mem with rfl | mem
      · exact Or.inl rfl
      · exact Or.inr (List.mem_cons_of_mem _ mem)
    · rcases List.mem_cons.mp mem with rfl | mem
      · exact Or.inr List.mem_cons_self
      · rcases ih mem with rfl | mem
        · exact Or.inl rfl
        · exact Or.inr (List.mem_cons_of_mem _ mem)

theorem mem_of_mem_ofWrites {writes : List (String × α)} {entry : String × α}
    (mem : entry ∈ ofWrites writes) : entry ∈ writes := by
  suffices general : ∀ table : Entries α,
      entry ∈ writes.foldl (fun table write => table.insert write.1 write.2) table →
        entry ∈ table ∨ entry ∈ writes from
    (general [] mem).resolve_left List.not_mem_nil
  clear mem
  induction writes with
  | nil => exact fun _ mem => Or.inl mem
  | cons write writes ih =>
    intro table mem
    rcases ih _ mem with mem | mem
    · rcases mem_of_mem_insert mem with rfl | mem
      · exact Or.inr List.mem_cons_self
      · exact Or.inl mem
    · exact Or.inr (List.mem_cons_of_mem _ mem)

theorem find?_eq_none_iff {key : String} {table : Entries α} :
    find? key table = none ↔ key ∉ table.keys := by
  induction table with
  | nil => simp [find?, keys]
  | cons entry rest ih =>
    rw [find?, keys, List.map_cons, List.mem_cons, not_or, ← keys, ← ih]
    split
    case isTrue same => simp [same]
    case isFalse other => exact (and_iff_right (Ne.symm other)).symm

theorem find?_append (key : String) (a b : Entries α) :
    find? key (a ++ b) = (find? key a).or (find? key b) := by
  induction a with
  | nil => rfl
  | cons entry rest ih =>
    rw [List.cons_append, find?, find?]
    split
    · rfl
    · exact ih

/-- Of the values that are written under a key, the last one stays. -/
theorem find?_ofWrites (key : String) (writes : List (String × α)) :
    find? key (ofWrites writes) = find? key writes.reverse := by
  suffices general : ∀ table : Entries α,
      find? key (writes.foldl (fun table write => table.insert write.1 write.2) table) =
        (find? key writes.reverse).or (find? key table) by
    rw [ofWrites, general, find?, Option.or_none]
  induction writes with
  | nil => exact fun table => rfl
  | cons write rest ih =>
    intro table
    rw [List.foldl_cons, ih, List.reverse_cons, find?_append, Option.or_assoc, find?_insert, find?,
      find?]
    split <;> rfl

theorem mem_keys_ofWrites {key : String} {writes : List (String × α)} :
    key ∈ (ofWrites writes).keys ↔ key ∈ keys writes := by
  rw [← Decidable.not_iff_not, ← find?_eq_none_iff, find?_ofWrites, find?_eq_none_iff, keys, keys,
    List.map_reverse, List.mem_reverse]

/-! ### Tables without repeated keys -/

theorem Ascending.pairwise {table : Entries α} (h : table.Ascending) :
    table.Pairwise fun a b => a.1 < b.1 := List.pairwise_map.mp h

theorem Ascending.distinct {table : Entries α} (h : table.Ascending) : table.Distinct := by
  refine List.Pairwise.imp (fun lt => ?_) h
  rintro rfl
  exact String.lt_irrefl _ lt

theorem Distinct.perm {a b : Entries α} (h : Distinct a) (same : a.Perm b) : Distinct b :=
  (same.map Prod.fst).nodup_iff.mp h

theorem find?_of_mem {table : Entries α} (h : Distinct table) {key : String} {value : α}
    (mem : (key, value) ∈ table) : find? key table = some value := by
  induction table with
  | nil => cases mem
  | cons entry rest ih =>
    obtain ⟨k, old⟩ := entry
    obtain ⟨fresh, distinct⟩ := List.nodup_cons.mp h
    rw [find?]
    rcases List.mem_cons.mp mem with same | mem
    · cases same
      exact if_pos rfl
    · have other : k ≠ key := by
        rintro rfl
        exact fresh (List.mem_map.mpr ⟨_, mem, rfl⟩)
      rw [if_neg other]
      exact ih distinct mem

theorem find?_eq_some_iff {table : Entries α} (h : Distinct table) {key : String} {value : α} :
    find? key table = some value ↔ (key, value) ∈ table :=
  ⟨mem_of_find?, find?_of_mem h⟩

theorem find?_perm {a b : Entries α} (h : Distinct a) (same : a.Perm b) (key : String) :
    find? key a = find? key b := by
  refine Option.ext fun value => ?_
  rw [find?_eq_some_iff h, find?_eq_some_iff (h.perm same)]
  exact same.mem_iff

theorem perm_of_subset {a b : Entries α} (h : Distinct a) (size : a.length = b.length)
    (inside : ∀ entry ∈ a, entry ∈ b) : a.Perm b := by
  induction a generalizing b with
  | nil => rw [List.length_eq_zero_iff.mp size.symm]
  | cons entry rest ih =>
    obtain ⟨fresh, distinct⟩ := List.nodup_cons.mp h
    obtain ⟨before, after, rfl⟩ := List.append_of_mem (inside entry List.mem_cons_self)
    have others : ∀ other ∈ rest, other ∈ before ++ after := by
      intro other mem
      have ne : other ≠ entry := by
        rintro rfl
        exact fresh (List.mem_map.mpr ⟨_, mem, rfl⟩)
      simpa [ne] using inside other (List.mem_cons_of_mem _ mem)
    have shorter : rest.length = (before ++ after).length := by
      rw [List.length_append, List.length_cons, List.length_cons] at size
      rw [List.length_append]
      omega
    exact ((ih distinct shorter others).cons entry).trans List.perm_middle.symm

/-! ### Key order -/

theorem sorted_perm (table : Entries α) : table.sorted.Perm table := List.mergeSort_perm ..

theorem pairwise_sorted (table : Entries α) : table.sorted.Pairwise fun a b => a.1 ≤ b.1 := by
  have trans (a b c : String × α) (ab : decide (a.1 ≤ b.1)) (bc : decide (b.1 ≤ c.1)) :
      decide (a.1 ≤ c.1) :=
    decide_eq_true (String.le_trans (of_decide_eq_true ab) (of_decide_eq_true bc))
  have total (a b : String × α) : decide (a.1 ≤ b.1) || decide (b.1 ≤ a.1) := by
    simpa using String.le_total a.1 b.1
  exact (List.pairwise_mergeSort trans total table).imp of_decide_eq_true

theorem ascending_sorted {table : Entries α} (h : Distinct table) : table.sorted.Ascending := by
  have distinct : Distinct table.sorted := h.perm (sorted_perm table).symm
  refine List.pairwise_map.mpr (List.Pairwise.imp₂ (fun a b le ne => ?_) (pairwise_sorted table)
    (List.pairwise_map.mp distinct))
  exact String.not_le.mp fun ge => ne (String.le_antisymm le ge)

theorem sorted_sorted (table : Entries α) : table.sorted.sorted = table.sorted :=
  List.mergeSort_of_pairwise ((pairwise_sorted table).imp decide_eq_true)

theorem insert_of_lt {key : String} {table : Entries α} (below : ∀ entry ∈ table, entry.1 < key)
    (value : α) : insert key value table = table ++ [(key, value)] := by
  induction table with
  | nil => rfl
  | cons entry rest ih =>
    obtain ⟨here, there⟩ := List.forall_mem_cons.mp below
    have other : key ≠ entry.1 := by
      rintro rfl
      exact String.lt_irrefl _ here
    rw [insert, if_neg (String.lt_asymm here), if_neg other, ih there]
    rfl

theorem ofWrites_of_ascending {table : Entries α} (h : table.Ascending) :
    ofWrites table = table := by
  suffices general : ∀ before : Entries α, Ascending (before ++ table) →
      table.foldl (fun table write => table.insert write.1 write.2) before = before ++ table from
    general [] h
  clear h
  induction table with
  | nil => exact fun before _ => (List.append_nil before).symm
  | cons entry rest ih =>
    intro before ordered
    have below : ∀ other ∈ before, other.1 < entry.1 := fun other mem =>
      (List.pairwise_append.mp ordered.pairwise).2.2 other mem entry List.mem_cons_self
    rw [List.foldl_cons, insert_of_lt below, List.append_cons before entry rest]
    exact ih _ (List.append_cons before entry rest ▸ ordered)

theorem eq_of_perm {a b : Entries α} (ha : a.Ascending) (hb : b.Ascending) (same : a.Perm b) :
    a = b :=
  same.eq_of_pairwise (fun _ _ _ _ lt gt => absurd gt (String.lt_asymm lt))
    ha.pairwise hb.pairwise

/-- A table in any order has its fields sorted into the ascending one. -/
theorem sorted_of_perm {table members : Entries α} (same : table.Perm members)
    (h : members.Ascending) : table.sorted = members := by
  have distinct : Distinct table := h.distinct.perm same.symm
  exact eq_of_perm (ascending_sorted distinct) h ((sorted_perm table).trans same)

/-- The sorted form says which entries there are, and nothing else. -/
theorem sorted_eq_iff {a b : Entries α} (ha : Distinct a) (hb : Distinct b) :
    a.sorted = b.sorted ↔ a.Perm b := by
  constructor
  · intro same
    exact (sorted_perm a).symm.trans (same ▸ sorted_perm b)
  · intro same
    exact eq_of_perm (ascending_sorted ha) (ascending_sorted hb)
      ((sorted_perm a).trans (same.trans (sorted_perm b).symm))

/-! ### Changing the values -/

section MapValues

variable {β : Type}

def mapValues (f : α → β) (table : Entries α) : Entries β :=
  table.map fun entry => (entry.1, f entry.2)

theorem mapValues_cons (f : α → β) (entry : String × α) (rest : Entries α) :
    mapValues f (entry :: rest) = (entry.1, f entry.2) :: mapValues f rest := rfl

theorem keys_mapValues (f : α → β) (table : Entries α) : (mapValues f table).keys = table.keys := by
  rw [keys, mapValues, List.map_map]
  rfl

theorem Distinct.mapValues {f : α → β} {table : Entries α} (h : Distinct table) :
    Distinct (mapValues f table) := by
  rw [Distinct, keys_mapValues]
  exact h

theorem sorted_mapValues (f : α → β) (table : Entries α) :
    (mapValues f table).sorted = mapValues f table.sorted := by
  rw [sorted, sorted, mapValues, mapValues]
  refine (List.map_mergeSort ?_).symm
  exact fun _ _ _ _ => rfl

theorem find?_mapValues (f : α → β) (key : String) (table : Entries α) :
    find? key (mapValues f table) = (find? key table).map f := by
  induction table with
  | nil => rfl
  | cons entry rest ih =>
    rw [mapValues_cons, find?, find?]
    split
    · rfl
    · exact ih

theorem insert_mapValues (f : α → β) (key : String) (value : α) (table : Entries α) :
    insert key (f value) (mapValues f table) = mapValues f (insert key value table) := by
  induction table with
  | nil => rfl
  | cons entry rest ih =>
    rw [insert, mapValues_cons, insert]
    split
    · rfl
    split
    · rfl
    · exact congrArg ((entry.1, f entry.2) :: ·) ih

theorem ofWrites_mapValues (f : α → β) (writes : List (String × α)) :
    ofWrites (mapValues f writes) = mapValues f (ofWrites writes) := by
  suffices general : ∀ table : Entries α,
      (mapValues f writes).foldl (fun table write => insert write.1 write.2 table)
          (mapValues f table) =
        mapValues f (writes.foldl (fun table write => insert write.1 write.2 table) table) from
    general []
  induction writes with
  | nil => exact fun _ => rfl
  | cons write rest ih =>
    intro table
    rw [mapValues_cons, List.foldl_cons, List.foldl_cons]
    dsimp only
    rw [insert_mapValues]
    exact ih _

end MapValues

end Entries

end JsonQuery
