/-!
# Maps from names

Values under distinct names, kept in the order of the names (code points, which is also the order of their bytes).
The key facts say what a map holds after an insertion: the new value under its name (`get?_insert_self`) and the old
ones under all others (`get?_insert_of_ne`).
-/

namespace ThingQuery

/-- Puts a value under a name into a list of named values that is ordered by name. -/
def insertNamed {α : Type} (key : String) (value : α) : List (String × α) → List (String × α)
  | [] => [(key, value)]
  | (k, v) :: rest =>
    if key < k then (key, value) :: (k, v) :: rest
    else if key = k then (key, value) :: rest
    else (k, v) :: insertNamed key value rest

theorem eq_or_mem_of_mem_insertNamed {α : Type} {key : String} {value : α} {entries : List (String × α)}
    {e : String × α} (h : e ∈ insertNamed key value entries) : e = (key, value) ∨ e ∈ entries := by
  induction entries with
  | nil =>
    left
    simpa [insertNamed] using h
  | cons head rest ih =>
    obtain ⟨k, v⟩ := head
    unfold insertNamed at h
    split at h
    · simpa [List.mem_cons] using h
    · split at h
      · rcases List.mem_cons.1 h with rfl | h
        · exact .inl rfl
        · exact .inr (List.mem_cons_of_mem _ h)
      · rcases List.mem_cons.1 h with rfl | h
        · exact .inr List.mem_cons_self
        · exact (ih h).imp_right (List.mem_cons_of_mem _)

theorem lt_of_not_lt_of_ne {a b : String} (h : ¬a < b) (hne : a ≠ b) : b < a :=
  Decidable.byContradiction fun hn =>
    hne (String.le_antisymm (String.not_lt.1 hn) (String.not_lt.1 h))

theorem pairwise_insertNamed {α : Type} (key : String) (value : α) {entries : List (String × α)}
    (h : entries.Pairwise (·.1 < ·.1)) : (insertNamed key value entries).Pairwise (·.1 < ·.1) := by
  induction entries with
  | nil => simp [insertNamed]
  | cons head rest ih =>
    obtain ⟨k, v⟩ := head
    have ⟨hhead, hrest⟩ := List.pairwise_cons.1 h
    unfold insertNamed
    split
    · rename_i hlt
      refine List.pairwise_cons.2 ⟨fun e he => ?_, h⟩
      rcases List.mem_cons.1 he with rfl | he
      · exact hlt
      · exact String.lt_trans hlt (hhead e he)
    · split
      · rename_i heq
        subst heq
        exact List.pairwise_cons.2 ⟨hhead, hrest⟩
      · rename_i hlt hne
        refine List.pairwise_cons.2 ⟨fun e he => ?_, ih hrest⟩
        rcases eq_or_mem_of_mem_insertNamed he with rfl | he
        · exact lt_of_not_lt_of_ne hlt hne
        · exact hhead e he

/-- Values under distinct names in the order of the names. -/
structure NameMap (α : Type) where
  entries : List (String × α)
  ordered : entries.Pairwise (·.1 < ·.1)

namespace NameMap

variable {α : Type}

/-- The map without entries. -/
def empty : NameMap α := ⟨[], List.Pairwise.nil⟩

instance : Inhabited (NameMap α) := ⟨empty⟩

/-- The value under a name. -/
def get? (m : NameMap α) (key : String) : Option α := m.entries.lookup key

/-- Puts a value under a name in place of an earlier one. -/
def insert (m : NameMap α) (key : String) (value : α) : NameMap α :=
  ⟨insertNamed key value m.entries, pairwise_insertNamed key value m.ordered⟩

/-- The number of names. -/
def size (m : NameMap α) : Nat := m.entries.length

/-- Whether there is no name. -/
def isEmpty (m : NameMap α) : Bool := m.entries.isEmpty

/-- The names in order. -/
def keys (m : NameMap α) : List String := m.entries.map (·.1)

/-- The values in the order of their names. -/
def values (m : NameMap α) : List α := m.entries.map (·.2)

/-- The map of a list of named values, where the last one of a repeated name counts. -/
def ofList (entries : List (String × α)) : NameMap α :=
  entries.foldl (fun m e => m.insert e.1 e.2) empty

theorem get?_insert_self (m : NameMap α) (key : String) (value : α) :
    (m.insert key value).get? key = some value := by
  unfold get? insert
  dsimp only
  induction m.entries with
  | nil => simp [insertNamed]
  | cons head rest ih =>
    obtain ⟨k, v⟩ := head
    unfold insertNamed
    split
    · simp
    · split
      · simp
      · rename_i hne
        have : (key == k) = false := by simpa using hne
        simp [List.lookup_cons, this, ih]

theorem get?_insert_of_ne (m : NameMap α) {key other : String} (value : α) (h : other ≠ key) :
    (m.insert key value).get? other = m.get? other := by
  unfold get? insert
  dsimp only
  have hb : (other == key) = false := by simpa using h
  induction m.entries with
  | nil => simp [insertNamed, List.lookup_cons, hb]
  | cons head rest ih =>
    obtain ⟨k, v⟩ := head
    unfold insertNamed
    split
    · simp [List.lookup_cons, hb]
    · split
      · rename_i heq
        subst heq
        simp [List.lookup_cons, hb]
      · by_cases hk : other = k
        · subst hk
          simp
        · have : (other == k) = false := by simpa using hk
          simp [List.lookup_cons, this, ih]

theorem mem_of_get?_eq_some {m : NameMap α} {key : String} {value : α} (h : m.get? key = some value) :
    (key, value) ∈ m.entries := by
  obtain ⟨before, after, he, _⟩ := List.lookup_eq_some_iff.1 h
  rw [he]
  exact List.mem_append_right _ List.mem_cons_self

end NameMap

end ThingQuery
