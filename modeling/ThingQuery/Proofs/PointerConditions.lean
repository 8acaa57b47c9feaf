import ThingQuery.Proofs.Legibility

/-!
# Comparisons of pointers

A written comparison of pointers lists every key in every table, and its operators have their meaning for sets of
pointers (`Filter.writtenHolds`).  The same filter is tested key by key: a key is hit when it is stored in any of the
tables.  The two agree for all operators but `CONTAINSALL`, which asks for every listed pointer in the text and for
every key otherwise.  They differ exactly when a record can store a key in one table and not in another
(`Filter.writtenHolds_eq_satisfies_iff`).
-/

namespace ThingQuery

open Fragment (chars write)

/-! ### The meaning of the text -/

/-- The pointers that a record stores under a path, each as a table and a key. -/
def storedPointers (record : Json) (path : String) : List (String × String) :=
  (Store.textsOf (record.get? path)).filterMap splitColon?

/-- Whether there is one stored pointer and it is listed. -/
def isListed (stored listed : List (String × String)) : Bool :=
  match stored with
  | [pointer] => listed.contains pointer
  | _ => false

namespace ListOp

/-- Whether the operator is for one stored pointer. -/
def isSingle : ListOp → Bool
  | .isIn | .notIn => true
  | .containsAll | .containsAny | .containsNone => false

/-- Whether a comparison of stored pointers with listed ones holds. -/
def testPointers (op : ListOp) (stored listed : List (String × String)) : Bool :=
  match op with
  | .isIn => isListed stored listed
  | .notIn => !isListed stored listed
  | .containsAll => listed.all stored.contains
  | .containsAny => listed.any stored.contains
  | .containsNone => !listed.any stored.contains

end ListOp

/-- Whether a text, with its parameters, is a comparison of stored pointers with listed ones that holds of a record. -/
def pointerTextHolds (text : String) (params : Params) (record : Json) : Bool :=
  match Condition.read? text with
  | some (.pointers op path none listed) =>
    op.testPointers (storedPointers record path) (Condition.listedPointers params listed)
  | _ => false

/-- Whether the text of a filter is a comparison of pointers that holds of a record. -/
def Filter.writtenHolds (params : Params) (f : Filter) (record : Json) : Bool :=
  pointerTextHolds (write params f.fragment).1 (write params f.fragment).2 record

namespace Filter

theorem ReadsAs.read?_eq {params : Params} {f : Filter} {c : Condition} (h : f.ReadsAs params c) :
    Condition.read? (write params f.fragment).1 = some c := by
  have hread := h _ [] (Nat.le_refl _) .nil
  rw [List.append_nil, chars, String.length_toList] at hread
  rw [Condition.read?, hread]

/-- The text lists every key in every table. -/
theorem writtenHolds_ref (params : Params) (op : ListOp) (left : String) (ids tables : List String) (record : Json) :
    writtenHolds params (.ref op left ids (some tables) none) record =
      op.testPointers (storedPointers record left) (tables ×ˢ ids) := by
  obtain ⟨listed, hreads, hlisted⟩ := exists_readsAs_pointers params op left ids tables none
  rw [writtenHolds, pointerTextHolds, hreads.read?_eq]
  simp only [hlisted _ (.refl _)]

end Filter

/-! ### Keys and pointers -/

theorem isListed_eq_any {stored listed : List (String × String)} (h : stored.length ≤ 1) :
    isListed stored listed = listed.any stored.contains := by
  match stored with
  | [] => simp [isListed]
  | [pointer] =>
    rw [Bool.eq_iff_iff]
    simp [isListed]
  | _ :: _ :: _ => simp at h

namespace Store

variable {store : Store} {tables : List String}

theorem pointsTo_iff (hregistered : ∀ t ∈ tables, (store.tables.get? t).isSome = true) (text id : String) :
    store.pointsTo text id (some tables) = true ↔ ∃ t ∈ tables, splitColon? text = some (t, id) := by
  unfold pointsTo splitPointer?
  cases splitColon? text with
  | none => simp
  | some pair =>
    obtain ⟨table, key⟩ := pair
    by_cases hmem : table ∈ tables
    · have htable := hregistered table hmem
      simp only [htable, if_true, Option.all_some, Bool.and_eq_true, beq_iff_eq, List.contains_iff_mem]
      constructor
      · rintro ⟨rfl, _⟩
        exact ⟨table, hmem, rfl⟩
      · rintro ⟨t, _, ht⟩
        cases ht
        exact ⟨rfl, hmem⟩
    · have hnone : ¬∃ t ∈ tables, some (table, key) = some (t, id) := by
        rintro ⟨t, ht, heq⟩
        cases heq
        exact hmem ht
      rw [iff_false_right hnone]
      split <;> simp_all

/-- A key is hit when it is stored in one of the tables. -/
theorem any_pointsTo_iff (hregistered : ∀ t ∈ tables, (store.tables.get? t).isSome = true) (record : Json)
    (left id : String) :
    (store.pointers record left none).any (store.pointsTo · id (some tables)) = true ↔
      ∃ t ∈ tables, (t, id) ∈ storedPointers record left := by
  simp only [List.any_eq_true, pointsTo_iff hregistered, storedPointers, List.mem_filterMap]
  constructor
  · rintro ⟨text, htext, t, ht, hsplit⟩
    exact ⟨t, ht, text, htext, hsplit⟩
  · rintro ⟨t, ht, text, htext, hsplit⟩
    exact ⟨text, htext, t, ht, hsplit⟩

end Store

/-! ### Pairs of tables and keys -/

theorem not_mem_of_splitColon? {text table id : String} (h : splitColon? text = some (table, id)) :
    ':' ∉ table.toList := by
  unfold splitColon? at h
  split at h
  · cases h
  · cases h
    intro hmem
    rw [String.toList_ofList] at hmem
    simpa using List.all_eq_true.1 List.all_takeWhile _ hmem

theorem splitColon?_pointerText {table : String} (h : ':' ∉ table.toList) (id : String) :
    splitColon? (pointerText table id) = some (table, id) := by
  have htext : (pointerText table id).toList = table.toList ++ ':' :: id.toList := by simp [pointerText]
  have htable : ∀ c ∈ table.toList, (c != ':') = true := by
    intro c hc
    simp only [bne_iff_ne, ne_eq]
    rintro rfl
    exact h hc
  unfold splitColon?
  rw [htext, List.dropWhile_append_of_pos htable, List.takeWhile_append_of_pos htable]
  simp

/-- Whether all keys can be stored without all pointers: there are keys, and besides a table that a pointer can name
there is another one. -/
def Scattered (tables ids : List String) : Prop :=
  ids ≠ [] ∧ ∃ t ∈ tables, ':' ∉ t.toList ∧ ∃ t' ∈ tables, t' ≠ t

section

variable {tables : List String} {stored : List (String × String)} {hit : String → Bool}

theorem any_contains_product (hhit : ∀ id, hit id = true ↔ ∃ t ∈ tables, (t, id) ∈ stored) (ids : List String) :
    (tables ×ˢ ids).any stored.contains = ids.any hit := by
  rw [Bool.eq_iff_iff]
  simp only [List.any_eq_true, hhit, List.contains_iff_mem, Prod.exists, List.mem_product]
  constructor
  · rintro ⟨t, id, ⟨ht, hid⟩, hstored⟩
    exact ⟨id, hid, t, ht, hstored⟩
  · rintro ⟨id, hid, t, ht, hstored⟩
    exact ⟨t, id, ⟨ht, hid⟩, hstored⟩

/-- If no two tables can be told apart by a stored pointer, storing all keys is storing all pointers. -/
theorem all_contains_product (hhit : ∀ id, hit id = true ↔ ∃ t ∈ tables, (t, id) ∈ stored)
    (hstored : ∀ t id, (t, id) ∈ stored → ':' ∉ t.toList) (htables : tables ≠ []) {ids : List String}
    (hids : ¬Scattered tables ids) : (tables ×ˢ ids).all stored.contains = ids.all hit := by
  rw [Bool.eq_iff_iff]
  simp only [List.all_eq_true, hhit, List.contains_iff_mem, Prod.forall, List.mem_product]
  constructor
  · intro h id hid
    obtain ⟨t, ht⟩ := List.exists_mem_of_ne_nil tables htables
    exact ⟨t, ht, h t id ⟨ht, hid⟩⟩
  · rintro h t' id ⟨ht', hid⟩
    obtain ⟨t, ht, hmem⟩ := h id hid
    have htt' : t' = t := by
      by_contra hne
      exact hids ⟨List.ne_nil_of_mem hid, t, ht, hstored t id hmem, t', ht', hne⟩
    rwa [htt']

end

/-! ### Agreement -/

namespace Store

/-- The store with the given tables, all of them empty. -/
def withTables (tables : List String) : Store := tables.foldl addTable empty

theorem isSome_get?_addTable {store : Store} {table t : String}
    (h : t = table ∨ (store.tables.get? t).isSome = true) : ((store.addTable table).tables.get? t).isSome = true := by
  unfold addTable
  cases hget : store.tables.get? table with
  | some rows =>
    rcases h with rfl | h
    · exact Option.isSome_of_eq_some hget
    · exact h
  | none =>
    by_cases ht : t = table
    · rw [ht, NameMap.get?_insert_self]
      rfl
    · rw [NameMap.get?_insert_of_ne _ _ ht]
      exact h.resolve_left ht

theorem isSome_get?_foldl_addTable {tables : List String} {store : Store} {t : String}
    (h : t ∈ tables ∨ (store.tables.get? t).isSome = true) :
    ((tables.foldl addTable store).tables.get? t).isSome = true := by
  induction tables generalizing store with
  | nil => exact h.resolve_left List.not_mem_nil
  | cons table tables ih =>
    refine ih ?_
    rcases h with h | h
    · rcases List.mem_cons.1 h with rfl | h
      · exact .inr (isSome_get?_addTable (.inl rfl))
      · exact .inl h
    · exact .inr (isSome_get?_addTable (.inr h))

theorem isSome_get?_withTables {tables : List String} :
    ∀ t ∈ tables, ((withTables tables).tables.get? t).isSome = true :=
  fun _ ht => isSome_get?_foldl_addTable (.inl ht)

end Store

namespace Filter

variable {tables : List String}

/-- The text agrees with the test of the keys, unless all pointers are asked for and all keys can be stored without
them. -/
theorem writtenHolds_eq_satisfies (params : Params) (op : ListOp) (left : String) {ids : List String}
    (htables : tables ≠ []) (hids : op = .containsAll → ¬Scattered tables ids) {store : Store}
    (hregistered : ∀ t ∈ tables, (store.tables.get? t).isSome = true) {record : Json}
    (hsingle : op.isSingle = true → (storedPointers record left).length ≤ 1) :
    writtenHolds params (.ref op left ids (some tables) none) record =
      store.satisfies (.ref op left ids (some tables) none) record := by
  have hhit := store.any_pointsTo_iff hregistered record left
  have hany := any_contains_product hhit ids
  rw [writtenHolds_ref, Store.satisfies]
  cases op with
  | isIn => exact (isListed_eq_any (hsingle rfl)).trans hany
  | notIn => exact congrArg (!·) ((isListed_eq_any (hsingle rfl)).trans hany)
  | containsAny => exact hany
  | containsNone => exact congrArg (!·) hany
  | containsAll =>
    refine all_contains_product hhit (fun t id hmem => ?_) htables (hids rfl)
    obtain ⟨text, _, hsplit⟩ := List.mem_filterMap.1 hmem
    exact not_mem_of_splitColon? hsplit

/-- A record that stores all keys in one table. -/
def recordIn (table left : String) (ids : List String) : Json :=
  .object [(left, .array (ids.map fun id => .string (pointerText table id)))]

theorem storedPointers_recordIn {table : String} (h : ':' ∉ table.toList) (left : String) (ids : List String) :
    storedPointers (recordIn table left ids) left = ids.map (table, ·) := by
  have htexts : Store.textsOf ((recordIn table left ids).get? left) = ids.map (pointerText table) := by
    simp [recordIn, Json.get?, Store.textsOf, List.filterMap_map, Function.comp_def, Json.string?]
  rw [storedPointers, htexts, List.filterMap_map]
  simp [splitColon?_pointerText h]

/-- A record that stores all keys in one table does not store all pointers if there is another table. -/
theorem writtenHolds_recordIn (params : Params) {table other : String} (hcolon : ':' ∉ table.toList)
    (hother : other ∈ tables) (hne : other ≠ table) (left : String) {ids : List String} (hids : ids ≠ []) :
    writtenHolds params (.ref .containsAll left ids (some tables) none) (recordIn table left ids) = false := by
  obtain ⟨id, hid⟩ := List.exists_mem_of_ne_nil ids hids
  rw [writtenHolds_ref, ListOp.testPointers, storedPointers_recordIn hcolon, List.all_eq_false]
  refine ⟨(other, id), List.mem_product.2 ⟨hother, hid⟩, ?_⟩
  simp [hne.symm]

theorem satisfies_recordIn {table : String} (hcolon : ':' ∉ table.toList) (htable : table ∈ tables) (left : String)
    (ids : List String) :
    (Store.withTables tables).satisfies (.ref .containsAll left ids (some tables) none) (recordIn table left ids) =
      true := by
  rw [Store.satisfies, ListOp.testKeys, List.all_eq_true]
  intro id hid
  rw [Store.any_pointsTo_iff Store.isSome_get?_withTables, storedPointers_recordIn hcolon]
  exact ⟨table, htable, List.mem_map.2 ⟨id, hid, rfl⟩⟩

/-- The text of a comparison of pointers holds of the records that satisfy it, for all stores that have its tables,
exactly when it does not ask for all pointers where the keys can be stored without them. -/
theorem writtenHolds_eq_satisfies_iff (params : Params) (op : ListOp) (left : String) (ids : List String)
    (htables : tables ≠ []) :
    (∀ (store : Store) (record : Json), (∀ t ∈ tables, (store.tables.get? t).isSome = true) →
        (op.isSingle = true → (storedPointers record left).length ≤ 1) →
        writtenHolds params (.ref op left ids (some tables) none) record =
          store.satisfies (.ref op left ids (some tables) none) record) ↔
      (op = .containsAll → ¬Scattered tables ids) := by
  constructor
  · rintro hagree rfl ⟨hids, table, htable, hcolon, other, hother, hne⟩
    have heq := hagree (Store.withTables tables) (recordIn table left ids) Store.isSome_get?_withTables
      fun h => by cases h
    rw [writtenHolds_recordIn params hcolon hother hne left hids, satisfies_recordIn hcolon htable left ids] at heq
    cases heq
  · intro hids store record hregistered hsingle
    exact writtenHolds_eq_satisfies params op left htables hids hregistered hsingle

theorem writtenHolds_eq_satisfies_iff_users :
    ["User", "God"] ≠ [] ∧
      writtenHolds .empty (.ref .notIn "user" ["u1", "u2"] (some ["User", "God"]) none) (recordIn "God" "user" ["u2"]) =
        (Store.withTables ["User", "God"]).satisfies (.ref .notIn "user" ["u1", "u2"] (some ["User", "God"]) none)
          (recordIn "God" "user" ["u2"]) := by
  have htables : ["User", "God"] ≠ [] := List.cons_ne_nil _ _
  have hsingle : (storedPointers (recordIn "God" "user" ["u2"]) "user").length ≤ 1 := by
    rw [storedPointers_recordIn (by decide)]
    exact Nat.le_refl 1
  exact ⟨htables, (writtenHolds_eq_satisfies_iff .empty .notIn "user" ["u1", "u2"] htables).2 (by simp) _ _
    Store.isSome_get?_withTables fun _ => hsingle⟩

/-- A record with pointers to two users does not hold the pointers to two gods that the text asks for as well. -/
theorem writtenHolds_ne_satisfies_users :
    (∀ t ∈ ["User", "God"], ((Store.withTables ["User", "God"]).tables.get? t).isSome = true) ∧
      writtenHolds .empty (.ref .containsAll "users" ["u1", "u2"] (some ["User", "God"]) none)
          (recordIn "User" "users" ["u1", "u2"]) = false ∧
      (Store.withTables ["User", "God"]).satisfies (.ref .containsAll "users" ["u1", "u2"] (some ["User", "God"]) none)
          (recordIn "User" "users" ["u1", "u2"]) = true := by
  have hcolon : ':' ∉ "User".toList := by decide
  have hother : "God" ∈ ["User", "God"] := by simp
  refine ⟨Store.isSome_get?_withTables, ?_, satisfies_recordIn hcolon List.mem_cons_self _ _⟩
  exact writtenHolds_recordIn .empty hcolon hother (by decide) "users" (List.cons_ne_nil _ _)

end Filter

end ThingQuery
