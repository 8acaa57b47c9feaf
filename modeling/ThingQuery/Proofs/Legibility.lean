import Mathlib.Data.List.Forall2
import ThingQuery.Proofs.ConditionReading
import ThingQuery.Store.Satisfies

/-!
# Written filters can be read

A written filter is read back as a condition with the meaning of the filter, wherever the condition stands
(`Filter.isRead_of_legible`).  Two things are not told apart, and make no difference: a conjunction and a disjunction of
one part, and the listed tables and keys and any others with the same pairs.  The keys of a pointer list are lost when it
names no table, and `meta::id(id)` is the key of the record itself, so both are left out (`Filter.Legible`).
-/

namespace ThingQuery

open Fragment (chars write join between)

namespace Condition

/-! ### How a condition starts and ends -/

/-- Whether a text ends a condition: it is empty, closes a bracket or goes on with a connective. -/
inductive Closes : List Char → Prop where
  | nil : Closes []
  | round (rest : List Char) : Closes (')' :: rest)
  | square (rest : List Char) : Closes (']' :: rest)
  | and (rest : List Char) : Closes (" AND ".toList ++ rest)
  | or (rest : List Char) : Closes (" OR ".toList ++ rest)

theorem Closes.head {rest : List Char} (h : Closes rest) :
    ∀ c ∈ rest.head?, isNameChar c = false ∧ c ≠ '.' ∧ c ≠ ':' := by
  intro c hc
  cases h <;> cases hc <;> decide

theorem Closes.stops {rest : List Char} (h : Closes rest) : ∀ c ∈ rest.head?, isNameChar c = false :=
  fun c hc => (h.head c hc).1

theorem Closes.readOperator_eq_none {rest : List Char} (h : Closes rest) : readOperator rest = none := by
  cases h <;> rfl

theorem head_mark (op : Operator) (rest : List Char) :
    ∀ c ∈ (op.mark ++ rest).head?, isNameChar c = false ∧ c ≠ '.' ∧ c ≠ ':' := by
  intro c hc
  have : c = ' ' := by cases op <;> exact (Option.some.inj hc).symm
  subst this
  decide

theorem readWith_field (path : String) (tunnel : Option String) {tail : List Char}
    (htail : ∀ c ∈ tail.head?, isNameChar c = false ∧ c ≠ '.' ∧ c ≠ ':') (bound : Nat) :
    readWith (bound + 1) ((fieldText path tunnel).toList ++ tail) = readTest path tunnel tail := by
  have hfield : readField ((fieldText path tunnel).toList ++ tail) = some (path, tunnel, tail) :=
    readField_fieldText path tunnel fun c hc => ⟨(htail c hc).1, (htail c hc).2.1⟩
  obtain ⟨c, name, hname, hc⟩ := head_nameText path
  obtain ⟨text, htext⟩ : ∃ text, (fieldText path tunnel).toList ++ tail = c :: text := by
    cases tunnel with
    | none => exact ⟨name ++ tail, by simp [fieldText, hname]⟩
    | some role => exact ⟨name ++ '.' :: ((nameText role).toList ++ tail), by simp [fieldText, hname]⟩
  have hbang : '!' ≠ c := by
    rintro rfl
    revert hc
    decide
  have hround : '(' ≠ c := by
    rintro rfl
    revert hc
    decide
  have hcolon : after? "::".toList tail = none := by
    cases tail with
    | nil => rfl
    | cons d tail =>
      have hd : ':' ≠ d := fun h => (htail d rfl).2.2 h.symm
      exact after?_cons_of_ne hd [':'] tail
  rw [readWith, htext, show "!(".toList = '!' :: ['('] from rfl, after?_cons_of_ne hbang, after?_cons_of_ne hround,
    ← htext, hfield]
  simp only [Option.bind_eq_bind, Option.bind_some, hcolon]

theorem readWith_metaId (bound : Nat) (tail : List Char) :
    readWith (bound + 1) ("meta::id(".toList ++ tail) = readIdTest tail := by
  rw [readWith]
  rfl

/-- A column is read as a field, except for the key of the record. -/
theorem readWith_column (left : String) {tail : List Char} {result : Option (Condition × List Char)}
    (htail : ∀ c ∈ tail.head?, isNameChar c = false ∧ c ≠ '.' ∧ c ≠ ':') (hfield : readTest left none tail = result)
    (hid : left = idColumn → readIdTest ((fieldText idColumn none).toList ++ (")".toList ++ tail)) = result)
    (bound : Nat) : readWith (bound + 1) ((columnText left).toList ++ tail) = result := by
  by_cases hleft : left = idColumn
  · have htext : (columnText left).toList = "meta::id(".toList ++ ((fieldText idColumn none).toList ++ ")".toList) := by
      rw [columnText, if_pos hleft]
      rfl
    rw [htext, List.append_assoc, List.append_assoc, readWith_metaId, hid hleft]
  · have htext : columnText left = fieldText left none := if_neg hleft
    rw [htext, readWith_field left none htail, hfield]

theorem readWith_arrayMap (bound : Nat) (tail : List Char) :
    readWith (bound + 1) ("array::map(".toList ++ tail) = readKeysTest tail := by
  rw [readWith]
  rfl

theorem readWith_arrayLen (bound : Nat) (tail : List Char) :
    readWith (bound + 1) ("array::len(".toList ++ tail) = (do
      let (cardinality, path, tunnel, text) ← readRecords tail
      let text ← after? "[WHERE ".toList text
      let (inner, text) ← readWith bound text
      let rest ← after? "]) > 0".toList text
      some (.related cardinality path tunnel inner, rest)) := by
  rw [readWith]
  rfl

theorem readWith_not (bound : Nat) (tail : List Char) :
    readWith (bound + 1) ("!(".toList ++ tail) = (do
      let (part, text) ← readWith bound tail
      let rest ← after? [')'] text
      some (.not part, rest)) := by
  rw [readWith, after?_append]

theorem readWith_group (bound : Nat) (tail : List Char) :
    readWith (bound + 1) ("(".toList ++ tail) = (do
      let (isAll, parts, rest) ← readParts bound tail
      some (if isAll then .all parts else .any parts, rest)) := by
  rw [readWith]
  rfl

/-- What stands between the parts of a condition in brackets. -/
def connective (isAll : Bool) : String := if isAll then " AND " else " OR "

theorem closes_connective (isAll : Bool) (rest : List Char) : Closes ((connective isAll).toList ++ rest) := by
  cases isAll with
  | true => exact .and rest
  | false => exact .or rest

theorem readParts_nil (bound : Nat) (rest : List Char) :
    readParts (bound + 1) (')' :: rest) = some (false, [], rest) := by
  have hnone : readWith bound (')' :: rest) = none := by
    cases bound <;> rw [readWith]
    rfl
  simp only [readParts, hnone, after?_singleton, Option.map_some]

theorem readParts_singleton {bound : Nat} {text rest : List Char} {part : Condition}
    (hpart : readWith bound text = some (part, ')' :: rest)) :
    readParts (bound + 1) text = some (false, [part], rest) := by
  simp only [readParts, hpart, after?_singleton]

theorem readParts_cons {bound : Nat} {text more rest : List Char} {isAll flag : Bool} {part : Condition}
    {parts : List Condition} (hpart : readWith bound text = some (part, (connective isAll).toList ++ more))
    (hmore : readParts bound more = some (flag, parts, rest)) :
    readParts (bound + 1) text = some (isAll, part :: parts, rest) := by
  have hround : after? [')'] ((connective isAll).toList ++ more) = none := by cases isAll <;> rfl
  simp only [readParts, hpart, hround]
  cases isAll with
  | true => simp only [connective, if_true, after?_append, hmore, Option.map_some]
  | false =>
    have hand : after? " AND ".toList (" OR ".toList ++ more) = none := rfl
    simp only [connective, Bool.false_eq_true, if_false, hand, after?_append, hmore, Option.bind_eq_bind,
      Option.bind_some]

/-! ### Tests -/

variable (params : Params) {rest : List Char}

theorem readTest_scalar (op : ScalarOp) (path : String) (v : Json) (hrest : Closes rest) :
    readTest path none ((Operator.scalar op).mark ++ ((params.bind v).1.toList ++ rest)) =
      some (.scalar op path (Params.key params.freeNumber), rest) := by
  simp only [readTest, readOperator_append, readKey_bind params v hrest.stops, Option.map_some]

theorem readTest_list (op : ListOp) (path : String) (v : Json) (hrest : Closes rest) :
    readTest path none ((Operator.list op).mark ++ ((params.bind v).1.toList ++ rest)) =
      some (.list op path (Params.key params.freeNumber), rest) := by
  have hkey := readKey_bind params v hrest.stops
  have hsquare : after? ['['] ((params.bind v).1.toList ++ rest) = none := by
    simp [Params.bind, after?_cons_of_ne]
  simp only [readTest, readOperator_append, hsquare, hkey, Option.map_some]

theorem readIdTest_write (path : String) (tunnel : Option String) (op : Operator) (v : Json) (hrest : Closes rest) :
    readIdTest ((fieldText path tunnel).toList ++
        (")".toList ++ (op.mark ++ ((params.bind v).1.toList ++ rest)))) =
      match op with
      | .scalar op => some (.scalar op idColumn (Params.key params.freeNumber), rest)
      | .list op =>
        if path = idColumn ∧ tunnel = none then some (.list op idColumn (Params.key params.freeNumber), rest)
        else some (.keys op path tunnel (Params.key params.freeNumber), rest)
      | .null _ => none := by
  have hround : ∀ text : List Char, ∀ c ∈ (")".toList ++ text).head?, isNameChar c = false ∧ c ≠ '.' :=
    fun text => forall_mem_head?_cons (by decide) _
  have hclosing : ∀ text : List Char, after? [')'] (")".toList ++ text) = some text := after?_append [')']
  cases op <;>
    simp only [readIdTest, readField_fieldText path tunnel (hround _), hclosing, readOperator_append,
      readKey_bind params v hrest.stops, Option.bind_eq_bind, Option.bind_some]

theorem readKeysTest_write (path : String) (tunnel : Option String) (op : ListOp) (v : Json) (hrest : Closes rest) :
    readKeysTest ((fieldText path tunnel).toList ++
        (", |$v| meta::id($v))".toList ++ ((Operator.list op).mark ++ ((params.bind v).1.toList ++ rest)))) =
      some (.keys op path tunnel (Params.key params.freeNumber), rest) := by
  have hcomma : ∀ text : List Char,
      ∀ c ∈ (", |$v| meta::id($v))".toList ++ text).head?, isNameChar c = false ∧ c ≠ '.' :=
    fun text => forall_mem_head?_cons (by decide) _
  simp only [readKeysTest, readField_fieldText path tunnel (hcomma _), after?_append, readOperator_append,
    readKey_bind params v hrest.stops, Option.bind_eq_bind, Option.bind_some]

theorem readRecords_write (cardinality : Cardinality) (path : String) (tunnel : Option String) (text : List Char) :
    readRecords ((if cardinality.isMany then fieldText path tunnel else "[" ++ fieldText path tunnel ++ "]").toList ++
        ("[WHERE ".toList ++ text)) =
      some (cardinality, path, tunnel, "[WHERE ".toList ++ text) := by
  cases cardinality with
  | one =>
    have hsquare : ∀ c ∈ (']' :: ("[WHERE ".toList ++ text)).head?, isNameChar c = false ∧ c ≠ '.' :=
      forall_mem_head?_cons (by decide) _
    have htext : (if Cardinality.one.isMany then fieldText path tunnel
        else "[" ++ fieldText path tunnel ++ "]").toList ++ ("[WHERE ".toList ++ text) =
        ['['] ++ ((fieldText path tunnel).toList ++ (']' :: ("[WHERE ".toList ++ text))) := by
      simp [Cardinality.isMany]
    simp only [readRecords, htext, after?_append, readField_fieldText path tunnel hsquare, after?_singleton,
      Option.bind_eq_bind, Option.bind_some]
  | many =>
    have hsquare : ∀ c ∈ ("[WHERE ".toList ++ text).head?, isNameChar c = false ∧ c ≠ '.' :=
      forall_mem_head?_cons (by decide) _
    obtain ⟨c, name, hname, hc⟩ := head_nameText path
    have hopen : after? ['['] ((fieldText path tunnel).toList ++ ("[WHERE ".toList ++ text)) = none := by
      have hne : '[' ≠ c := by
        rintro rfl
        revert hc
        decide
      cases tunnel <;> simp [fieldText, hname, after?_cons_of_ne hne]
    simp only [readRecords, Cardinality.isMany, if_true, hopen, readField_fieldText path tunnel hsquare,
      Option.bind_eq_bind, Option.bind_some]

end Condition

/-! ### Meanings -/

/-- The operators on keys look at which keys there are, not at their order and number. -/
theorem ListOp.testKeys_congr (op : ListOp) {hit hit' : String → Bool} {ids ids' : List String}
    (hids : ∀ id, id ∈ ids ↔ id ∈ ids') (hhit : ∀ id, hit id = hit' id) :
    op.testKeys hit ids = op.testKeys hit' ids' := by
  have hany : ids.any hit = ids'.any hit' := by
    rw [Bool.eq_iff_iff, List.any_eq_true, List.any_eq_true]
    simp only [hids, hhit]
  have hall : ids.all hit = ids'.all hit' := by
    rw [Bool.eq_iff_iff, List.all_eq_true, List.all_eq_true]
    simp only [hids, hhit]
  cases op <;> simp [testKeys, hany, hall]

theorem Store.pointsTo_congr (store : Store) (text id : String) {tables tables' : List String}
    (h : ∀ t, t ∈ tables ↔ t ∈ tables') :
    store.pointsTo text id (some tables) = store.pointsTo text id (some tables') := by
  have hcontains : ∀ t, tables.contains t = tables'.contains t := by
    intro t
    rw [Bool.eq_iff_iff, List.contains_iff_mem, List.contains_iff_mem, h]
  unfold pointsTo
  simp only [Option.all_some, hcontains]

/-- The pairs of some tables and keys tell the tables and the keys apart, if there is a table. -/
theorem Store.satisfies_ref_product (store : Store) (record : Json) (op : ListOp) (left : String) (ids : List String)
    {tables : List String} (htables : tables ≠ []) (tunnel : Option String) :
    store.satisfies (.ref op left ((tables ×ˢ ids).map (·.2)) (some ((tables ×ˢ ids).map (·.1))) tunnel) record =
      store.satisfies (.ref op left ids (some tables) tunnel) record := by
  obtain ⟨table, htable⟩ := List.exists_mem_of_ne_nil tables htables
  have hids : ∀ id, id ∈ (tables ×ˢ ids).map (·.2) ↔ id ∈ ids := by
    intro id
    simp only [List.mem_map, Prod.exists, List.mem_product]
    constructor
    · rintro ⟨_, _, ⟨_, hid⟩, rfl⟩
      exact hid
    · intro hid
      exact ⟨table, id, ⟨htable, hid⟩, rfl⟩
  cases ids with
  | nil =>
    rw [satisfies, satisfies, List.product_nil]
    cases op <;> rfl
  | cons first others =>
    have htabs : ∀ t, t ∈ (tables ×ˢ (first :: others)).map (·.1) ↔ t ∈ tables := by
      intro t
      simp only [List.mem_map, Prod.exists, List.mem_product]
      constructor
      · rintro ⟨_, _, ⟨ht, _⟩, rfl⟩
        exact ht
      · intro ht
        exact ⟨t, first, ⟨ht, List.mem_cons_self⟩, rfl⟩
    rw [satisfies, satisfies]
    refine op.testKeys_congr hids fun id => ?_
    exact congrArg ((store.pointers record left tunnel).any ·) (funext fun p => store.pointsTo_congr p id htabs)

/-- Whether a condition, with the values of its parameters, holds of the same records as a filter. -/
def Condition.Means (final : Params) (c : Condition) (f : Filter) : Prop :=
  ∀ (store : Store) (record : Json), store.satisfies (c.filter final) record = store.satisfies f record

theorem Condition.Means.satisfiesAll {final : Params} {parts : List Condition} {children : List Filter}
    (h : List.Forall₂ (Condition.Means final) parts children) (store : Store) (record : Json) :
    store.satisfiesAll (Condition.filters final parts) record = store.satisfiesAll children record := by
  induction h with
  | nil => rfl
  | cons hpart _ ih => rw [filters, Store.satisfiesAll, Store.satisfiesAll, hpart store record, ih]

theorem Condition.Means.satisfiesAny {final : Params} {parts : List Condition} {children : List Filter}
    (h : List.Forall₂ (Condition.Means final) parts children) (store : Store) (record : Json) :
    store.satisfiesAny (Condition.filters final parts) record = store.satisfiesAny children record := by
  induction h with
  | nil => rfl
  | cons hpart _ ih => rw [filters, Store.satisfiesAny, Store.satisfiesAny, hpart store record, ih]

theorem Params.value_of_extends_bind {params final : Params} {v : Json} (h : final.Extends (params.bind v).2) :
    final.value (key params.freeNumber) = v := by
  simp [value, h _ _ (params.get?_bind_self v)]

theorem Params.items_of_extends_bind {params final : Params} {items : List Json}
    (h : final.Extends (params.bind (.array items)).2) : final.items (key params.freeNumber) = items := by
  simp [Params.items, value_of_extends_bind h, Json.array?]

/-! ### Filters -/

/-- Whether a condition is what a filter is read as: from its text, in front of any text that ends a condition. -/
def Filter.ReadsAs (params : Params) (f : Filter) (c : Condition) : Prop :=
  ∀ bound rest, (chars params f.fragment).length ≤ bound → Condition.Closes rest →
    Condition.readWith bound (chars params f.fragment ++ rest) = some (c, rest)

/-- Whether a filter is read as a condition with its meaning. -/
def Filter.IsRead (params : Params) (f : Filter) : Prop :=
  ∃ c, f.ReadsAs params c ∧ ∀ final : Params, final.Extends (write params f.fragment).2 → c.Means final f

namespace Filter

mutual

/-- Whether nothing of a filter is lost when it is written: where keys are looked for in given tables there is some
table, and keys that are looked for in any table are not compared with the key of the record itself. -/
def Legible : Filter → Prop
  | .ref _ _ _ (some tables) _ => tables ≠ []
  | .ref _ left _ none _ => left ≠ idColumn
  | .and children => AllLegible children
  | .or children => AllLegible children
  | .not child => Legible child
  | .nested _ _ _ inner => Legible inner
  | .scalar .. | .list .. | .null .. | .falsy => True

/-- Whether nothing of the filters of a list is lost when they are written. -/
def AllLegible : List Filter → Prop
  | [] => True
  | f :: rest => Legible f ∧ AllLegible rest

end

variable (params : Params)

/-- A comparison of a column as it is written. -/
theorem chars_comparison (left sign : String) (v : Json) :
    chars params (.text (columnText left ++ " " ++ sign ++ " ") :: Fragment.ofValue v) =
      (columnText left).toList ++ (' ' :: (sign.toList ++ [' ']) ++ (params.bind v).1.toList) := by
  simp [Fragment.ofValue]

theorem chars_fragment_ne_nil (f : Filter) : chars params f.fragment ≠ [] := by
  cases f with
  | scalar op left right => simp [fragment]
  | list op left right => simp [fragment]
  | ref op left ids tables tunnel => cases tables <;> cases op <;> simp [fragment, refFragment, between]
  | null op left tunnel => cases op <;> simp [fragment, Fragment.ofText]
  | and children => cases children <;> simp [fragment, Fragment.ofText, between]
  | or children => simp [fragment, between]
  | not child => simp [fragment, between]
  | nested path cardinality tunnel inner => simp [fragment, between]
  | falsy => simp [fragment, Fragment.ofText]

theorem exists_bound_eq_succ {f : Filter} {bound : Nat} (hbound : (chars params f.fragment).length ≤ bound) :
    ∃ b, bound = b + 1 := by
  have hpos := List.length_pos_of_ne_nil (chars_fragment_ne_nil params f)
  exact ⟨bound - 1, by omega⟩

theorem isRead_scalar (op : ScalarOp) (left : String) (right : Json) : IsRead params (.scalar op left right) := by
  refine ⟨.scalar op left (Params.key params.freeNumber), fun bound rest hbound hrest => ?_, fun final hfinal => ?_⟩
  · have hchars : chars params (Filter.scalar op left right).fragment = (columnText left).toList ++
        ((Operator.scalar op).mark ++ (params.bind right).1.toList) := chars_comparison params left op.sign right
    obtain ⟨b, rfl⟩ := exists_bound_eq_succ params hbound
    rw [hchars, List.append_assoc, List.append_assoc]
    refine Condition.readWith_column left (Condition.head_mark _ _)
      (Condition.readTest_scalar params op left right hrest) (fun hleft => ?_) b
    rw [Condition.readIdTest_write params idColumn none (.scalar op) right hrest, hleft]
  · intro store record
    rw [Condition.filter, Params.value_of_extends_bind hfinal]

theorem isRead_list (op : ListOp) (left : String) (right : List Json) : IsRead params (.list op left right) := by
  refine ⟨.list op left (Params.key params.freeNumber), fun bound rest hbound hrest => ?_, fun final hfinal => ?_⟩
  · have hchars : chars params (Filter.list op left right).fragment = (columnText left).toList ++
        ((Operator.list op).mark ++ (params.bind (.array right)).1.toList) :=
      chars_comparison params left op.sign (.array right)
    obtain ⟨b, rfl⟩ := exists_bound_eq_succ params hbound
    rw [hchars, List.append_assoc, List.append_assoc]
    refine Condition.readWith_column left (Condition.head_mark _ _)
      (Condition.readTest_list params op left (.array right) hrest) (fun hleft => ?_) b
    rw [Condition.readIdTest_write params idColumn none (.list op) (.array right) hrest, hleft]
    rfl
  · intro store record
    rw [Condition.filter, Params.items_of_extends_bind hfinal]

theorem isRead_null (op : NullOp) (left : String) (tunnel : Option String) : IsRead params (.null op left tunnel) := by
  refine ⟨.null op left tunnel, fun bound rest hbound hrest => ?_, fun final _ store record => rfl⟩
  have hchars : chars params (Filter.null op left tunnel).fragment =
      (fieldText left tunnel).toList ++ (Operator.null op).mark := by
    simp [fragment, Fragment.ofText, Operator.mark]
  obtain ⟨b, rfl⟩ := exists_bound_eq_succ params hbound
  rw [hchars, List.append_assoc, Condition.readWith_field left tunnel (Condition.head_mark _ _), Condition.readTest,
    readOperator_append]

/-- A truth value is not the name of a field, because no operator follows it. -/
theorem isRead_truth (value : Bool) {f : Filter} {word : String} (hword : word = if value then "true" else "false")
    (hf : f.fragment = Fragment.ofText word) (hmeaning : ∀ final, (Condition.truth value).filter final = f) :
    IsRead params f := by
  refine ⟨.truth value, fun bound rest hbound hrest => ?_, fun final _ store record => by rw [hmeaning]⟩
  have hchars : chars params f.fragment = (fieldText word none).toList := by
    rw [hf, hword]
    cases value <;> rfl
  obtain ⟨b, rfl⟩ := exists_bound_eq_succ params hbound
  rw [hchars, Condition.readWith_field word none hrest.head, Condition.readTest, hrest.readOperator_eq_none, hword]
  cases value <;> rfl

/-- Pointers in given tables are read as pairs of tables and keys. -/
theorem exists_readsAs_pointers (op : ListOp) (left : String) (ids tables : List String) (tunnel : Option String) :
    ∃ listed, (Filter.ref op left ids (some tables) tunnel).ReadsAs params (.pointers op left tunnel listed) ∧
      ∀ final : Params, final.Extends (write params (Filter.ref op left ids (some tables) tunnel).fragment).2 →
        Condition.listedPointers final listed = tables ×ˢ ids := by
  have hfragment : (Filter.ref op left ids (some tables) tunnel).fragment =
      between (fieldText left tunnel ++ " " ++ op.sign ++ " [") (join ", " ((tables ×ˢ ids).map pairFragment)) "]" := by
    rw [← pointerFragments_eq_map]
    rfl
  obtain ⟨listed, hlisted, hpairs⟩ := readPointers_write params (tables ×ˢ ids)
  have hlength := length_le_length_chars params (tables ×ˢ ids)
  refine ⟨listed, fun bound rest hbound hrest => ?_, fun final hfinal => ?_⟩
  · have hchars : chars params (Filter.ref op left ids (some tables) tunnel).fragment =
        (fieldText left tunnel).toList ++ ((Operator.list op).mark ++
          (['['] ++ (chars params (join ", " ((tables ×ˢ ids).map pairFragment)) ++ [']']))) := by
      simp [hfragment, Fragment.chars_between, Operator.mark]
    obtain ⟨b, rfl⟩ := exists_bound_eq_succ params hbound
    rw [hchars, List.append_assoc, List.append_assoc, List.append_assoc,
      Condition.readWith_field left tunnel (Condition.head_mark _ _), Condition.readTest, readOperator_append]
    have hmany : (tables ×ˢ ids).length <
        (chars params (join ", " ((tables ×ˢ ids).map pairFragment)) ++ ']' :: rest).length + 1 := by
      rw [List.length_append]
      omega
    simp only [List.append_assoc, List.singleton_append, after?_singleton, hlisted _ rest hmany, Option.map_some]
  · rw [hfragment, Fragment.write_between] at hfinal
    exact hpairs final hfinal

theorem isRead_ref_some (op : ListOp) (left : String) (ids : List String) {tables : List String}
    (htables : tables ≠ []) (tunnel : Option String) : IsRead params (.ref op left ids (some tables) tunnel) := by
  obtain ⟨listed, hreads, hlisted⟩ := exists_readsAs_pointers params op left ids tables tunnel
  refine ⟨_, hreads, fun final hfinal store record => ?_⟩
  rw [Condition.filter, hlisted final hfinal, store.satisfies_ref_product record op left ids htables tunnel]

/-- Keys in any table are bound as one list. -/
theorem isRead_ref_none (op : ListOp) {left : String} (hleft : left ≠ idColumn) (ids : List String)
    (tunnel : Option String) : IsRead params (.ref op left ids none tunnel) := by
  refine ⟨.keys op left tunnel (Params.key params.freeNumber), fun bound rest hbound hrest => ?_,
    fun final hfinal store record => ?_⟩
  · by_cases hop : op = .isIn ∨ op = .notIn
    · have hchars : chars params (Filter.ref op left ids none tunnel).fragment =
          "meta::id(".toList ++ ((fieldText left tunnel).toList ++ (")".toList ++
            ((Operator.list op).mark ++ (params.bind (.array (ids.map .string))).1.toList))) := by
        rcases hop with rfl | rfl <;> simp [fragment, refFragment, Fragment.ofTexts, Operator.mark]
      obtain ⟨b, rfl⟩ := exists_bound_eq_succ params hbound
      rw [hchars]
      simp only [List.append_assoc]
      rw [Condition.readWith_metaId, Condition.readIdTest_write params left tunnel (.list op) _ hrest]
      exact if_neg fun h => hleft h.1
    · have hchars : chars params (Filter.ref op left ids none tunnel).fragment =
          "array::map(".toList ++ ((fieldText left tunnel).toList ++ (", |$v| meta::id($v))".toList ++
            ((Operator.list op).mark ++ (params.bind (.array (ids.map .string))).1.toList))) := by
        obtain ⟨hin, hnin⟩ := not_or.1 hop
        cases op <;> first | contradiction | simp [fragment, refFragment, Fragment.ofTexts, Operator.mark]
      obtain ⟨b, rfl⟩ := exists_bound_eq_succ params hbound
      rw [hchars]
      simp only [List.append_assoc]
      rw [Condition.readWith_arrayMap, Condition.readKeysTest_write params left tunnel op _ hrest]
  · have hwrite : (write params (Filter.ref op left ids none tunnel).fragment).2 =
        (params.bind (.array (ids.map .string))).2 := by
      cases op <;> rfl
    rw [hwrite] at hfinal
    have hids : (ids.map Json.string).filterMap Json.string? = ids := by
      rw [List.filterMap_map]
      exact List.filterMap_some
    rw [Condition.filter, Params.items_of_extends_bind hfinal, hids]

/-- Parts in brackets are read one by one.  A single part is joined to nothing, so its connective is unknown. -/
theorem readParts_write (isAll : Bool) (children : List Filter)
    (hchildren : ∀ f ∈ children, ∀ params, IsRead params f) :
    ∃ parts, (∀ bound rest, (chars params (join (Condition.connective isAll) (fragments children))).length < bound →
        Condition.readParts bound
            (chars params (join (Condition.connective isAll) (fragments children)) ++ ')' :: rest) =
          some (isAll && decide (1 < children.length), parts, rest)) ∧
      ∀ final : Params, final.Extends (write params (join (Condition.connective isAll) (fragments children))).2 →
        List.Forall₂ (Condition.Means final) parts children := by
  induction children generalizing params with
  | nil =>
    refine ⟨[], fun bound rest hbound => ?_, fun final _ => .nil⟩
    obtain ⟨b, rfl⟩ : ∃ b, bound = b + 1 := ⟨bound - 1, by omega⟩
    simpa [fragments, join] using Condition.readParts_nil b rest
  | cons f children ih =>
    obtain ⟨c, hreads, hmeans⟩ := hchildren f List.mem_cons_self params
    obtain ⟨parts, hparts, hmeanings⟩ :=
      ih (write params f.fragment).2 fun g hg => hchildren g (List.mem_cons_of_mem _ hg)
    refine ⟨c :: parts, fun bound rest hbound => ?_, fun final hfinal => ?_⟩
    · rw [fragments, Fragment.chars_join_cons] at hbound ⊢
      simp only [List.length_append] at hbound
      obtain ⟨b, rfl⟩ : ∃ b, bound = b + 1 := ⟨bound - 1, by omega⟩
      rw [List.append_assoc, List.append_assoc]
      cases children with
      | nil =>
        have hempty : parts = [] := List.forall₂_nil_right_iff.1 (hmeanings _ (.refl _))
        have hpart := hreads b (')' :: rest) (by omega) (.round rest)
        rw [hempty]
        simpa [fragments, join] using Condition.readParts_singleton hpart
      | cons g others =>
        have hmany : (fragments (g :: others)).isEmpty = false := rfl
        simp only [hmany, Bool.false_eq_true, if_false] at hbound ⊢
        have hpart := hreads b _ (by omega) (Condition.closes_connective isAll
          (chars (write params f.fragment).2 (join (Condition.connective isAll) (fragments (g :: others))) ++
            ')' :: rest))
        have hlength : 0 < (Condition.connective isAll).toList.length := by cases isAll <;> decide
        have hmore := hparts b rest (by omega)
        simpa using Condition.readParts_cons hpart hmore
    · rw [fragments, Fragment.write_join_cons] at hfinal
      exact .cons (hmeans final (hfinal.trans (Fragment.extends_write _ _))) (hmeanings final hfinal)

/-- A conjunction and a disjunction of one part are written alike, and mean the same. -/
theorem isRead_group (isAll : Bool) {f : Filter} {children : List Filter}
    (hf : f.fragment = between "(" (join (Condition.connective isAll) (fragments children)) ")")
    (hmeaning : ∀ (store : Store) (record : Json), store.satisfies f record =
      if isAll && decide (1 < children.length) then store.satisfiesAll children record
      else store.satisfiesAny children record)
    (hchildren : ∀ g ∈ children, ∀ params, IsRead params g) : IsRead params f := by
  obtain ⟨parts, hparts, hmeans⟩ := readParts_write params isAll children hchildren
  refine ⟨if isAll && decide (1 < children.length) then .all parts else .any parts, fun bound rest hbound hrest => ?_,
    fun final hfinal store record => ?_⟩
  · obtain ⟨b, rfl⟩ := exists_bound_eq_succ params hbound
    rw [hf, Fragment.chars_between] at hbound ⊢
    simp only [List.length_append] at hbound
    have hopening : 0 < "(".toList.length := by decide
    have hclosing : 0 < ")".toList.length := by decide
    have hread := hparts b rest (by omega)
    rw [List.append_assoc, List.append_assoc, Condition.readWith_group]
    simp only [show ")".toList ++ rest = ')' :: rest from rfl, hread, Option.bind_eq_bind, Option.bind_some]
  · rw [hf, Fragment.write_between] at hfinal
    have hforall := hmeans final hfinal
    rw [hmeaning, ← Condition.Means.satisfiesAll hforall, ← Condition.Means.satisfiesAny hforall]
    split <;> rfl

theorem isRead_and {children : List Filter} (hchildren : ∀ g ∈ children, ∀ params, IsRead params g) :
    IsRead params (.and children) := by
  match children with
  | [] => exact isRead_truth params true rfl rfl fun _ => rfl
  | [f] =>
    refine isRead_group params true rfl (fun store record => ?_) hchildren
    simp [Store.satisfies, Store.satisfiesAll, Store.satisfiesAny]
  | f :: g :: rest =>
    refine isRead_group params true rfl (fun store record => ?_) hchildren
    simp [Store.satisfies]

theorem isRead_or {children : List Filter} (hchildren : ∀ g ∈ children, ∀ params, IsRead params g) :
    IsRead params (.or children) := by
  refine isRead_group params false ?_ (fun store record => ?_) hchildren
  · rw [fragment]
    rfl
  · simp [Store.satisfies]

theorem isRead_not {child : Filter} (hchild : IsRead params child) : IsRead params (.not child) := by
  obtain ⟨c, hreads, hmeans⟩ := hchild
  refine ⟨.not c, fun bound rest hbound hrest => ?_, fun final hfinal store record => ?_⟩
  · obtain ⟨b, rfl⟩ := exists_bound_eq_succ params hbound
    rw [fragment, Fragment.chars_between] at hbound ⊢
    simp only [List.length_append] at hbound
    have hopening : 0 < "!(".toList.length := by decide
    have hread := hreads b (')' :: rest) (by omega) (.round rest)
    rw [List.append_assoc, List.append_assoc, Condition.readWith_not]
    simp only [show ")".toList ++ rest = ')' :: rest from rfl, hread, after?_singleton, Option.bind_eq_bind,
      Option.bind_some]
  · rw [fragment, Fragment.write_between] at hfinal
    rw [Condition.filter, Store.satisfies, Store.satisfies, hmeans final hfinal store record]

theorem isRead_nested (path : String) (cardinality : Cardinality) (tunnel : Option String) {inner : Filter}
    (hinner : IsRead params inner) : IsRead params (.nested path cardinality tunnel inner) := by
  obtain ⟨c, hreads, hmeans⟩ := hinner
  refine ⟨.related cardinality path tunnel c, fun bound rest hbound hrest => ?_, fun final hfinal store record => ?_⟩
  · have hchars : chars params (Filter.nested path cardinality tunnel inner).fragment =
        "array::len(".toList ++
          ((if cardinality.isMany then fieldText path tunnel else "[" ++ fieldText path tunnel ++ "]").toList ++
            ("[WHERE ".toList ++ (chars params inner.fragment ++ "]) > 0".toList))) := by
      rw [fragment, Fragment.chars_between]
      simp only [String.toList_append, List.append_assoc]
    obtain ⟨b, rfl⟩ := exists_bound_eq_succ params hbound
    rw [hchars] at hbound ⊢
    simp only [List.length_append] at hbound
    have hopening : 0 < "array::len(".toList.length := by decide
    have hread := hreads b ("]) > 0".toList ++ rest) (by omega) (.square _)
    simp only [List.append_assoc]
    rw [Condition.readWith_arrayLen, Condition.readRecords_write]
    simp only [Option.bind_eq_bind, Option.bind_some, after?_append, hread]
  · rw [fragment, Fragment.write_between] at hfinal
    rw [Condition.filter, Store.satisfies, Store.satisfies]
    exact congrArg (List.any _) (funext fun row => hmeans final hfinal store row.record)

mutual

/-- A legible filter is read back as a condition with its meaning, wherever it is written. -/
theorem isRead_of_legible : ∀ (f : Filter), f.Legible → ∀ params, IsRead params f
  | .scalar op left right, _, params => isRead_scalar params op left right
  | .list op left right, _, params => isRead_list params op left right
  | .ref op left ids (some tables) tunnel, h, params =>
    isRead_ref_some params op left ids (by rwa [Legible] at h) tunnel
  | .ref op left ids none tunnel, h, params => isRead_ref_none params op (by rwa [Legible] at h) ids tunnel
  | .null op left tunnel, _, params => isRead_null params op left tunnel
  | .and children, h, params => isRead_and params (isRead_of_allLegible children (by rwa [Legible] at h))
  | .or children, h, params => isRead_or params (isRead_of_allLegible children (by rwa [Legible] at h))
  | .not child, h, params => isRead_not params (isRead_of_legible child (by rwa [Legible] at h) params)
  | .nested path cardinality tunnel inner, h, params =>
    isRead_nested params path cardinality tunnel (isRead_of_legible inner (by rwa [Legible] at h) params)
  | .falsy, _, params => isRead_truth params false rfl rfl fun _ => rfl

theorem isRead_of_allLegible : ∀ (fs : List Filter), AllLegible fs → ∀ f ∈ fs, ∀ params, IsRead params f
  | [], _ => by simp
  | g :: rest, h => by
    rw [AllLegible] at h
    exact List.forall_mem_cons.2 ⟨isRead_of_legible g h.1, isRead_of_allLegible rest h.2⟩

end

end Filter

end ThingQuery
