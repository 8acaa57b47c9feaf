import ThingQuery.Batch.Basic
import ThingQuery.Proofs.Binding

/-!
# Values are numbered as they are written

Values that are bound one after the other get the keys `p0`, `p1`, …, under which they are found
(`Params.numbers_ofValues`).  So writing a fragment appends its values to those that are bound before
(`Fragment.write_ofValues`), and the values of a batch are the literals of its plans, one plan after the other
(`Batch.params_ofPlans`).
-/

namespace ThingQuery

/-! ### Binding one value after the other -/

theorem perm_map_insertNamed {α : Type} {key : String} (value : α) {entries : List (String × α)}
    (h : key ∉ entries.map (·.1)) : ((insertNamed key value entries).map (·.1)).Perm (key :: entries.map (·.1)) := by
  induction entries with
  | nil => exact .refl _
  | cons head rest ih =>
    obtain ⟨k, v⟩ := head
    rw [List.map_cons, List.mem_cons, not_or] at h
    unfold insertNamed
    by_cases hlt : key < k
    · rw [if_pos hlt]
      exact .refl _
    · rw [if_neg hlt, if_neg h.1]
      exact ((ih h.2).cons k).trans (.swap key k _)

theorem NameMap.keys_insert_perm {α : Type} {m : NameMap α} {key : String} (value : α) (h : m.get? key = none) :
    (m.insert key value).keys.Perm (key :: m.keys) :=
  perm_map_insertNamed value (get?_eq_none_iff.1 h)

namespace Params

/-- The parameters after binding the values one after the other. -/
def ofValues (values : List Json) : Params := values.foldl (fun params v => (params.bind v).2) .empty

theorem ofValues_concat (values : List Json) (v : Json) : ofValues (values ++ [v]) = ((ofValues values).bind v).2 := by
  simp [ofValues]

/-- The keys are numbered in the order of the values, and the next number is their number. -/
structure Numbers (params : Params) (values : List Json) : Prop where
  next : params.next = values.length
  get? : ∀ i, params.get? (key i) = values[i]?
  keys : params.values.keys.Perm ((List.range values.length).map key)

theorem Numbers.freeNumber {params : Params} {values : List Json} (h : params.Numbers values) :
    params.freeNumber = values.length := by
  have hfree : (params.values.get? (key values.length)).isNone = true := by
    have hnone : params.values.get? (key values.length) = none :=
      (h.get? values.length).trans (List.getElem?_eq_none (Nat.le_refl _))
    rw [hnone]
    rfl
  unfold Params.freeNumber
  rw [h.next, freeFrom, if_pos hfree]

theorem Numbers.bind {params : Params} {values : List Json} (h : params.Numbers values) (v : Json) :
    (params.bind v).2.Numbers (values ++ [v]) := by
  have hnumber := h.freeNumber
  refine ⟨?_, fun i => ?_, ?_⟩
  · change params.freeNumber + 1 = _
    simp [hnumber]
  · by_cases hi : i = values.length
    · rw [hi, ← hnumber, get?_bind_self, hnumber]
      simp
    · have hne : key i ≠ key params.freeNumber := fun he => hi (hnumber ▸ key_inj he)
      have hkept : (params.bind v).2.get? (key i) = params.get? (key i) :=
        NameMap.get?_insert_of_ne params.values v hne
      rw [hkept, h.get?]
      by_cases hlt : i < values.length
      · rw [List.getElem?_append_left hlt]
      · have hle : values.length + 1 ≤ i := by omega
        rw [List.getElem?_eq_none (by omega), List.getElem?_eq_none (by simpa using hle)]
  · have hinsert : (params.bind v).2.values.keys.Perm (key params.freeNumber :: params.values.keys) :=
      NameMap.keys_insert_perm v params.get?_key_freeNumber
    rw [hnumber] at hinsert
    rw [List.length_append, List.length_singleton, List.range_succ, List.map_append]
    exact (hinsert.trans (h.keys.cons _)).trans (List.perm_append_singleton _ _).symm

theorem Numbers.foldl {params : Params} {earlier : List Json} (h : params.Numbers earlier) (values : List Json) :
    (values.foldl (fun params v => (params.bind v).2) params).Numbers (earlier ++ values) := by
  induction values generalizing params earlier with
  | nil => simpa using h
  | cons v rest ih => simpa using ih (h.bind v)

theorem numbers_ofValues (values : List Json) : (ofValues values).Numbers values := by
  have hempty : Params.empty.Numbers [] := ⟨rfl, fun _ => rfl, .refl _⟩
  exact hempty.foldl values

theorem bind_ofValues (values : List Json) (v : Json) :
    (ofValues values).bind v = ("$" ++ key values.length, ofValues (values ++ [v])) := by
  rw [ofValues_concat, ← (numbers_ofValues values).freeNumber]
  rfl

theorem size_ofValues (values : List Json) : (ofValues values).size = values.length := by
  have hlength := (numbers_ofValues values).keys.length_eq
  rwa [NameMap.length_keys, List.length_map, List.length_range] at hlength

end Params

/-! ### Values of fragments -/

/-- The value of a piece; a text has none. -/
def Piece.value? : Piece → Option Json
  | .text _ => none
  | .value v => some v

namespace Fragment

open Params (ofValues)

/-- The values of a fragment from left to right. -/
def values (f : Fragment) : List Json := f.filterMap Piece.value?

@[simp]
theorem values_nil : values [] = [] := rfl

@[simp]
theorem values_text (s : String) (rest : Fragment) : values (.text s :: rest) = values rest := rfl

@[simp]
theorem values_value (v : Json) (rest : Fragment) : values (.value v :: rest) = v :: values rest := rfl

@[simp]
theorem values_append (f g : Fragment) : values (f ++ g) = values f ++ values g := List.filterMap_append

@[simp]
theorem values_between (opening : String) (f : Fragment) (closing : String) :
    values (between opening f closing) = values f := by
  simp [between]

@[simp]
theorem values_join (separator : String) (fs : List Fragment) : values (join separator fs) = fs.flatMap values := by
  induction fs using join.induct with
  | case1 => rfl
  | case2 f => simp [join]
  | case3 f g rest ih =>
    rw [join, values_append, values_text, ih]
    simp

theorem write_ofValues (values : List Json) (f : Fragment) :
    (write (ofValues values) f).2 = ofValues (values ++ f.values) := by
  induction f generalizing values with
  | nil => simp
  | cons piece rest ih =>
    cases piece with
    | text s => exact ih values
    | value v => simp [Params.bind_ofValues, ih]

end Fragment

/-! ### Literals of plans -/

/-- The keys and the tables of the pointers to them, table by table. -/
def pointerLiterals (tables ids : List String) : List Json :=
  tables.flatMap fun table => ids.flatMap fun id => [.string table, .string id]

namespace Filter

mutual

/-- The literals of a filter from left to right. -/
def literals : Filter → List Json
  | .scalar _ _ right => [right]
  | .list _ _ right => [.array right]
  | .ref _ _ ids (some tables) _ => pointerLiterals tables ids
  | .ref _ _ ids none _ => [.array (ids.map .string)]
  | .null .. => []
  | .and children => literalsAll children
  | .or children => literalsAll children
  | .not child => literals child
  | .nested _ _ _ inner => literals inner
  | .falsy => []

/-- The literals of the filters of a list. -/
def literalsAll : List Filter → List Json
  | [] => []
  | f :: rest => literals f ++ literalsAll rest

end

end Filter

/-- The literals of a source: those of the sources that it starts from come first. -/
def Source.literals : Source → List Json
  | .scan _ => []
  | .pointer tables ids => pointerLiterals tables ids
  | .subquery source _ filter _ => source.literals ++ filter.toList.flatMap Filter.literals

namespace Column

mutual

/-- The literals of a column: those of nested columns, then the keys, then those of the filter. -/
def literals : Column → List Json
  | .nested scope columns =>
    literalsAll columns ++ (scope.ids.toList.map fun ids => .array (ids.map .string))
      ++ scope.filter.toList.flatMap Filter.literals
  | .metadata .. | .data .. | .reference .. | .flex .. => []

/-- The literals of the columns of a list. -/
def literalsAll : List Column → List Json
  | [] => []
  | c :: rest => literals c ++ literalsAll rest

end

end Column

/-- The literals of a plan: those of its columns, then of its source, then of its filter. -/
def Plan.literals (plan : Plan) : List Json :=
  Column.literalsAll plan.columns ++ plan.source.literals ++ plan.filter.toList.flatMap Filter.literals

theorem flatMap_values_pointerFragments (tables ids : List String) :
    (pointerFragments tables ids).flatMap Fragment.values = pointerLiterals tables ids := by
  simp [pointerFragments, pointerLiterals, pointerFragment, List.flatMap_assoc, List.flatMap_map]

theorem values_refFragment (op : ListOp) (left : String) (ids : List String) (tables : Option (List String))
    (tunnel : Option String) :
    (refFragment op left ids tables tunnel).values = (Filter.ref op left ids tables tunnel).literals := by
  cases tables with
  | some tables => simp [refFragment, Filter.literals, flatMap_values_pointerFragments]
  | none => cases op <;> simp [refFragment, Fragment.ofTexts, Filter.literals]

namespace Filter

mutual

theorem values_fragment (filter : Filter) : filter.fragment.values = filter.literals := by
  match filter with
  | .scalar op left right => simp [fragment, Fragment.ofValue, literals]
  | .list op left right => simp [fragment, Fragment.ofValue, literals]
  | .ref op left ids tables tunnel => exact values_refFragment op left ids tables tunnel
  | .null op left tunnel => simp [fragment, Fragment.ofText, literals]
  | .and [] => simp [fragment, Fragment.ofText, literals, literalsAll]
  | .and (child :: rest) =>
    have hrest := flatMap_values_fragments rest
    simp [fragment, literals, literalsAll, values_fragment child, hrest]
  | .or children =>
    have hchildren := flatMap_values_fragments children
    simp [fragment, literals, hchildren]
  | .not child => simp [fragment, literals, values_fragment child]
  | .nested path cardinality tunnel inner => simp [fragment, literals, values_fragment inner]
  | .falsy => simp [fragment, Fragment.ofText, literals]

theorem flatMap_values_fragments (filters : List Filter) :
    (fragments filters).flatMap Fragment.values = literalsAll filters := by
  match filters with
  | [] => simp [fragments, literalsAll]
  | f :: rest => simp [fragments, literalsAll, values_fragment f, flatMap_values_fragments rest]

end

theorem values_condition (filter : Filter) : filter.condition.values = filter.literals := by
  unfold condition
  split
  · rw [Fragment.values_join, flatMap_values_fragments, literals]
  · exact filter.values_fragment

end Filter

theorem values_whereFragment (conditions : List Fragment) :
    (whereFragment conditions).values = conditions.flatMap Fragment.values := by
  cases conditions with
  | nil => rfl
  | cons c rest => simp [whereFragment]

theorem values_whereFragment_filter (filter : Option Filter) :
    (whereFragment (filter.toList.map Filter.condition)).values = filter.toList.flatMap Filter.literals := by
  rw [values_whereFragment, List.flatMap_map]
  simp only [Filter.values_condition]

theorem Source.values_fragment (source : Source) : source.fragment.values = source.literals := by
  induction source with
  | scan tables => rfl
  | pointer tables ids => rw [Source.fragment, Fragment.values_join, flatMap_values_pointerFragments, Source.literals]
  | subquery source path filter cardinality ih =>
    cases cardinality <;>
      simp [Source.fragment, Cardinality.isMany, Source.literals, ih, values_whereFragment_filter]

theorem values_collapse (cardinality : Cardinality) (f : Fragment) : (cardinality.collapse f).values = f.values := by
  cases cardinality <;> simp [Cardinality.collapse, Cardinality.isMany, firstOf]

theorem NestedScope.values_conditions (scope : NestedScope) :
    (whereFragment scope.conditions).values =
      (scope.ids.toList.map fun ids => .array (ids.map .string)) ++ scope.filter.toList.flatMap Filter.literals := by
  rw [values_whereFragment, NestedScope.conditions, List.flatMap_append, List.flatMap_map, List.flatMap_map]
  simp only [Filter.values_condition]
  cases scope.ids <;> rfl

namespace Column

mutual

theorem values_fragment (column : Column) : column.fragment.values = column.literals := by
  match column with
  | .metadata .thing label => rfl
  | .metadata .id label => rfl
  | .data path label =>
    unfold fragment
    dsimp only
    split
    · rfl
    · split
      · rfl
      · rfl
  | .reference path label cardinality tunnel => simp [fragment, values_collapse, Fragment.ofText, literals]
  | .flex path label cardinality => cases cardinality <;> rfl
  | .nested scope columns =>
    have hcolumns := values_listFragment columns
    simp [fragment, literals, values_collapse, hcolumns, NestedScope.values_conditions, Fragment.ofText]

theorem values_listFragment (columns : List Column) : (listFragment columns).values = literalsAll columns := by
  match columns with
  | [] => rfl
  | c :: rest => simp [listFragment, literalsAll, values_fragment c, values_restFragment rest]

theorem values_restFragment (columns : List Column) : (restFragment columns).values = literalsAll columns := by
  match columns with
  | [] => rfl
  | c :: rest => simp [restFragment, literalsAll, values_fragment c, values_restFragment rest]

end

end Column

theorem Plan.values_fragment (plan : Plan) : plan.fragment.values = plan.literals := by
  simp [Plan.fragment, Plan.literals, values_collapse, Column.values_listFragment, Source.values_fragment,
    values_whereFragment_filter, Fragment.ofText]

theorem Plan.params_statement (values : List Json) (plan : Plan) :
    (plan.statement (.ofValues values)).2 = .ofValues (values ++ plan.literals) := by
  rw [Plan.statement, Fragment.write_ofValues, plan.values_fragment]

/-- The values of statements are numbered behind those that are bound before. -/
theorem Plan.statements_cons (values : List Json) (plan : Plan) (rest : List Plan) :
    Plan.statements (.ofValues values) (plan :: rest) =
      ((plan.statement (.ofValues values)).1 :: (Plan.statements (.ofValues (values ++ plan.literals)) rest).1,
        (Plan.statements (.ofValues (values ++ plan.literals)) rest).2) := by
  rw [← plan.params_statement values]
  rfl

/-- The values of a batch are the literals of its plans. -/
theorem Plan.params_statements (values : List Json) (plans : List Plan) :
    (Plan.statements (.ofValues values) plans).2 = .ofValues (values ++ plans.flatMap Plan.literals) := by
  induction plans generalizing values with
  | nil => simp [Plan.statements]
  | cons plan rest ih => rw [Plan.statements_cons, ih, List.flatMap_cons, List.append_assoc]

theorem Batch.params_ofPlans (plans : List Plan) :
    (Batch.ofPlans plans).params = .ofValues (plans.flatMap Plan.literals) := Plan.params_statements [] plans

end ThingQuery
