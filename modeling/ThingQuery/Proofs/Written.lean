import ThingQuery.Proofs.Binding
import ThingQuery.Proofs.Grammar
import ThingQuery.Statement.Select

/-!
# What is written derives from the grammar

A plan has at least some number of parts in a list (`Plan.HasParts`) if this holds of the targets of its sources and of
the parts of its disjunctions, also in nested columns.  Then the grammar with that number derives its statement
(`Plan.derives_statement`).  Every plan has at least no parts (`Plan.hasParts_zero`), so every statement is neutral.
-/

namespace ThingQuery

open Fragment (write join between ofText ofValue ofTexts)

/-! ### Numbers of parts -/

/-- Every disjunction in the filter has at least so many parts. -/
inductive Filter.HasParts (least : Nat) : Filter → Prop where
  | scalar (op : ScalarOp) (left : String) (right : Json) : HasParts least (.scalar op left right)
  | list (op : ListOp) (left : String) (right : List Json) : HasParts least (.list op left right)
  | ref (op : ListOp) (left : String) (ids : List String) (tables : Option (List String)) (tunnel : Option String) :
    HasParts least (.ref op left ids tables tunnel)
  | null (op : NullOp) (left : String) (tunnel : Option String) : HasParts least (.null op left tunnel)
  | and {children : List Filter} (h : ∀ f ∈ children, HasParts least f) : HasParts least (.and children)
  | or {children : List Filter} (hlen : least ≤ children.length) (h : ∀ f ∈ children, HasParts least f) :
    HasParts least (.or children)
  | not {child : Filter} (h : HasParts least child) : HasParts least (.not child)
  | nested (path : String) (cardinality : Cardinality) (tunnel : Option String) {inner : Filter}
    (h : HasParts least inner) : HasParts least (.nested path cardinality tunnel inner)
  | falsy : HasParts least .falsy

/-- The source and those that it starts from have at least so many targets, and their filters so many parts. -/
inductive Source.HasParts (least : Nat) : Source → Prop where
  | scan {tables : List String} (hlen : least ≤ tables.length) : HasParts least (.scan tables)
  | pointer {tables ids : List String} (hlen : least ≤ tables.length * ids.length) :
    HasParts least (.pointer tables ids)
  | subquery {source : Source} {filter : Option Filter} (path : String) (cardinality : Cardinality)
    (hsource : HasParts least source) (hfilter : ∀ f ∈ filter, f.HasParts least) :
    HasParts least (.subquery source path filter cardinality)

/-- The filters of the nested columns have at least so many parts. -/
inductive Column.HasParts (least : Nat) : Column → Prop where
  | metadata (field : MetaField) (label : Option String) : HasParts least (.metadata field label)
  | data (path : String) (label : Option String) : HasParts least (.data path label)
  | reference (path : String) (label : Option String) (cardinality : Cardinality) (tunnel : Option String) :
    HasParts least (.reference path label cardinality tunnel)
  | flex (path : String) (label : Option String) (cardinality : Cardinality) :
    HasParts least (.flex path label cardinality)
  | nested {scope : NestedScope} {columns : List Column} (hfilter : ∀ f ∈ scope.filter, f.HasParts least)
    (hcolumns : ∀ c ∈ columns, HasParts least c) : HasParts least (.nested scope columns)

/-- The filter of the plan and those of its nested columns have at least so many parts. -/
structure Plan.FiltersHaveParts (least : Nat) (plan : Plan) : Prop where
  filter : ∀ f ∈ plan.filter, f.HasParts least
  columns : ∀ c ∈ plan.columns, c.HasParts least

/-- All of the plan has at least so many parts. -/
structure Plan.HasParts (least : Nat) (plan : Plan) : Prop extends Plan.FiltersHaveParts least plan where
  source : plan.source.HasParts least

mutual

theorem Filter.hasParts_zero (filter : Filter) : filter.HasParts 0 := by
  match filter with
  | .scalar op left right => exact .scalar op left right
  | .list op left right => exact .list op left right
  | .ref op left ids tables tunnel => exact .ref op left ids tables tunnel
  | .null op left tunnel => exact .null op left tunnel
  | .and children => exact .and (Filter.hasParts_zero_of_mem children)
  | .or children => exact .or (Nat.zero_le _) (Filter.hasParts_zero_of_mem children)
  | .not child => exact .not (Filter.hasParts_zero child)
  | .nested path cardinality tunnel inner => exact .nested path cardinality tunnel (Filter.hasParts_zero inner)
  | .falsy => exact .falsy

theorem Filter.hasParts_zero_of_mem (filters : List Filter) : ∀ f ∈ filters, f.HasParts 0 := by
  match filters with
  | [] => simp
  | f :: rest => exact List.forall_mem_cons.2 ⟨Filter.hasParts_zero f, Filter.hasParts_zero_of_mem rest⟩

end

theorem Source.hasParts_zero (source : Source) : source.HasParts 0 := by
  induction source with
  | scan tables => exact .scan (Nat.zero_le _)
  | pointer tables ids => exact .pointer (Nat.zero_le _)
  | subquery source path filter cardinality ih => exact .subquery path cardinality ih fun f _ => f.hasParts_zero

mutual

theorem Column.hasParts_zero (column : Column) : column.HasParts 0 := by
  match column with
  | .metadata field label => exact .metadata field label
  | .data path label => exact .data path label
  | .reference path label cardinality tunnel => exact .reference path label cardinality tunnel
  | .flex path label cardinality => exact .flex path label cardinality
  | .nested scope columns => exact .nested (fun f _ => f.hasParts_zero) (Column.hasParts_zero_of_mem columns)

theorem Column.hasParts_zero_of_mem (columns : List Column) : ∀ c ∈ columns, c.HasParts 0 := by
  match columns with
  | [] => simp
  | c :: rest => exact List.forall_mem_cons.2 ⟨Column.hasParts_zero c, Column.hasParts_zero_of_mem rest⟩

end

theorem Plan.hasParts_zero (plan : Plan) : plan.HasParts 0 where
  filter f _ := f.hasParts_zero
  columns c _ := c.hasParts_zero
  source := plan.source.hasParts_zero

/-! ### Names, fields and placeholders -/

variable {least : Nat}

theorem derives_nameText (name : String) : Derives least .name (nameText name) := by
  unfold nameText
  by_cases hplain : isPlainName name = true
  · rw [if_pos hplain]
    exact .plainName hplain
  · rw [if_neg hplain]
    exact .quotedName (readQuoted_append name.toList [])

theorem derives_fieldText (path : String) (tunnel : Option String) : Derives least .field (fieldText path tunnel) := by
  cases tunnel with
  | none => exact .field (derives_nameText path)
  | some role => exact .roleField (derives_nameText path) (derives_nameText role)

theorem derives_columnText (left : String) : Derives least .operand (columnText left) := by
  unfold columnText
  split
  · exact .ownKey
  · exact .stored (.field (derives_nameText left))

theorem derives_bind (params : Params) (v : Json) : Derives least .placeholder (params.bind v).1 := by
  change Derives least .placeholder ("$" ++ ("p" ++ toString params.freeNumber))
  rw [← String.append_assoc]
  exact .placeholder _

/-! ### Fragments -/

namespace Fragment

/-- Whatever is bound already, what is written is a phrase. -/
def Writes (least : Nat) (phrase : Phrase) (f : Fragment) : Prop := ∀ params, Derives least phrase (write params f).1

theorem writes_ofText {phrase : Phrase} {s : String} (h : Derives least phrase s) : Writes least phrase (ofText s) := by
  intro params
  simpa [ofText] using h

/-- The written parts of joined fragments stand between the separators. -/
theorem exists_write_join {phrase : Phrase} (separator : String) {fs : List Fragment}
    (h : ∀ f ∈ fs, Writes least phrase f) (params : Params) :
    ∃ texts : List String, (write params (join separator fs)).1 = separator.intercalate texts ∧
      texts.length = fs.length ∧ ∀ s ∈ texts, Derives least phrase s := by
  induction fs using join.induct generalizing params with
  | case1 => exact ⟨[], rfl, rfl, by simp⟩
  | case2 f =>
    refine ⟨[(write params f).1], by simp [join], rfl, ?_⟩
    simpa using h f List.mem_cons_self params
  | case3 f g rest ih =>
    rw [List.forall_mem_cons] at h
    obtain ⟨texts, htext, hlength, hall⟩ := ih h.2 (write params f).2
    have hne : texts ≠ [] := List.ne_nil_of_length_pos (by simp [hlength])
    obtain ⟨s, others, rfl⟩ := List.exists_cons_of_ne_nil hne
    refine ⟨(write params f).1 :: s :: others, ?_, by simpa using hlength, ?_⟩
    · rw [join, write_append, write_text, htext, String.intercalate_cons_cons, String.append_assoc]
    · exact List.forall_mem_cons.2 ⟨h.1 params, hall⟩

theorem join_append {separator : String} {fs gs : List Fragment} (hfs : fs ≠ []) (hgs : gs ≠ []) :
    join separator (fs ++ gs) = join separator fs ++ .text separator :: join separator gs := by
  induction fs using join.induct with
  | case1 => exact absurd rfl hfs
  | case2 f =>
    obtain ⟨g, rest, rfl⟩ := List.exists_cons_of_ne_nil hgs
    rfl
  | case3 f g rest ih =>
    change f ++ .text separator :: join separator (g :: rest ++ gs) = _
    rw [ih (List.cons_ne_nil _ _)]
    simp [join]

end Fragment

open Fragment (Writes)

/-! ### Conditions -/

theorem writes_pointerFragment (table id : String) : Writes least .pointer (pointerFragment table id) := by
  intro params
  simpa [pointerFragment, String.append_assoc] using
    Derives.pointer (derives_bind params (.string table)) (derives_bind (params.bind (.string table)).2 (.string id))

theorem writes_of_mem_pointerFragments (tables ids : List String) :
    ∀ f ∈ pointerFragments tables ids, Writes least .pointer f := by
  intro f hf
  obtain ⟨table, _, hf⟩ := List.mem_flatMap.1 hf
  obtain ⟨id, _, rfl⟩ := List.mem_map.1 hf
  exact writes_pointerFragment table id

theorem length_pointerFragments (tables ids : List String) :
    (pointerFragments tables ids).length = tables.length * ids.length := by
  simp [pointerFragments, List.length_flatMap]

theorem writes_refFragment (op : ListOp) (left : String) (ids : List String) (tables : Option (List String))
    (tunnel : Option String) : Writes least .comparison (refFragment op left ids tables tunnel) := by
  intro params
  have hfield : Derives least .field (fieldText left tunnel) := derives_fieldText left tunnel
  cases tables with
  | some tables =>
    obtain ⟨texts, htext, _, hall⟩ :=
      Fragment.exists_write_join ", " (writes_of_mem_pointerFragments tables ids) params
    simpa [refFragment, between, Fragment.write_append, htext, String.append_assoc] using
      Derives.pointerTest hfield op hall
  | none =>
    have hids : Derives least .placeholder _ := derives_bind params (.array (ids.map .string))
    have hkey := Derives.listTest (.pointedKey hfield) op hids
    have hkeys := Derives.listTest (.pointedKeys hfield) op hids
    -- in the text the bracket and the space behind it are one literal
    have hclose : ") " = ")" ++ " " := rfl
    have hcloses : ", |$v| meta::id($v)) " = ", |$v| meta::id($v))" ++ " " := rfl
    cases op <;>
      simp only [refFragment, ofTexts, Fragment.write_text, Fragment.write_value, Fragment.write_nil,
        String.append_empty, hclose, hcloses, String.append_assoc] at hkey hkeys ⊢ <;>
      assumption

/-- What a condition is made of: the parts of the outermost conjunction, or the condition itself. -/
def Filter.terms : Filter → List Fragment
  | .and (child :: rest) => Filter.fragments (child :: rest)
  | other => [Filter.fragment other]

theorem Filter.condition_eq_join (filter : Filter) : filter.condition = join " AND " filter.terms := by
  cases filter with
  | and children => cases children <;> rfl
  | _ => rfl

theorem Filter.fragments_eq_map (filters : List Filter) : Filter.fragments filters = filters.map Filter.fragment := by
  induction filters with
  | nil => rfl
  | cons f rest ih => rw [Filter.fragments, ih, List.map_cons]

theorem Filter.terms_ne_nil (filter : Filter) : filter.terms ≠ [] := by
  unfold Filter.terms
  split
  · rw [Filter.fragments]
    exact List.cons_ne_nil _ _
  · exact List.cons_ne_nil _ _

theorem Filter.writes_fragment {filter : Filter} (h : filter.HasParts least) :
    Writes least .condition filter.fragment := by
  induction h with
  | scalar op left right =>
    intro params
    simpa [Filter.fragment, ofValue, String.append_assoc] using
      Derives.comparison (.scalarTest (derives_columnText left) op (derives_bind params right))
  | list op left right =>
    intro params
    simpa [Filter.fragment, ofValue, String.append_assoc] using
      Derives.comparison (.listTest (derives_columnText left) op (derives_bind params (.array right)))
  | ref op left ids tables tunnel =>
    intro params
    exact .comparison (writes_refFragment op left ids tables tunnel params)
  | null op left tunnel => exact Fragment.writes_ofText (.comparison (.absenceTest (derives_fieldText left tunnel) op))
  | @and children _ ih =>
    intro params
    cases children with
    | nil => exact Fragment.writes_ofText .truth params
    | cons child rest =>
      obtain ⟨texts, htext, hlength, hall⟩ := Fragment.exists_write_join " AND " (List.forall_mem_map.2 ih) params
      have hne : texts ≠ [] := List.ne_nil_of_length_pos (by simp [hlength])
      simpa [Filter.fragment, between, Filter.fragments_eq_map, Fragment.write_append, ← htext, String.append_assoc]
        using Derives.conjunction hne hall
  | @or children hlen _ ih =>
    intro params
    obtain ⟨texts, htext, hlength, hall⟩ := Fragment.exists_write_join " OR " (List.forall_mem_map.2 ih) params
    rw [List.length_map] at hlength
    simpa [Filter.fragment, between, Filter.fragments_eq_map, Fragment.write_append, htext, String.append_assoc] using
      Derives.disjunction (hlength ▸ hlen) hall
  | not _ ih =>
    intro params
    simpa [Filter.fragment, between, Fragment.write_append, String.append_assoc] using Derives.negation (ih params)
  | nested path cardinality tunnel _ ih =>
    intro params
    have hrecords : Derives least .records
        (if cardinality.isMany then fieldText path tunnel else "[" ++ fieldText path tunnel ++ "]") := by
      split
      · exact .manyRecords (derives_fieldText path tunnel)
      · exact .oneRecord (derives_fieldText path tunnel)
    simpa [Filter.fragment, between, Fragment.write_append, String.append_assoc] using
      Derives.someOf hrecords (ih params)
  | falsy => exact Fragment.writes_ofText .falsity

theorem Filter.writes_terms {filter : Filter} (h : filter.HasParts least) :
    ∀ f ∈ filter.terms, Writes least .condition f := by
  unfold Filter.terms
  split
  · cases h with
    | and h =>
      rw [Filter.fragments_eq_map]
      exact List.forall_mem_map.2 fun f hf => Filter.writes_fragment (h f hf)
  · simpa using Filter.writes_fragment h

/-! ### Clauses -/

/-- The fragment is a conjunction of at least one condition. -/
def Fragment.IsConjunction (least : Nat) (f : Fragment) : Prop :=
  ∃ terms, terms ≠ [] ∧ f = join " AND " terms ∧ ∀ t ∈ terms, Writes least .condition t

/-- A conjunction of conjunctions is the conjunction of all their terms. -/
theorem Fragment.isConjunction_join {conditions : List Fragment} (hne : conditions ≠ [])
    (h : ∀ c ∈ conditions, c.IsConjunction least) : IsConjunction least (join " AND " conditions) := by
  induction conditions with
  | nil => exact absurd rfl hne
  | cons c rest ih =>
    rw [List.forall_mem_cons] at h
    cases rest with
    | nil => exact h.1
    | cons d others =>
      obtain ⟨⟨terms, hterms, rfl, hall⟩, hrest⟩ := h
      obtain ⟨terms', hterms', hjoin, hall'⟩ := ih (List.cons_ne_nil d others) hrest
      refine ⟨terms ++ terms', by simp [hterms], ?_, List.forall_mem_append.2 ⟨hall, hall'⟩⟩
      rw [Fragment.join_append hterms hterms', ← hjoin]
      rfl

theorem Filter.isConjunction_condition {filter : Filter} (h : filter.HasParts least) :
    filter.condition.IsConjunction least :=
  ⟨filter.terms, filter.terms_ne_nil, filter.condition_eq_join, Filter.writes_terms h⟩

/-- Conditions that are conjunctions give a clause with all their terms. -/
theorem writes_whereFragment {conditions : List Fragment} (h : ∀ c ∈ conditions, c.IsConjunction least) :
    Writes least .whereClause (whereFragment conditions) := by
  intro params
  cases conditions with
  | nil => exact .noCondition
  | cons c rest =>
    obtain ⟨terms, hne, hjoin, hall⟩ := Fragment.isConjunction_join (List.cons_ne_nil c rest) h
    obtain ⟨texts, htext, hlength, htexts⟩ := Fragment.exists_write_join " AND " hall params
    have hnonempty : texts ≠ [] := by
      apply List.ne_nil_of_length_pos
      rw [hlength]
      exact List.length_pos_iff.2 hne
    have hwrite : (write params (whereFragment (c :: rest))).1 = " WHERE " ++ " AND ".intercalate texts := by
      rw [← htext, ← hjoin]
      rfl
    rw [hwrite]
    exact .conditions hnonempty htexts

/-- The order, the limit and the offset. -/
theorem exists_boundsText (least : Nat) (sort : List SortKey) (columns : List Column) (limit offset : Option Nat) :
    ∃ o l s, boundsText sort columns limit offset = o ++ l ++ s ∧ Derives least .orderClause o ∧
      Derives least .limitClause l ∧ Derives least .startClause s := by
  refine ⟨_, _, _, rfl, ?_, ?_, ?_⟩
  · cases sort with
    | nil => exact .noOrder
    | cons key rest =>
      refine .order (List.cons_ne_nil _ _) (List.forall_mem_map.2 fun k _ => ?_)
      exact .sortKey (derives_nameText _) k.direction
  · cases limit with
    | none => exact .noLimit
    | some n => exact .limit n
  · cases offset with
    | none => exact .noStart
    | some n => exact .start n

theorem writes_whereFragment_filter {filter : Option Filter} (h : ∀ f ∈ filter, f.HasParts least) :
    Writes least .whereClause (whereFragment (filter.toList.map Filter.condition)) := by
  refine writes_whereFragment (List.forall_mem_map.2 fun f hf => ?_)
  exact Filter.isConjunction_condition (h f (by simpa using hf))

theorem writes_keyTest (ids : List String) : Writes least .comparison (.text "meta::id(id) IN " :: ofTexts ids) := by
  intro params
  simpa [ofTexts, ListOp.sign, String.append_assoc] using
    Derives.listTest .ownKey .isIn (derives_bind params (.array (ids.map .string)))

theorem NestedScope.writes_conditions {scope : NestedScope} (h : ∀ f ∈ scope.filter, f.HasParts least) :
    Writes least .whereClause (whereFragment scope.conditions) := by
  refine writes_whereFragment (List.forall_mem_append.2 ⟨?_, ?_⟩)
  · refine List.forall_mem_map.2 fun ids _ => ⟨[_], List.cons_ne_nil _ _, rfl, ?_⟩
    exact List.forall_mem_singleton.2 fun params => .comparison (writes_keyTest ids params)
  · refine List.forall_mem_map.2 fun f hf => ?_
    exact Filter.isConjunction_condition (h f (by simpa using hf))

/-! ### Sources -/

theorem Source.writes_fragment (hleast : least ≤ 1) {source : Source} (h : source.HasParts least) :
    Writes least .targets source.fragment := by
  induction h with
  | @scan tables hlen =>
    refine Fragment.writes_ofText (.targets (by simpa using hlen) (List.forall_mem_map.2 fun table _ => ?_))
    exact .table (derives_nameText table)
  | @pointer tables ids hlen =>
    intro params
    obtain ⟨texts, htext, hlength, hall⟩ :=
      Fragment.exists_write_join ", " (writes_of_mem_pointerFragments tables ids) params
    rw [length_pointerFragments] at hlength
    rw [Source.fragment, htext]
    exact .targets (hlength ▸ hlen) fun s hs => .pointed (hall s hs)
  | @subquery source filter path cardinality _ hfilter ih =>
    intro params
    have hname : Derives least .name (nameText path) := derives_nameText path
    have hwhere := writes_whereFragment_filter hfilter (write params source.fragment).2
    have hvalues := Derives.values hname (ih params) hwhere
    have htarget : Derives least .target
        (write params (Source.subquery source path filter cardinality).fragment).1 := by
      cases cardinality with
      | one =>
        simpa [Source.fragment, between, Cardinality.isMany, Fragment.write_append, String.append_assoc] using
          Derives.distinct hvalues
      | many =>
        simpa [Source.fragment, between, Cardinality.isMany, Fragment.write_append, String.append_assoc] using
          Derives.distinctFlat hvalues
    have htargets := Derives.targets hleast (List.forall_mem_singleton.2 htarget)
    rwa [String.intercalate_singleton] at htargets

/-! ### Columns -/

theorem Column.restFragment_eq (columns : List Column) (c : Column) :
    Column.fragment c ++ Column.restFragment columns = join ", " ((c :: columns).map Column.fragment) := by
  induction columns generalizing c with
  | nil => simp [Column.restFragment, join]
  | cons d rest ih => rw [Column.restFragment, ih]; rfl

theorem writes_listFragment {columns : List Column} (h : ∀ c ∈ columns, Writes least .column c.fragment) :
    Writes least .columns (Column.listFragment columns) := by
  intro params
  cases columns with
  | nil => exact Fragment.writes_ofText .everything params
  | cons c rest =>
    obtain ⟨texts, htext, hlength, hall⟩ := Fragment.exists_write_join ", " (List.forall_mem_map.2 h) params
    have hne : texts ≠ [] := List.ne_nil_of_length_pos (by simp [hlength])
    rw [Column.listFragment, Column.restFragment_eq, htext]
    exact .columns hne hall

theorem writes_collapse {inner outer : Phrase} (cardinality : Cardinality)
    (hall : ∀ s, Derives least inner s → Derives least outer s)
    (hfirst : ∀ s, Derives least inner s → Derives least outer ("array::first(" ++ s ++ ")")) {f : Fragment}
    (h : Writes least inner f) : Writes least outer (cardinality.collapse f) := by
  intro params
  cases cardinality with
  | one =>
    simpa [Cardinality.collapse, Cardinality.isMany, firstOf, between, Fragment.write_append, String.append_assoc] using
      hfirst _ (h params)
  | many => exact hall _ (h params)

theorem writes_underKey {f : Fragment} (h : Writes least .expression f) (key : String) :
    Writes least .column (f ++ ofText (" AS " ++ nameText key)) := by
  intro params
  simpa [ofText, Fragment.write_append, String.append_assoc] using Derives.underKey (h params) (derives_nameText key)

theorem Column.writes_fragment {column : Column} (h : column.HasParts least) :
    Writes least .column column.fragment := by
  induction h with
  | metadata field label =>
    cases field with
    | thing => exact Fragment.writes_ofText (.underKey .recordTable (derives_nameText _))
    | id => exact Fragment.writes_ofText (.underKey .recordKey (derives_nameText _))
  | data path label =>
    unfold Column.fragment
    dsimp only
    split
    · exact Fragment.writes_ofText (.underKey .recordKey (derives_nameText _))
    · split
      · exact Fragment.writes_ofText (.ownName (derives_nameText path))
      · exact Fragment.writes_ofText (.underKey (.renamed (derives_nameText path)) (derives_nameText _))
  | reference path label cardinality tunnel =>
    refine writes_underKey (writes_collapse cardinality (fun _ => .related) (fun _ => .firstRelated) ?_) _
    exact Fragment.writes_ofText (.keysOf (derives_fieldText path tunnel))
  | flex path label cardinality =>
    have hname : Derives least .name (nameText path) := derives_nameText path
    -- in the text the end of the expression and the word behind it are one literal
    cases cardinality with
    | one =>
      have hsplit : " END) AS " = " END)" ++ " AS " := rfl
      refine Fragment.writes_ofText ?_
      rw [hsplit, ← String.append_assoc]
      exact .underKey (.valueOrKey hname) (derives_nameText _)
    | many =>
      have hsplit : ", |$v| IF type::is::record($v) THEN meta::id($v) ELSE $v END) AS " =
          ", |$v| IF type::is::record($v) THEN meta::id($v) ELSE $v END)" ++ " AS " := rfl
      refine Fragment.writes_ofText ?_
      rw [hsplit, ← String.append_assoc]
      exact .underKey (.valuesOrKeys hname) (derives_nameText _)
  | @nested scope columns hfilter _ ih =>
    have hselect : Writes least .subselect (.text "(SELECT " :: (Column.listFragment columns
        ++ .text (" FROM $parent." ++ fieldText scope.path scope.tunnel) :: (whereFragment scope.conditions
          ++ ofText (boundsText scope.sort columns scope.limit scope.offset ++ ")")))) := by
      intro params
      have hcolumns := writes_listFragment ih params
      have hwhere := NestedScope.writes_conditions hfilter (write params (Column.listFragment columns)).2
      obtain ⟨o, l, s, hbounds, ho, hl, hs⟩ := exists_boundsText least scope.sort columns scope.limit scope.offset
      simpa [ofText, Fragment.write_append, hbounds, String.append_assoc] using
        Derives.recordsOf hcolumns (derives_fieldText scope.path scope.tunnel) hwhere ho hl hs
    exact writes_underKey (writes_collapse scope.cardinality (fun _ => .related) (fun _ => .firstRelated) hselect) _

/-! ### Statements -/

theorem Plan.derives_statement (hleast : least ≤ 1) {plan : Plan} (h : plan.HasParts least) (params : Params) :
    Derives least .statement (plan.statement params).1 := by
  refine writes_collapse plan.cardinality (fun _ => .rows) (fun _ => .firstRow) (fun params => ?_) params
  have hcolumns := writes_listFragment (fun c hc => Column.writes_fragment (h.columns c hc)) params
  have htargets := Source.writes_fragment hleast h.source (write params (Column.listFragment plan.columns)).2
  have hwhere := writes_whereFragment_filter h.filter
    (write (write params (Column.listFragment plan.columns)).2 plan.source.fragment).2
  obtain ⟨o, l, s, hbounds, ho, hl, hs⟩ := exists_boundsText least plan.sort plan.columns plan.limit plan.offset
  simpa [ofText, Fragment.write_append, hbounds, String.append_assoc] using
    Derives.select hcolumns htargets hwhere ho hl hs

/-- Whatever the names and labels of a plan are, its statement is neutral. -/
theorem Plan.neutral_statement (plan : Plan) (params : Params) : Neutral (plan.statement params).1 :=
  (Plan.derives_statement (Nat.zero_le 1) plan.hasParts_zero params).neutral

end ThingQuery
