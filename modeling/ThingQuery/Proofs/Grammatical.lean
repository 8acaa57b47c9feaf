import ThingQuery.Proofs.Gaps
import ThingQuery.Proofs.Written

/-!
# Grammatical statements

A statement derives from the grammar with at least one part in every list exactly when the plan has at least one part in
every list (`Plan.derives_statement_iff`): a missing list leaves a gap in the statement, and what is derived has none.
-/

namespace ThingQuery

open Fragment (write join between ofText Writes)

/-! ### Gaps from missing targets -/

/-- The text is empty or starts with a space or a closing bracket. -/
def Ends (s : String) : Prop := ∀ c ∈ s.toList.head?, c = ' ' ∨ c = ')'

theorem ends_empty : Ends "" := by
  intro c hc
  cases hc

theorem ends_append_of_head {c : Char} {chars : List Char} (h : c = ' ' ∨ c = ')') (t : String) :
    Ends (String.ofList (c :: chars) ++ t) := by
  intro d hd
  rw [String.toList_append, String.toList_ofList] at hd
  cases hd
  exact h

theorem Ends.append {s t : String} (hs : Ends s) (ht : Ends t) : Ends (s ++ t) := forall_mem_head?_append hs ht

theorem Derives.ends {least : Nat} {phrase : Phrase} {s : String} (h : Derives least phrase s)
    (hclause : phrase.isClause = true) : Ends s := by
  cases h with
  | noCondition | noOrder | noLimit | noStart => exact ends_empty
  | conditions | order | limit | start => exact ends_append_of_head (.inl rfl) _
  | _ => cases hclause

theorem not_tight_from {rest : String} (h : Ends rest) : ¬Tight (" FROM " ++ rest) := by
  intro htight
  have hspace : Tight (" " ++ rest) := by
    have hsplit : " FROM " ++ rest = " FROM" ++ (" " ++ rest) := by
      rw [← String.append_assoc]
      rfl
    rw [hsplit] at htight
    exact htight.of_append rfl
  unfold Tight at hspace
  rw [String.toList_append] at hspace
  obtain ⟨hnone, hblank⟩ := (hspace.1 rfl).1 rfl
  have hclose := (hspace.1 rfl).2 (.inl rfl)
  cases hhead : rest.toList.head? with
  | none => exact hnone hhead
  | some c =>
    rcases h c hhead with rfl | rfl
    · exact hblank hhead
    · exact hclose hhead

/-! ### Parts of a text without gaps -/

namespace Fragment

/-- The fragment stands somewhere in a text without gaps. -/
def Exposed (f : Fragment) : Prop := ∃ params rest, Tight ((write params f).1 ++ rest)

theorem Exposed.of_append_left {f g : Fragment} (h : Exposed (f ++ g)) : Exposed f := by
  obtain ⟨params, rest, h⟩ := h
  rw [write_append, String.append_assoc] at h
  exact ⟨params, _, h⟩

theorem Exposed.of_append_right {f g : Fragment} (h : Exposed (f ++ g)) (hf : ∀ params, Closed (write params f).1) :
    Exposed g := by
  obtain ⟨params, rest, h⟩ := h
  rw [write_append, String.append_assoc] at h
  exact ⟨_, rest, h.of_append (hf params)⟩

theorem Exposed.of_text {s : String} {f : Fragment} (h : Exposed (.text s :: f)) (hs : Closed s) : Exposed f := by
  obtain ⟨params, rest, h⟩ := h
  rw [write_text, String.append_assoc] at h
  exact ⟨params, rest, h.of_append hs⟩

theorem Exposed.of_between {opening closing : String} {f : Fragment} (h : Exposed (between opening f closing))
    (hopening : Closed opening) : Exposed f :=
  (h.of_text hopening).of_append_left

theorem Exposed.of_join {separator : String} (hseparator : Closed separator) {fs : List Fragment}
    (hfs : ∀ f ∈ fs, ∀ params, Closed (write params f).1) (h : Exposed (join separator fs)) : ∀ f ∈ fs, Exposed f := by
  induction fs using join.induct with
  | case1 => simp
  | case2 f => simpa [join] using h
  | case3 f g rest ih =>
    rw [List.forall_mem_cons] at hfs ⊢
    rw [join] at h
    exact ⟨h.of_append_left, ih hfs.2 ((h.of_append_right hfs.1).of_text hseparator)⟩

theorem Writes.closed {least : Nat} {phrase : Phrase} {f : Fragment} (h : Writes least phrase f) (params : Params) :
    Closed (write params f).1 := (h params).neutral.closed

end Fragment

open Fragment (Exposed)

theorem closed_nameText (name : String) : Closed (nameText name) :=
  (derives_nameText name : Derives 0 .name _).neutral.closed

theorem closed_fieldText (path : String) (tunnel : Option String) : Closed (fieldText path tunnel) :=
  (derives_fieldText path tunnel : Derives 0 .field _).neutral.closed

/-! ### Filters -/

theorem Filter.closed_fragment (filter : Filter) (params : Params) : Closed (write params filter.fragment).1 :=
  Fragment.Writes.closed (Filter.writes_fragment filter.hasParts_zero) params

theorem Filter.exposed_of_join {separator : String} (hseparator : Closed separator) {filters : List Filter}
    (h : Exposed (join separator (Filter.fragments filters))) : ∀ f ∈ filters, Exposed f.fragment := by
  rw [Filter.fragments_eq_map] at h
  exact List.forall_mem_map.1 (h.of_join hseparator (List.forall_mem_map.2 fun f _ => f.closed_fragment))

theorem not_exposed_empty_brackets : ¬Exposed (between "(" [] ")") := by
  rintro ⟨params, rest, h⟩
  have htight : Tight ("()" ++ rest) := by
    simpa [between, String.append_assoc] using h
  unfold Tight at htight
  rw [String.toList_append] at htight
  exact (htight.1 rfl).2 (.inr rfl) rfl

/-- A disjunction without parts leaves a gap. -/
theorem Filter.hasParts_of_exposed {filter : Filter} (h : Exposed filter.fragment) : filter.HasParts 1 := by
  have hopen : Closed "(" := rfl
  induction filter.hasParts_zero with
  | scalar op left right => exact .scalar op left right
  | list op left right => exact .list op left right
  | ref op left ids tables tunnel => exact .ref op left ids tables tunnel
  | null op left tunnel => exact .null op left tunnel
  | falsy => exact .falsy
  | @and children _ ih =>
    cases children with
    | nil => exact .and (by simp)
    | cons child rest =>
      have hgroup : Exposed (join " AND " (Filter.fragments (child :: rest))) := Exposed.of_between h hopen
      have hparts := Filter.exposed_of_join neutral_and.closed hgroup
      exact .and fun f hf => ih f hf (hparts f hf)
  | @or children _ _ ih =>
    rw [Filter.fragment] at h
    cases children with
    | nil => exact absurd h not_exposed_empty_brackets
    | cons child rest =>
      have hparts := Filter.exposed_of_join neutral_or.closed (Exposed.of_between h hopen)
      exact .or (Nat.succ_le_succ (Nat.zero_le _)) fun f hf => ih f hf (hparts f hf)
  | not _ ih =>
    rw [Filter.fragment] at h
    have hnot : Closed "!(" := rfl
    exact .not (ih (Exposed.of_between h hnot))
  | nested path cardinality tunnel _ ih =>
    rw [Filter.fragment] at h
    have hfield := closed_fieldText path tunnel
    have hrecords : Closed
        (if cardinality.isMany then fieldText path tunnel else "[" ++ fieldText path tunnel ++ "]") := by
      split
      · exact hfield
      · exact .append (.append rfl hfield) rfl
    exact .nested path cardinality tunnel (ih (Exposed.of_between h (.append (.append rfl hrecords) rfl)))

theorem Filter.hasParts_of_exposed_condition {filter : Filter} (h : Exposed filter.condition) :
    filter.HasParts 1 := by
  unfold Filter.condition at h
  split at h
  · exact .and fun f hf => Filter.hasParts_of_exposed (Filter.exposed_of_join neutral_and.closed h f hf)
  · exact Filter.hasParts_of_exposed h

theorem Filter.closed_condition (filter : Filter) (params : Params) : Closed (write params filter.condition).1 := by
  obtain ⟨texts, htext, _, hall⟩ :=
    Fragment.exists_write_join " AND " (Filter.writes_terms filter.hasParts_zero) params
  rw [filter.condition_eq_join, htext]
  exact (neutral_and.intercalate fun s hs => (hall s hs).neutral).closed

theorem exposed_of_whereFragment {conditions : List Fragment} (h : Exposed (whereFragment conditions))
    (hclosed : ∀ c ∈ conditions, ∀ params, Closed (write params c).1) : ∀ c ∈ conditions, Exposed c := by
  cases conditions with
  | nil => simp
  | cons c rest => exact (Exposed.of_text h rfl).of_join neutral_and.closed hclosed

theorem hasParts_of_exposed_where {filter : Option Filter}
    (h : Exposed (whereFragment (filter.toList.map Filter.condition))) : ∀ f ∈ filter, f.HasParts 1 := by
  intro f hf
  have hconditions := exposed_of_whereFragment h (List.forall_mem_map.2 fun f _ => f.closed_condition)
  exact Filter.hasParts_of_exposed_condition (hconditions _ (List.mem_map_of_mem (by simpa using hf)))

theorem NestedScope.hasParts_of_exposed {scope : NestedScope} (h : Exposed (whereFragment scope.conditions)) :
    ∀ f ∈ scope.filter, f.HasParts 1 := by
  intro f hf
  refine Filter.hasParts_of_exposed_condition (exposed_of_whereFragment h (List.forall_mem_append.2 ⟨?_, ?_⟩) _ ?_)
  · exact List.forall_mem_map.2 fun ids _ params => (writes_keyTest ids params : Derives 0 _ _).neutral.closed
  · exact List.forall_mem_map.2 fun f _ => f.closed_condition
  · exact List.mem_append_right _ (List.mem_map_of_mem (by simpa using hf))

/-! ### Columns -/

theorem Column.closed_fragment (column : Column) (params : Params) : Closed (write params column.fragment).1 :=
  Fragment.Writes.closed (Column.writes_fragment column.hasParts_zero) params

theorem closed_listFragment (columns : List Column) (params : Params) :
    Closed (write params (Column.listFragment columns)).1 :=
  Fragment.Writes.closed (writes_listFragment fun c _ => Column.writes_fragment c.hasParts_zero) params

theorem exposed_of_listFragment {columns : List Column} (h : Exposed (Column.listFragment columns)) :
    ∀ c ∈ columns, Exposed c.fragment := by
  cases columns with
  | nil => simp
  | cons c rest =>
    rw [Column.listFragment, Column.restFragment_eq] at h
    exact List.forall_mem_map.1 (h.of_join neutral_comma.closed (List.forall_mem_map.2 fun d _ => d.closed_fragment))

theorem exposed_of_collapse {cardinality : Cardinality} {f : Fragment} (h : Exposed (cardinality.collapse f)) :
    Exposed f := by
  cases cardinality with
  | one => exact Exposed.of_between h rfl
  | many => exact h

theorem Column.hasParts_of_exposed {column : Column} (h : Exposed column.fragment) : column.HasParts 1 := by
  induction column.hasParts_zero with
  | metadata field label => exact .metadata field label
  | data path label => exact .data path label
  | reference path label cardinality tunnel => exact .reference path label cardinality tunnel
  | flex path label cardinality => exact .flex path label cardinality
  | @nested scope columns _ _ ih =>
    rw [Column.fragment] at h
    have hselect := Exposed.of_text (exposed_of_collapse h.of_append_left) rfl
    have hcolumns := exposed_of_listFragment hselect.of_append_left
    have hfrom := hselect.of_append_right (closed_listFragment columns)
    have hwhere := (hfrom.of_text (.append rfl (closed_fieldText scope.path scope.tunnel))).of_append_left
    exact .nested (NestedScope.hasParts_of_exposed hwhere) fun c hc => ih c hc (hcolumns c hc)

/-! ### Sources -/

theorem Source.closed_fragment (source : Source) (params : Params) : Closed (write params source.fragment).1 :=
  Fragment.Writes.closed (Source.writes_fragment (Nat.zero_le 1) source.hasParts_zero) params

theorem ends_whereFragment (filter : Option Filter) (params : Params) :
    Ends (write params (whereFragment (filter.toList.map Filter.condition))).1 :=
  Derives.ends (writes_whereFragment_filter (fun f _ => f.hasParts_zero) params) rfl

theorem tight_of_between {opening closing words : String} {f g : Fragment} {params : Params} {rest : String}
    (hopening : Closed opening) (hwords : Closed words)
    (h : Tight ((write params (between opening (.text (words ++ " FROM ") :: (f ++ g)) closing)).1 ++ rest)) :
    Tight (" FROM " ++ ((write params f).1 ++ ((write (write params f).2 g).1 ++ (closing ++ rest)))) := by
  simp only [between, List.cons_append, Fragment.write_text, Fragment.write_append, Fragment.write_nil,
    String.append_empty, String.append_assoc] at h
  exact (h.of_append hopening).of_append hwords

/-- A missing target leaves a gap behind `FROM`. -/
theorem Source.hasParts_of_tight {source : Source} {params : Params} {rest : String}
    (h : Tight (" FROM " ++ ((write params source.fragment).1 ++ rest))) (hrest : Ends rest) : source.HasParts 1 := by
  induction source generalizing params rest with
  | scan tables =>
    cases tables with
    | nil => exact absurd h (not_tight_from hrest)
    | cons table others => exact .scan (Nat.succ_le_succ (Nat.zero_le _))
  | pointer tables ids =>
    refine .pointer (Nat.one_le_iff_ne_zero.2 fun hzero => ?_)
    rw [← length_pointerFragments, List.length_eq_zero_iff] at hzero
    rw [Source.fragment, hzero] at h
    exact not_tight_from hrest (by simpa [join] using h)
  | subquery source path filter cardinality ih =>
    have hwords : Closed ("SELECT VALUE " ++ nameText path) := .append rfl (closed_nameText path)
    have htarget := h.of_append rfl
    obtain ⟨closing, hclosing, hselect⟩ : ∃ closing, Ends closing ∧ Tight (" FROM " ++
        ((write params source.fragment).1 ++ ((write (write params source.fragment).2
          (whereFragment (filter.toList.map Filter.condition))).1 ++ closing))) := by
      rw [Source.fragment] at htarget
      cases cardinality with
      | one =>
        have hopening : Closed "array::distinct(" := rfl
        exact ⟨")" ++ rest, ends_append_of_head (.inr rfl) _, tight_of_between hopening hwords htarget⟩
      | many =>
        have hopening : Closed "array::distinct(array::flatten(" := rfl
        exact ⟨"))" ++ rest, ends_append_of_head (.inr rfl) _, tight_of_between hopening hwords htarget⟩
    refine .subquery path cardinality (ih hselect ((ends_whereFragment filter _).append hclosing)) ?_
    have hwhere := (hselect.of_append rfl).of_append (source.closed_fragment params)
    exact hasParts_of_exposed_where ⟨_, closing, hwhere⟩

/-! ### Statements -/

/-- A statement is grammatical exactly when no list in its plan is missing. -/
theorem Plan.derives_statement_iff (plan : Plan) (params : Params) :
    Derives 1 .statement (plan.statement params).1 ↔ plan.HasParts 1 := by
  refine ⟨fun h => ?_, fun h => Plan.derives_statement (Nat.le_refl 1) h params⟩
  obtain ⟨closing, hclosing, hselect⟩ : ∃ closing, Ends closing ∧ Tight ((write params
      (.text "SELECT " :: (Column.listFragment plan.columns ++ .text " FROM " :: (plan.source.fragment
        ++ whereFragment (plan.filter.toList.map Filter.condition)
        ++ ofText (boundsText plan.sort plan.columns plan.limit plan.offset))))).1 ++ closing) := by
    have htight := h.tight
    unfold Plan.statement Plan.fragment at htight
    cases hcardinality : plan.cardinality with
    | one =>
      have hopening : Closed "array::first(" := rfl
      rw [hcardinality] at htight
      have hclose : Ends ")" := by
        intro c hc
        cases hc
        exact .inr rfl
      refine ⟨")", hclose, Tight.of_append ?_ hopening⟩
      simpa [Cardinality.collapse, Cardinality.isMany, firstOf, between, Fragment.write_append, String.append_assoc]
        using htight
    | many =>
      rw [hcardinality] at htight
      exact ⟨"", ends_empty, by simpa [Cardinality.collapse, Cardinality.isMany] using htight⟩
  have hlist : Exposed _ := Exposed.of_text ⟨params, closing, hselect⟩ rfl
  have hfrom := (hlist.of_append_right (closed_listFragment plan.columns)).of_text rfl
  refine ⟨⟨?_, ?_⟩, ?_⟩
  · exact hasParts_of_exposed_where (hfrom.of_append_left.of_append_right plan.source.closed_fragment)
  · exact fun c hc => Column.hasParts_of_exposed (exposed_of_listFragment hlist.of_append_left c hc)
  · simp only [Fragment.write_text, Fragment.write_append, String.append_assoc] at hselect
    have hsource := (hselect.of_append rfl).of_append (closed_listFragment plan.columns params)
    refine Source.hasParts_of_tight hsource (.append (ends_whereFragment plan.filter _) (.append ?_ hclosing))
    obtain ⟨o, l, s, hbounds, ho, hl, hs⟩ := exists_boundsText 0 plan.sort plan.columns plan.limit plan.offset
    simp only [ofText, Fragment.write_text, Fragment.write_nil, String.append_empty, hbounds]
    exact ((ho.ends rfl).append (hl.ends rfl)).append (hs.ends rfl)

end ThingQuery
