import ThingQuery.Proofs.Binding
import ThingQuery.Statement.Select

/-!
# Literals do not reach the text

Two plans are equal except for their literals when blanking the literals out makes them equal (`Plan.blank`).  Blanking
leaves the texts of the fragments of a plan as they are and keeps the places of the values
(`Plan.outline_fragment_blank`), and what is written depends on nothing else (`Fragment.write_of_outline_eq`).  So the
statements of such plans have the same text and bind the same keys, whatever the literals are
(`Plan.statement_of_blank_eq`).
-/

namespace ThingQuery

/-! ### Outlines of fragments -/

/-- The text of a piece; a value has none. -/
def Piece.text? : Piece → Option String
  | .text s => some s
  | .value _ => none

namespace Fragment

/-- The texts of a fragment and the places of its values. -/
def outline (f : Fragment) : List (Option String) := f.map Piece.text?

@[simp]
theorem outline_nil : outline [] = [] := rfl

@[simp]
theorem outline_text (s : String) (rest : Fragment) : outline (.text s :: rest) = some s :: outline rest := rfl

@[simp]
theorem outline_value (v : Json) (rest : Fragment) : outline (.value v :: rest) = none :: outline rest := rfl

@[simp]
theorem outline_append (f g : Fragment) : outline (f ++ g) = outline f ++ outline g := List.map_append

@[simp]
theorem outline_between (opening : String) (f : Fragment) (closing : String) :
    outline (between opening f closing) = some opening :: (outline f ++ [some closing]) := by
  simp [between]

theorem outline_join_congr (separator : String) {fs gs : List Fragment} (h : fs.map outline = gs.map outline) :
    outline (join separator fs) = outline (join separator gs) := by
  induction fs generalizing gs with
  | nil =>
    have : gs = [] := by simpa using h.symm
    rw [this]
  | cons f fs ih =>
    cases gs with
    | nil => simp at h
    | cons g gs =>
      simp only [List.map_cons, List.cons.injEq] at h
      obtain ⟨hhead, hrest⟩ := h
      have hjoin := ih hrest
      cases fs with
      | nil =>
        have : gs = [] := by simpa using hrest.symm
        simp [this, join, hhead]
      | cons f' fs =>
        cases gs with
        | nil => simp at hrest
        | cons g' gs => simp [join, hhead, hjoin]

/-- What is written depends on the outline and on the keys in use. -/
theorem write_of_outline_eq {f g : Fragment} (h : f.outline = g.outline) {p q : Params} (hkeys : p.SameKeys q) :
    (write p f).1 = (write q g).1 ∧ (write p f).2.SameKeys (write q g).2 := by
  induction f generalizing g p q with
  | nil =>
    have : g = [] := by simpa [outline] using h.symm
    subst this
    exact ⟨rfl, hkeys⟩
  | cons piece rest ih =>
    cases g with
    | nil => simp [outline] at h
    | cons piece' rest' =>
      obtain ⟨hpiece, hrest⟩ : piece.text? = piece'.text? ∧ outline rest = outline rest' := by
        simpa [outline] using h
      cases piece with
      | text s =>
        cases piece' with
        | value w => simp [Piece.text?] at hpiece
        | text t =>
          have hst : s = t := by simpa [Piece.text?] using hpiece
          obtain ⟨htext, hafter⟩ := ih hrest hkeys
          exact ⟨by simp [hst, htext], hafter⟩
      | value v =>
        cases piece' with
        | text t => simp [Piece.text?] at hpiece
        | value w =>
          obtain ⟨hplaceholder, hbound⟩ := hkeys.bind v w
          obtain ⟨htext, hafter⟩ := ih hrest hbound
          exact ⟨by simp [hplaceholder, htext], hafter⟩

end Fragment

open Fragment (outline outline_join_congr)

/-! ### Plans without their literals -/

/-- As many empty texts as there are keys. -/
def blankKeys (ids : List String) : List String := ids.map fun _ => ""

namespace Filter

mutual

/-- The filter with its literals blanked out.  Keys that are looked for in given tables are blanked one by one, since
each of them is written as a pointer of its own; other lists are written as one value and are emptied. -/
def blank : Filter → Filter
  | .scalar op left _ => .scalar op left .null
  | .list op left _ => .list op left []
  | .ref op left right (some tables) tunnel => .ref op left (blankKeys right) (some tables) tunnel
  | .ref op left _ none tunnel => .ref op left [] none tunnel
  | .null op left tunnel => .null op left tunnel
  | .and children => .and (blankAll children)
  | .or children => .or (blankAll children)
  | .not child => .not (blank child)
  | .nested path cardinality tunnel inner => .nested path cardinality tunnel (blank inner)
  | .falsy => .falsy

/-- The filters of a list with their literals blanked out. -/
def blankAll : List Filter → List Filter
  | [] => []
  | f :: rest => blank f :: blankAll rest

end

end Filter

/-- The source with its literals blanked out. -/
def Source.blank : Source → Source
  | .scan tables => .scan tables
  | .pointer tables ids => .pointer tables (blankKeys ids)
  | .subquery source oppositePath filter cardinality =>
    .subquery source.blank oppositePath (filter.map Filter.blank) cardinality

/-- What a nested column says about its records, with the literals blanked out. -/
def NestedScope.blank (scope : NestedScope) : NestedScope :=
  { scope with ids := scope.ids.map fun _ => [], filter := scope.filter.map Filter.blank }

namespace Column

mutual

/-- The column with its literals blanked out. -/
def blank : Column → Column
  | .nested scope columns => .nested scope.blank (blankAll columns)
  | .metadata field label => .metadata field label
  | .data path label => .data path label
  | .reference path label cardinality tunnel => .reference path label cardinality tunnel
  | .flex path label cardinality => .flex path label cardinality

/-- The columns of a list with their literals blanked out. -/
def blankAll : List Column → List Column
  | [] => []
  | c :: rest => blank c :: blankAll rest

end

end Column

/-- The plan with its literals blanked out. -/
def Plan.blank (plan : Plan) : Plan :=
  { plan with
    source := plan.source.blank
    columns := Column.blankAll plan.columns
    filter := plan.filter.map Filter.blank }

/-! ### Blanking keeps the outline -/

theorem map_outline_pointerFragments_blankKeys (tables ids : List String) :
    (pointerFragments tables (blankKeys ids)).map outline = (pointerFragments tables ids).map outline := by
  simp [pointerFragments, blankKeys, List.map_flatMap, Function.comp_def, pointerFragment, outline, Piece.text?]

theorem outline_refFragment_blankKeys (op : ListOp) (left : String) (ids tables : List String)
    (tunnel : Option String) :
    outline (refFragment op left (blankKeys ids) (some tables) tunnel) =
      outline (refFragment op left ids (some tables) tunnel) := by
  simp [refFragment, outline_join_congr ", " (map_outline_pointerFragments_blankKeys tables ids)]

theorem outline_refFragment_nil (op : ListOp) (left : String) (ids : List String) (tunnel : Option String) :
    outline (refFragment op left [] none tunnel) = outline (refFragment op left ids none tunnel) := by
  cases op <;> rfl

namespace Filter

mutual

theorem outline_fragment_blank (f : Filter) : outline f.blank.fragment = outline f.fragment := by
  match f with
  | .scalar op left right => rfl
  | .list op left right => rfl
  | .ref op left right (some tables) tunnel =>
    simp only [blank, fragment]
    exact outline_refFragment_blankKeys op left right tables tunnel
  | .ref op left right none tunnel =>
    simp only [blank, fragment]
    exact outline_refFragment_nil op left right tunnel
  | .null op left tunnel => rfl
  | .and [] => rfl
  | .and (child :: rest) =>
    have hjoin := outline_join_congr " AND " (map_outline_fragments_blankAll (child :: rest))
    simp only [blankAll, fragments] at hjoin
    simp only [blank, blankAll, fragment, Fragment.outline_between, hjoin]
  | .or children =>
    have hjoin := outline_join_congr " OR " (map_outline_fragments_blankAll children)
    simp only [blank, fragment, Fragment.outline_between, hjoin]
  | .not child =>
    have hchild := outline_fragment_blank child
    simp only [blank, fragment, Fragment.outline_between, hchild]
  | .nested path cardinality tunnel inner =>
    have hinner := outline_fragment_blank inner
    simp only [blank, fragment, Fragment.outline_between, hinner]
  | .falsy => rfl

theorem map_outline_fragments_blankAll (filters : List Filter) :
    (fragments (blankAll filters)).map outline = (fragments filters).map outline := by
  match filters with
  | [] => rfl
  | f :: rest =>
    have hf := outline_fragment_blank f
    have hrest := map_outline_fragments_blankAll rest
    simp only [blankAll, fragments, List.map_cons, hf, hrest]

end

theorem outline_condition_blank (f : Filter) : outline f.blank.condition = outline f.condition := by
  have hfragment := outline_fragment_blank f
  match f with
  | .and (child :: rest) =>
    have hjoin := outline_join_congr " AND " (map_outline_fragments_blankAll (child :: rest))
    simpa only [blank, blankAll, condition] using hjoin
  | .and [] => rfl
  | .ref op left right (some tables) tunnel => exact hfragment
  | .ref op left right none tunnel => exact hfragment
  | .scalar .. | .list .. | .null .. | .or .. | .not .. | .nested .. | .falsy => exact hfragment

theorem map_outline_condition_blank (filter : Option Filter) :
    ((filter.map blank).toList.map condition).map outline = (filter.toList.map condition).map outline := by
  cases filter with
  | none => rfl
  | some f => simp [outline_condition_blank f]

end Filter

theorem outline_whereFragment_congr {fs gs : List Fragment} (h : fs.map outline = gs.map outline) :
    outline (whereFragment fs) = outline (whereFragment gs) := by
  have hjoin := outline_join_congr " AND " h
  cases fs with
  | nil =>
    have : gs = [] := by simpa using h.symm
    rw [this]
  | cons f fs =>
    cases gs with
    | nil => simp at h
    | cons g gs => simpa [whereFragment] using hjoin

theorem Source.outline_fragment_blank (source : Source) : outline source.blank.fragment = outline source.fragment := by
  induction source with
  | scan tables => rfl
  | pointer tables ids => exact outline_join_congr ", " (map_outline_pointerFragments_blankKeys tables ids)
  | subquery source oppositePath filter cardinality ih =>
    have hwhere := outline_whereFragment_congr (Filter.map_outline_condition_blank filter)
    simp only [blank, fragment]
    cases cardinality <;> simp [Cardinality.isMany, ih, hwhere]

theorem NestedScope.map_outline_conditions_blank (scope : NestedScope) :
    scope.blank.conditions.map outline = scope.conditions.map outline := by
  have hfilter := Filter.map_outline_condition_blank scope.filter
  unfold conditions blank
  rw [List.map_append, List.map_append]
  dsimp only
  rw [hfilter]
  cases scope.ids <;> rfl

namespace Column

theorem blankAll_eq_map (columns : List Column) : blankAll columns = columns.map blank := by
  induction columns with
  | nil => rfl
  | cons c rest ih => rw [blankAll, ih, List.map_cons]

theorem outputKey_blank (column : Column) : column.blank.outputKey = column.outputKey := by
  cases column <;> rfl

theorem path?_blank (column : Column) : column.blank.path? = column.path? := by
  cases column <;> rfl

end Column

theorem boundsText_blankAll (sort : List SortKey) (columns : List Column) (limit offset : Option Nat) :
    boundsText sort (Column.blankAll columns) limit offset = boundsText sort columns limit offset := by
  unfold boundsText
  simp only [Column.blankAll_eq_map, sortColumn_map Column.outputKey_blank Column.path?_blank]

theorem Cardinality.outline_collapse_congr (cardinality : Cardinality) {f g : Fragment} (h : outline f = outline g) :
    outline (cardinality.collapse f) = outline (cardinality.collapse g) := by
  cases cardinality <;> simp [collapse, isMany, firstOf, h]

namespace Column

mutual

theorem outline_fragment_blank (column : Column) : outline column.blank.fragment = outline column.fragment := by
  match column with
  | .metadata field label => rfl
  | .data path label => rfl
  | .reference path label cardinality tunnel => rfl
  | .flex path label cardinality => rfl
  | .nested scope columns =>
    have hcolumns := outline_listFragment_blankAll columns
    have hwhere := outline_whereFragment_congr scope.map_outline_conditions_blank
    have hbounds := boundsText_blankAll scope.sort columns scope.limit scope.offset
    simp only [blank, fragment, Fragment.outline_append]
    refine congrArg₂ (· ++ ·) (Cardinality.outline_collapse_congr _ ?_) rfl
    simp only [Fragment.outline_text, Fragment.outline_append, hcolumns, hwhere]
    simp [NestedScope.blank, hbounds]

theorem outline_listFragment_blankAll (columns : List Column) :
    outline (listFragment (blankAll columns)) = outline (listFragment columns) := by
  match columns with
  | [] => rfl
  | c :: rest =>
    have hc := outline_fragment_blank c
    have hrest := outline_restFragment_blankAll rest
    simp only [blankAll, listFragment, Fragment.outline_append, hc, hrest]

theorem outline_restFragment_blankAll (columns : List Column) :
    outline (restFragment (blankAll columns)) = outline (restFragment columns) := by
  match columns with
  | [] => rfl
  | c :: rest =>
    have hc := outline_fragment_blank c
    have hrest := outline_restFragment_blankAll rest
    simp only [blankAll, restFragment, Fragment.outline_text, Fragment.outline_append, hc, hrest]

end

end Column

theorem Plan.outline_fragment_blank (plan : Plan) : outline plan.blank.fragment = outline plan.fragment := by
  have hcolumns := Column.outline_listFragment_blankAll plan.columns
  have hsource := plan.source.outline_fragment_blank
  have hwhere := outline_whereFragment_congr (Filter.map_outline_condition_blank plan.filter)
  have hbounds := boundsText_blankAll plan.sort plan.columns plan.limit plan.offset
  unfold Plan.fragment Plan.blank
  refine Cardinality.outline_collapse_congr _ ?_
  simp only [Fragment.outline_text, Fragment.outline_append, hcolumns, hsource, hwhere, hbounds]

/-- Plans that are equal except for their literals have statements with the same text, and bind the same keys. -/
theorem Plan.statement_of_blank_eq {p q : Plan} (h : p.blank = q.blank) (params : Params) :
    (p.statement params).1 = (q.statement params).1 ∧
      (p.statement params).2.values.keys = (q.statement params).2.values.keys := by
  have houtline : outline p.fragment = outline q.fragment := by
    rw [← p.outline_fragment_blank, h, q.outline_fragment_blank]
  obtain ⟨htext, hkeys⟩ := Fragment.write_of_outline_eq houtline (.refl params)
  exact ⟨htext, hkeys.keys⟩

/-- A plan with literals at every depth: keys of pointers in its source, keys and a text in its filter, and keys and
values in a nested column. -/
def pointedPlan (key name : String) (members levels : List String) (grade : Json) : Plan where
  thing := "User"
  source := .subquery (.pointer ["Member", "Guest"] [key]) "user" (some (.list .isIn "level" (levels.map .string))) .one
  columns :=
    [.data "name" none,
     .nested ⟨"members", some "levels", "Member", some members, some (.not (.ref .notIn "owner" levels none none)),
       .many, some 3, none, [⟨"level", .descending⟩], none⟩ [.data "level" none]]
  filter := some (.and
    [.scalar .ne "name" (.string name),
     .or [.ref .containsAll "members" [key, name] (some ["Member"]) none,
       .nested "members" .many none (.scalar .gte "grade" grade)]])
  limit := none
  offset := some 1
  sort := []
  cardinality := .many

theorem Plan.statement_of_blank_eq_pointed :
    (pointedPlan "m1" "ada" [] ["gold"] .null).blank =
        (pointedPlan "⟩; --" "$p0" ["'", "\n"] [] (.array [.object []])).blank ∧
      ((pointedPlan "m1" "ada" [] ["gold"] .null).statement .empty).1 =
        ((pointedPlan "⟩; --" "$p0" ["'", "\n"] [] (.array [.object []])).statement .empty).1 ∧
      ((pointedPlan "m1" "ada" [] ["gold"] .null).statement .empty).2.values.keys =
        ((pointedPlan "⟩; --" "$p0" ["'", "\n"] [] (.array [.object []])).statement .empty).2.values.keys := by
  have hblank : (pointedPlan "m1" "ada" [] ["gold"] .null).blank =
      (pointedPlan "⟩; --" "$p0" ["'", "\n"] [] (.array [.object []])).blank := rfl
  exact ⟨hblank, statement_of_blank_eq hblank .empty⟩

end ThingQuery
