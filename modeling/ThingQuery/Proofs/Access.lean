import ThingQuery.Plan.Access

/-!
# What a better way to the rows can be

One statement for each step that looks for a better way: `pointLookup?_eq_some`, `traversable?_eq_some`,
`traversal?_cases`, `improveScan?_eq_some` and `improveWith_cases` say all that the step can do.
-/

namespace ThingQuery

/-- A lookup of keys is in the given tables and names every key once. -/
theorem Source.pointLookup?_eq_some {tables : List String} {filter : Filter} {source : Source}
    (h : Source.pointLookup? tables filter = some source) :
    (∃ id, filter = .scalar .eq idColumn (.string id) ∧ source = .pointer tables [id]) ∨
    ∃ values ids, filter = .list .isIn idColumn values ∧ values.mapM Json.string? = some ids ∧
      source = .pointer tables ids.eraseDups := by
  unfold Source.pointLookup? at h
  split at h
  · split at h
    · rename_i hleft
      cases h
      exact .inl ⟨_, by rw [hleft], rfl⟩
    · cases h
  · split at h
    · rename_i hleft
      obtain ⟨ids, hids, he⟩ := Option.map_eq_some_iff.1 h
      cases he
      exact .inr ⟨_, ids, by rw [hleft], hids, rfl⟩
    · cases h
  · cases h

namespace Schema

variable {schema : Schema} {follow : Thing → Filter → Option Access} {thing : String}

/-- A field that can be followed back leads to a thing whose opposite field leads to the tables of its owner. -/
theorem traversable?_eq_some {owner : Thing} {path : String} {field : Field} {opposite : Opposite}
    (h : schema.traversable? owner path = some (field, opposite)) :
    owner.field? path = some field ∧ schema.isTraversable field = true ∧ field.kind.opposite? = some opposite ∧
      ∃ backField back pointed, schema.oppositeField? opposite = some backField ∧
        backField.kind.opposite? = some back ∧ schema.thing? back.thing = some pointed ∧
        sameTables pointed.variants owner.variants = true := by
  unfold traversable? at h
  obtain ⟨field', hfield, h⟩ := Option.bind_eq_some_iff.1 h
  split at h
  · rename_i htrav
    obtain ⟨opposite', hopp, h⟩ := Option.bind_eq_some_iff.1 h
    obtain ⟨backField, hbackField, h⟩ := Option.bind_eq_some_iff.1 h
    obtain ⟨back, hback, h⟩ := Option.bind_eq_some_iff.1 h
    obtain ⟨pointed, hpointed, h⟩ := Option.bind_eq_some_iff.1 h
    split at h
    · rename_i htables
      cases h
      exact ⟨hfield, htrav, hopp, backField, back, pointed, hbackField, hback, hpointed, htables⟩
    · cases h
  · cases h

/-- A field that can be followed back is a role or a link to a relation, and so is its opposite field. -/
theorem isRole_or_isRelationLink_of_isTraversable {field backField : Field} {opposite : Opposite}
    (h : schema.isTraversable field = true) (hopp : field.kind.opposite? = some opposite)
    (hback : schema.oppositeField? opposite = some backField) :
    (field.kind.isRole || field.kind.isRelationLink) = true ∧
      (backField.kind.isRole || backField.kind.isRelationLink) = true := by
  unfold isTraversable at h
  split at h
  · rename_i hkind
    rw [hkind] at hopp ⊢
    cases hopp
    rw [hback, Option.any_some] at h
    exact ⟨rfl, by rw [h, Bool.true_or]⟩
  · rename_i hkind
    rw [hkind] at hopp ⊢
    cases hopp
    rw [hback, Option.any_some] at h
    exact ⟨rfl, by rw [h, Bool.or_true]⟩
  · cases h

/-- The tables in which a reference looks for its keys. -/
def targetTables (schema : Schema) (opposite : Opposite) (tables : Option (List String)) : List String :=
  match tables, schema.thing? opposite.thing with
  | some named, _ => named
  | none, some target => target.variants
  | none, none => [opposite.thing]

/-- The start from the other end of a relationship, for a condition on the records there and for a comparison with
keys. -/
theorem traversal?_cases {filter : Filter} {source : Source} (h : schema.traversal? follow thing filter = some source) :
    (∃ path cardinality inner owner field opposite target start rest, filter = .nested path cardinality none inner ∧
      schema.thing? thing = some owner ∧ schema.traversable? owner path = some (field, opposite) ∧
      schema.thing? opposite.thing = some target ∧ follow target inner = some (start, rest) ∧
      source = .subquery start opposite.path rest opposite.cardinality) ∨
    (∃ op left ids tables owner field opposite, filter = .ref op left ids tables none ∧
      schema.thing? thing = some owner ∧ schema.traversable? owner left = some (field, opposite) ∧
      (∃ cardinality, field.kind.cardinality? = some cardinality ∧ op = .positive cardinality) ∧
      source = .subquery (.pointer (schema.targetTables opposite tables) ids) opposite.path none
        opposite.cardinality) := by
  unfold traversal? at h
  split at h
  · obtain ⟨owner, howner, h⟩ := Option.bind_eq_some_iff.1 h
    obtain ⟨⟨field, opposite⟩, htrav, h⟩ := Option.bind_eq_some_iff.1 h
    obtain ⟨target, htarget, h⟩ := Option.bind_eq_some_iff.1 h
    obtain ⟨⟨start, rest⟩, hfollow, h⟩ := Option.bind_eq_some_iff.1 h
    cases h
    exact .inl ⟨_, _, _, owner, field, opposite, target, start, rest, rfl, howner, htrav, htarget, hfollow, rfl⟩
  · obtain ⟨owner, howner, h⟩ := Option.bind_eq_some_iff.1 h
    obtain ⟨⟨field, opposite⟩, htrav, h⟩ := Option.bind_eq_some_iff.1 h
    obtain ⟨cardinality, hcard, h⟩ := Option.bind_eq_some_iff.1 h
    split at h
    · rename_i hop
      cases h
      exact .inr ⟨_, _, _, _, owner, field, opposite, rfl, howner, htrav, ⟨cardinality, hcard, hop⟩, rfl⟩
    · cases h
  · cases h

/-- The better way comes from the first part of the conjunction, and the other parts are left over. -/
theorem improveScan?_eq_some {tables : List String} {filter : Filter} {access : Access}
    (h : schema.improveScan? follow thing tables filter = some access) :
    ∃ first rest, filter.conjuncts = first :: rest ∧
      (Source.pointLookup? tables first = some access.1 ∨ schema.traversal? follow thing first = some access.1) ∧
      access.2 = if rest.isEmpty then none else some (Filter.all rest) := by
  unfold improveScan? at h
  split at h
  · cases h
  · rename_i first rest hconj
    obtain ⟨source, hsource, he⟩ := Option.map_eq_some_iff.1 h
    cases he
    rw [Option.orElse_eq_orElse, Option.orElse_eq_or] at hsource
    refine ⟨first, rest, hconj, ?_, rfl⟩
    exact (Option.or_eq_some_iff.1 hsource).imp id And.right

/-- All that a search for a better way can give: no filter is left, the source is kept, or a scan is replaced on account
of the first part of the normal form or of the reordered one. -/
theorem improveWith_cases (schema : Schema) (follow : Thing → Filter → Option Access) (thing : String)
    (source : Source) (filter : Option Filter) :
    ((∀ f, filter = some f → f.normalize.isTruthy = true) ∧
      schema.improveWith follow thing source filter = (source, none)) ∨
    (∃ f, filter = some f ∧ f.normalize.isTruthy = false ∧
      schema.improveWith follow thing source filter = (source, some (f.normalize.reorderFor schema thing)) ∧
      ∀ tables, source = .scan tables → schema.improveScan? follow thing tables f.normalize = none ∧
        schema.improveScan? follow thing tables (f.normalize.reorderFor schema thing) = none) ∨
    (∃ f tables start access, filter = some f ∧ f.normalize.isTruthy = false ∧ source = .scan tables ∧
      (start = f.normalize ∨ start = f.normalize.reorderFor schema thing) ∧
      schema.improveScan? follow thing tables start = some access ∧
      schema.improveWith follow thing source filter = (access.1, access.2.bind (Filter.tidy? schema thing))) := by
  cases filter with
  | none => exact .inl ⟨by simp, rfl⟩
  | some f =>
    cases htruthy : f.normalize.isTruthy with
    | true => exact .inl ⟨by simp [htruthy], by simp [improveWith, htruthy]⟩
    | false =>
      right
      cases source with
      | scan tables =>
        cases hnormal : schema.improveScan? follow thing tables f.normalize with
        | some access =>
          refine .inr ⟨f, tables, _, access, rfl, htruthy, rfl, .inl rfl, hnormal, ?_⟩
          simp [improveWith, htruthy, hnormal]
        | none =>
          cases hled : schema.improveScan? follow thing tables (f.normalize.reorderFor schema thing) with
          | some access =>
            refine .inr ⟨f, tables, _, access, rfl, htruthy, rfl, .inr rfl, hled, ?_⟩
            simp [improveWith, htruthy, hnormal, hled]
          | none =>
            refine .inl ⟨f, rfl, htruthy, by simp [improveWith, htruthy, hnormal, hled], ?_⟩
            intro tables' he
            cases he
            exact ⟨hnormal, hled⟩
      | pointer tables ids => exact .inl ⟨f, rfl, htruthy, by simp [improveWith, htruthy], by simp⟩
      | subquery start path rest cardinality =>
        exact .inl ⟨f, rfl, htruthy, by simp [improveWith, htruthy], by simp⟩

end Schema

end ThingQuery
