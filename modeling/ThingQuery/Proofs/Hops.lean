import ThingQuery.Proofs.Access
import ThingQuery.Proofs.Columnwise

/-!
# The number of relationships is no restriction

A better way to the rows is looked for through at most as many relationships, one after the other, as the filter goes
through.  Normal forms and reordered filters go through no more of them, and every step to the other end of a
relationship leaves one less, so a larger bound gives the same result (`improve_eq_improveWith`).
-/

namespace ThingQuery

namespace Filter

theorem hopsAll_le_iff {filters : List Filter} {n : Nat} : hopsAll filters ≤ n ↔ ∀ f ∈ filters, f.hops ≤ n := by
  induction filters with
  | nil => simp [hopsAll]
  | cons f rest ih => rw [hopsAll, List.forall_mem_cons, ← ih, Nat.max_le]

/-- That a filter goes through at most a number of relationships depends only on its columns. -/
theorem columnwise_hops_le : Columnwise fun n f => f.hops ≤ n where
  falsy n := Nat.zero_le n
  and_iff := by
    intro n children
    rw [hops, hopsAll_le_iff]
  or_iff := by
    intro n children
    rw [hops, hopsAll_le_iff]
  not_iff := by
    intro n child
    rw [hops]
  scalar := by
    intros
    simp [hops]
  list := by
    intros
    simp [hops]
  ref := by
    intros
    simp [hops]
  nested := by
    intro n path cardinality tunnel inner inner' h hinner
    have := hinner inner.hops (Nat.le_refl _)
    rw [hops] at h ⊢
    omega

theorem hops_le_of_mem_conjuncts {filter f : Filter} (h : f ∈ filter.conjuncts) : f.hops ≤ filter.hops :=
  columnwise_hops_le.conjuncts (Nat.le_refl _) h

theorem hops_normalize_le (filter : Filter) : filter.normalize.hops ≤ filter.hops :=
  columnwise_hops_le.normalize filter _ (Nat.le_refl _)

theorem hops_reorderFor_le (schema : Schema) (thing : String) (filter : Filter) :
    (filter.reorderFor schema thing).hops ≤ filter.hops :=
  columnwise_hops_le.reorderFor schema thing (Nat.le_refl _)

end Filter

namespace Schema

/-- The way to the records of a thing that satisfy a filter. -/
def follow (schema : Schema) (target : Thing) (inner : Filter) : Option Access :=
  some (schema.improve inner.hops target.name (.scan target.variants) (some inner))

variable {schema : Schema} {way way' : Thing → Filter → Option Access} {thing : String}

/-! ### The way that is followed matters only for shorter filters -/

theorem traversal?_congr {filter : Filter}
    (h : ∀ target inner, inner.hops < filter.hops → way target inner = way' target inner) :
    schema.traversal? way thing filter = schema.traversal? way' thing filter := by
  unfold traversal?
  split
  · rename_i path cardinality inner
    have hinner : ∀ target, way target inner = way' target inner :=
      fun target => h target inner (by rw [Filter.hops]; omega)
    simp only [hinner]
  · rfl
  · rfl

theorem improveScan?_congr {tables : List String} {filter : Filter}
    (h : ∀ target inner, inner.hops < filter.hops → way target inner = way' target inner) :
    schema.improveScan? way thing tables filter = schema.improveScan? way' thing tables filter := by
  unfold improveScan?
  split
  · rfl
  · rename_i first rest hconj
    have hfirst : first.hops ≤ filter.hops := Filter.hops_le_of_mem_conjuncts (by simp [hconj])
    rw [traversal?_congr fun target inner hlt => h target inner (Nat.lt_of_lt_of_le hlt hfirst)]

theorem improveWith_congr {source : Source} {filter : Option Filter}
    (h : ∀ f, filter = some f → ∀ target inner, inner.hops < f.hops → way target inner = way' target inner) :
    schema.improveWith way thing source filter = schema.improveWith way' thing source filter := by
  cases filter with
  | none => rfl
  | some f =>
    have hf := h f rfl
    have hnormal := Filter.hops_normalize_le f
    have hled := Filter.hops_reorderFor_le schema thing f.normalize
    have hscan : ∀ tables start, start.hops ≤ f.hops →
        schema.improveScan? way thing tables start = schema.improveScan? way' thing tables start :=
      fun tables start hle => improveScan?_congr fun target inner hlt => hf target inner (Nat.lt_of_lt_of_le hlt hle)
    simp only [improveWith, Option.map_some]
    split
    · rfl
    · split
      · rename_i tables
        rw [hscan tables _ hnormal, hscan tables _ (Nat.le_trans hled hnormal)]
      · rfl

/-- A bound that the filter does not reach gives the same as a larger one. -/
theorem improve_eq_improve (n m : Nat) (thing : String) (source : Source) (filter : Option Filter)
    (hn : ∀ f, filter = some f → f.hops ≤ n) (hm : ∀ f, filter = some f → f.hops ≤ m) :
    schema.improve n thing source filter = schema.improve m thing source filter := by
  induction n generalizing m thing source filter with
  | zero =>
    cases m with
    | zero => rfl
    | succ m =>
      rw [improve, improve]
      refine improveWith_congr fun f hf target inner hlt => ?_
      have := hn f hf
      omega
  | succ n ih =>
    cases m with
    | zero =>
      rw [improve, improve]
      refine improveWith_congr fun f hf target inner hlt => ?_
      have := hm f hf
      omega
    | succ m =>
      rw [improve, improve]
      refine improveWith_congr fun f hf target inner hlt => ?_
      -- the inner filter goes through fewer relationships than `f`
      have hnf := hn f hf
      have hmf := hm f hf
      refine congrArg some (ih m target.name (.scan target.variants) (some inner) ?_ ?_)
      · intro g hg
        cases hg
        omega
      · intro g hg
        cases hg
        omega

/-- The search for a better way follows relationships without any bound. -/
theorem improve_eq_improveWith (n : Nat) (thing : String) (source : Source) (filter : Option Filter)
    (hn : ∀ f, filter = some f → f.hops ≤ n) :
    schema.improve n thing source filter = schema.improveWith schema.follow thing source filter := by
  cases n with
  | zero =>
    rw [improve]
    refine improveWith_congr fun f hf target inner hlt => ?_
    have := hn f hf
    omega
  | succ n =>
    rw [improve]
    refine improveWith_congr fun f hf target inner hlt => ?_
    have hnf := hn f hf
    refine congrArg some (improve_eq_improve n inner.hops target.name (.scan target.variants) (some inner) ?_ ?_)
    · intro g hg
      cases hg
      omega
    · intro g hg
      cases hg
      exact Nat.le_refl _

/-- What one search for a better way gives, whatever is known of the ways that it starts from, holds of all ways along
relationships. -/
theorem follow_induction {P : Thing → Filter → Access → Prop}
    (step : ∀ way, (∀ target inner access, way target inner = some access → P target inner access) →
      ∀ target inner, P target inner (schema.improveWith way target.name (.scan target.variants) (some inner)))
    {target : Thing} {inner : Filter} {access : Access} (h : schema.follow target inner = some access) :
    P target inner access := by
  have hall : ∀ n target inner, P target inner (schema.improve n target.name (.scan target.variants) (some inner)) := by
    intro n
    induction n with
    | zero => exact step _ (fun _ _ _ h => by cases h)
    | succ n ih =>
      refine step _ fun target inner access h => ?_
      cases h
      exact ih target inner
  cases h
  exact hall inner.hops target inner

end Schema

/-- A better plan in one step. -/
theorem Plan.optimize_eq (schema : Schema) (plan : Plan) :
    plan.optimize schema =
      { plan with
        source := (schema.improveWith schema.follow plan.thing plan.source plan.filter).1
        filter := (schema.improveWith schema.follow plan.thing plan.source plan.filter).2
        columns := Column.tidyAll schema plan.columns } := by
  unfold Plan.optimize
  dsimp only
  rw [Schema.improve_eq_improveWith]
  intro f hf
  simp [hf]

end ThingQuery
