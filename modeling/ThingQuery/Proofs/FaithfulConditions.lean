import ThingQuery.Proofs.Legibility
import ThingQuery.Proofs.SameValues

/-!
# Conditions are faithful

Two filters that are written alike, with the same parameters, hold of the same records
(`Filter.satisfies_eq_of_write_eq`).  Both are read from the one text as the one condition, and its meaning depends on
the parameters only up to sameness.
-/

namespace ThingQuery

open Fragment (chars write)

namespace Params

variable {p q : Params}

theorem Alike.value (h : p.Alike q) (key : String) : (p.value key).Alike (q.value key) := by
  unfold Params.value
  match p.get? key, q.get? key, h.get? key with
  | none, none, _ => exact ⟨rfl, rfl⟩
  | some _, some _, .some hvw => exact hvw

theorem Alike.items (h : p.Alike q) (key : String) : List.Forall₂ Json.Alike (p.items key) (q.items key) :=
  (h.value key).array?_getD

theorem Alike.text_eq (h : p.Alike q) : p.text = q.text := by
  funext key
  rw [Params.text, Params.text, (h.value key).string?_eq]

end Params

namespace Condition

variable {p q : Params}

mutual

/-- Parameters that are alike give a condition the same meaning. -/
theorem satisfies_filter_congr (h : p.Alike q) (store : Store) :
    ∀ (c : Condition) (record : Json), store.satisfies (c.filter p) record = store.satisfies (c.filter q) record
  | .truth true, _ => rfl
  | .truth false, _ => rfl
  | .scalar op column key, record => by
    rw [filter, filter, Store.satisfies, Store.satisfies]
    exact op.test_congr _ (h.value key)
  | .list op column key, record => by
    rw [filter, filter, Store.satisfies, Store.satisfies]
    exact op.test_congr _ (h.items key)
  | .keys op path tunnel key, record => by
    rw [filter, filter, Json.filterMap_string?_congr (h.items key)]
  | .pointers op path tunnel listed, record => by
    rw [filter, filter, listedPointers, listedPointers, h.text_eq]
  | .null op path tunnel, _ => rfl
  | .all parts, record => by
    rw [filter, filter, Store.satisfies, Store.satisfies]
    exact (satisfies_filters_congr h store parts record).1
  | .any parts, record => by
    rw [filter, filter, Store.satisfies, Store.satisfies]
    exact (satisfies_filters_congr h store parts record).2
  | .not part, record => by
    rw [filter, filter, Store.satisfies, Store.satisfies, satisfies_filter_congr h store part record]
  | .related cardinality path tunnel inner, record => by
    rw [filter, filter, Store.satisfies, Store.satisfies]
    exact congrArg (List.any _) (funext fun row => satisfies_filter_congr h store inner row.record)

theorem satisfies_filters_congr (h : p.Alike q) (store : Store) :
    ∀ (cs : List Condition) (record : Json),
      store.satisfiesAll (filters p cs) record = store.satisfiesAll (filters q cs) record ∧
        store.satisfiesAny (filters p cs) record = store.satisfiesAny (filters q cs) record
  | [], _ => ⟨rfl, rfl⟩
  | c :: rest, record => by
    have hc := satisfies_filter_congr h store c record
    have hrest := satisfies_filters_congr h store rest record
    rw [filters, filters, Store.satisfiesAll, Store.satisfiesAll, Store.satisfiesAny, Store.satisfiesAny, hc, hrest.1,
      hrest.2]
    exact ⟨rfl, rfl⟩

end

end Condition

namespace Filter

/-- Two filters that are written alike, with the same parameters, hold of the same records. -/
theorem satisfies_eq_of_write_eq {f g : Filter} (hf : f.Legible) (hg : g.Legible) (params : Params)
    (htext : (write params f.fragment).1 = (write params g.fragment).1)
    (hparams : (write params f.fragment).2.Alike (write params g.fragment).2) (store : Store) (record : Json) :
    store.satisfies f record = store.satisfies g record := by
  obtain ⟨c, hreads, hmeans⟩ := isRead_of_legible f hf params
  obtain ⟨d, hreads', hmeans'⟩ := isRead_of_legible g hg params
  have hchars : chars params f.fragment = chars params g.fragment := congrArg String.toList htext
  -- one text is read as one condition
  have hcd : c = d := by
    have hc := hreads _ [] (Nat.le_refl _) .nil
    have hd := hreads' _ [] (Nat.le_refl _) .nil
    rw [hchars, hd] at hc
    cases hc
    rfl
  subst hcd
  calc store.satisfies f record
      = store.satisfies (c.filter (write params f.fragment).2) record := (hmeans _ (.refl _) store record).symm
    _ = store.satisfies (c.filter (write params g.fragment).2) record :=
        Condition.satisfies_filter_congr hparams store c record
    _ = store.satisfies g record := hmeans' _ (.refl _) store record

/-- Two comparisons with a zero, of which either sign is the same value; one field is named like a condition. -/
def zeroFilter (connect : List Filter → Filter) (negative : Bool) : Filter :=
  let zero : Json := .number (.float ⟨negative, .zero⟩)
  .not (connect [.or [.scalar .gte "y) OR (⟨x⟩ = $p0" zero, .scalar .contains "levels" zero]])

theorem satisfies_eq_of_write_eq_zero :
    (zeroFilter .and true).Legible ∧ (zeroFilter .or false).Legible ∧
      (write .empty (zeroFilter .and true).fragment).1 = (write .empty (zeroFilter .or false).fragment).1 ∧
      (write .empty (zeroFilter .and true).fragment).2.Alike (write .empty (zeroFilter .or false).fragment).2 ∧
      Store.empty.satisfies (zeroFilter .and true) (.object [("levels", .array [.number (.float .zero)])]) =
        Store.empty.satisfies (zeroFilter .or false) (.object [("levels", .array [.number (.float .zero)])]) := by
  have hand : (zeroFilter .and true).Legible := by simp [zeroFilter, Legible, AllLegible]
  have hor : (zeroFilter .or false).Legible := by simp [zeroFilter, Legible, AllLegible]
  have htext : (write .empty (zeroFilter .and true).fragment).1 =
      (write .empty (zeroFilter .or false).fragment).1 := rfl
  have hparams : (write .empty (zeroFilter .and true).fragment).2.Alike
      (write .empty (zeroFilter .or false).fragment).2 :=
    ⟨.cons ⟨rfl, rfl, rfl⟩ (.cons ⟨rfl, rfl, rfl⟩ .nil), rfl⟩
  exact ⟨hand, hor, htext, hparams, satisfies_eq_of_write_eq hand hor .empty htext hparams _ _⟩

end Filter

end ThingQuery
