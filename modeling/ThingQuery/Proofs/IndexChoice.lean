import Mathlib.Algebra.Order.Field.Basic
import Mathlib.Algebra.Order.Field.Rat
import Mathlib.Data.List.Perm.Subperm
import ThingQuery.Proofs.TidyFixpoint

/-!
# The index that serves a filter

Candidates for an index are compared by scores (`Candidate.score`), and a composite index can be used when every one of
its fields has an equality of its own (`Filter.Covers`).  The parts of a conjunction are led by a lookup of a key;
without one, by the equalities of the longest composite index that can be used, of equally long ones the first that is
declared; without these, by the best candidate (`Filter.ConjunctionLed`).  The parts of a disjunction are led by the best
candidate (`Filter.DisjunctionLed`).  All other parts keep their order, and none is lost (`Filter.exists_led_reorder`).
-/

namespace ThingQuery

/-! ### Scores -/

namespace Candidate

theorem listPenalty_le (n : Nat) : listPenalty n ≤ maxPenalty := by
  unfold listPenalty maxPenalty
  omega

/-- The score of a candidate: two for a key, one for one value, and half as much for every further value, until nothing
is left of it. -/
def score (c : Candidate) : ℚ :=
  if c.penalty = 0 then 2
  else if c.penalty < maxPenalty then (1 / 2) ^ (c.penalty - 1)
  else 0

theorem score_lt_score {a b : Candidate} (hb : b.penalty ≤ maxPenalty) (h : a.penalty < b.penalty) :
    b.score < a.score := by
  have hhalf : (0 : ℚ) < 1 / 2 := one_half_pos
  unfold score
  rw [if_neg (by omega : ¬b.penalty = 0)]
  by_cases ha : a.penalty = 0
  · rw [if_pos ha]
    split
    · calc (1 / 2 : ℚ) ^ (b.penalty - 1) ≤ 1 := pow_le_one₀ hhalf.le one_half_lt_one.le
        _ < 2 := one_lt_two
    · exact two_pos
  · rw [if_neg ha, if_pos (by omega : a.penalty < maxPenalty)]
    split
    · exact pow_lt_pow_right_of_lt_one₀ hhalf one_half_lt_one (by omega)
    · exact pow_pos hhalf _

/-- The first candidate is as good as the second: its score is greater, or it is the same and its column is the lesser
one, or that is the same too and it is a disjunction if the second is. -/
def AsGoodAs (a b : Candidate) : Prop :=
  b.score < a.score ∨ (b.score = a.score ∧
    (a.field < b.field ∨ (a.field = b.field ∧ (b.isDisjunction = true → a.isDisjunction = true))))

theorem asGoodAs_of_not_beats {a b : Candidate} (hb : b.penalty ≤ maxPenalty) (h : b.beats a = false) :
    a.AsGoodAs b := by
  rw [Bool.eq_false_iff, ne_eq, beats_iff] at h
  by_cases hp : a.penalty = b.penalty
  · right
    refine ⟨by rw [score, score, hp], ?_⟩
    by_cases hf : a.field = b.field
    · refine .inr ⟨hf, fun hdisjunction => ?_⟩
      by_contra ha
      exact h (.inr ⟨hp.symm, .inr ⟨hf.symm, hdisjunction, Bool.eq_false_iff.2 ha⟩⟩)
    · left
      refine lt_of_not_lt_of_ne (fun hlt => h (.inr ⟨hp.symm, .inl hlt⟩)) fun he => hf he.symm
  · left
    refine score_lt_score hb ?_
    by_contra hle
    exact h (.inl (by omega))

theorem AsGoodAs.score_le {a b : Candidate} (h : a.AsGoodAs b) : b.score ≤ a.score := by
  rcases h with h | ⟨h, _⟩
  · exact h.le
  · exact h.le

end Candidate

namespace Filter

variable {thing : Thing} {filters : List Filter}

/-- The score of a filter for which there is an index. -/
def score? (thing : Thing) (filter : Filter) : Option ℚ := (filter.candidate? thing).map Candidate.score

/-! ### Lookups of keys -/

/-- The values with which an equality or membership in a list compares the key column. -/
def keyOperands? : Filter → Option (List Json)
  | .scalar .eq left right => if left = idColumn then some [right] else none
  | .list .isIn left right => if left = idColumn then some right else none
  | _ => none

/-- The filter is an equality or membership in a list on the key column. -/
def LooksUpKey (filter : Filter) : Prop := filter.keyOperands?.isSome = true

instance (filter : Filter) : Decidable filter.LooksUpKey := inferInstanceAs (Decidable (_ = true))

/-- A candidate is for a key and has no penalty, or it is not and has one. -/
theorem candidate?_cases {filter : Filter} {c : Candidate} (h : filter.candidate? thing = some c) :
    (filter.LooksUpKey ∧ c.penalty = 0) ∨
      (¬filter.LooksUpKey ∧ 0 < c.penalty ∧ c.penalty ≤ Candidate.maxPenalty) := by
  have hlist : ∀ n, 0 < Candidate.listPenalty n ∧ Candidate.listPenalty n ≤ Candidate.maxPenalty :=
    fun n => ⟨Candidate.listPenalty_pos n, Candidate.listPenalty_le n⟩
  unfold LooksUpKey
  unfold candidate? at h
  split at h
  · split at h
    · rename_i hkey
      cases h
      exact .inl ⟨by simp [keyOperands?, hkey], rfl⟩
    · rename_i hkey
      split at h
      · cases h
        exact .inr ⟨by simp [keyOperands?, hkey], hlist 1⟩
      · cases h
  · split at h
    · rename_i hkey
      cases h
      exact .inl ⟨by simp [keyOperands?, hkey], rfl⟩
    · rename_i hkey
      split at h
      · cases h
        exact .inr ⟨by simp [keyOperands?, hkey], hlist _⟩
      · cases h
  · split at h
    · cases h
      exact .inr ⟨by simp [keyOperands?], hlist _⟩
    · cases h
  · split at h
    · cases h
    · split at h
      · split at h
        · cases h
          exact .inr ⟨by simp [keyOperands?], hlist _⟩
        · cases h
      · cases h
  · cases h

theorem candidate?_of_looksUpKey {filter : Filter} (h : filter.LooksUpKey) (thing : Thing) :
    filter.candidate? thing = some ⟨0, idColumn, false⟩ := by
  unfold LooksUpKey keyOperands? at h
  split at h
  · split at h
    · rename_i hkey
      rw [candidate?, if_pos hkey, hkey]
    · cases h
  · split at h
    · rename_i hkey
      rw [candidate?, if_pos hkey, hkey]
    · cases h
  · cases h

/-! ### Composite indexes -/

/-- Every field of the index, as often as it stands there, has an equality of its own among the filters. -/
def Covers (filters : List Filter) (fields : List String) : Prop :=
  fields.Subperm (filters.filterMap equalityField?)

theorem filterMap_equalityField?_perm {before after : List Filter} {found : Filter} {field : String}
    (h : found.equalityField? = some field) :
    ((before ++ found :: after).filterMap equalityField?).Perm
      (field :: (before ++ after).filterMap equalityField?) := by
  refine (List.perm_middle.filterMap _).trans ?_
  rw [List.filterMap_cons_some h]

/-- The equalities for the fields of an index can be taken out exactly when the filters cover it. -/
theorem isSome_extractEqualities?_iff {fields : List String} :
    (extractEqualities? fields filters).isSome = true ↔ Covers filters fields := by
  induction fields generalizing filters with
  | nil => simp [extractEqualities?, Covers]
  | cons field fields ih =>
    constructor
    · intro h
      obtain ⟨⟨group, rest⟩, hg⟩ := Option.isSome_iff_exists.1 h
      obtain ⟨before, found, after, group', rfl, hf, _, hg'⟩ := exists_of_extractEqualities?_cons hg
      have hcovers : Covers (before ++ after) fields := ih.1 (by rw [hg']; rfl)
      exact ((List.subperm_cons field).2 hcovers).trans (filterMap_equalityField?_perm hf).symm.subperm
    · intro h
      have hmem : field ∈ filters.filterMap equalityField? := h.subset List.mem_cons_self
      obtain ⟨f, hf, hfield⟩ := List.mem_filterMap.1 hmem
      cases he : extract? (fun f => f.equalityField? == some field) filters with
      | none =>
        have := extract?_eq_none_iff.1 he f hf
        simp [hfield] at this
      | some r =>
        obtain ⟨found, others⟩ := r
        obtain ⟨before, after, rfl, rfl, hp, _⟩ := exists_of_extract? he
        have hrest : Covers (before ++ after) fields :=
          (List.subperm_cons field).1 (h.trans (filterMap_equalityField?_perm (eq_of_beq hp)).subperm)
        obtain ⟨⟨group, rest⟩, hg⟩ := Option.isSome_iff_exists.1 (ih.2 hrest)
        simp [extractEqualities?, he, hg]

theorem map_equalityField?_of_extractEqualities? {fields : List String} {group rest : List Filter}
    (h : extractEqualities? fields filters = some (group, rest)) : group.map equalityField? = fields.map some := by
  induction fields generalizing filters group rest with
  | nil =>
    cases h
    rfl
  | cons field fields ih =>
    obtain ⟨before, found, after, group', rfl, hf, rfl, hg⟩ := exists_of_extractEqualities?_cons h
    rw [List.map_cons, List.map_cons, hf, ih hg]

end Filter

/-- The composite indexes in the order of their declaration. -/
def Thing.declaredComposites (thing : Thing) : List (List String) :=
  thing.indexes.filterMap fun index =>
    match index with
    | .composite fields => some fields
    | .single _ => none

/-- What is found first among sorted items comes before all others of its kind, and strictly before those that were in
front of it. -/
theorem exists_of_find?_mergeSort {α : Type} {le : α → α → Bool}
    (htrans : ∀ a b c, le a b = true → le b c = true → le a c = true) (htotal : ∀ a b, (le a b || le b a) = true)
    {p : α → Bool} {items : List α} {a : α} (h : (items.mergeSort le).find? p = some a) :
    ∃ before after, items = before ++ a :: after ∧ (∀ b ∈ before, p b = true → le b a = false) ∧
      ∀ b ∈ after, p b = true → le a b = true := by
  induction items with
  | nil => simp at h
  | cons x items ih =>
    obtain ⟨lower, higher, hsort, hitems, hlower⟩ := List.mergeSort_cons htrans htotal x items
    have hsorted := List.pairwise_mergeSort htrans htotal (x :: items)
    rw [hsort] at h hsorted
    rw [hitems] at ih
    cases hfound : lower.find? p with
    | some b =>
      -- the item that is found stands strictly before `x`
      rw [List.find?_append, hfound] at h
      cases h
      obtain ⟨before, after, rfl, hbefore, hafter⟩ := ih (by rw [List.find?_append, hfound]; rfl)
      have hx : le x a = false := by simpa using hlower a (List.mem_of_find?_eq_some hfound)
      exact ⟨x :: before, after, rfl, List.forall_mem_cons.2 ⟨fun _ => hx, hbefore⟩, hafter⟩
    | none =>
      rw [List.find?_append, hfound, Option.none_or] at h
      by_cases hx : p x = true
      · rw [List.find?_cons_of_pos hx] at h
        cases h
        refine ⟨[], items, rfl, by simp, fun b hb hpb => ?_⟩
        have hmem : b ∈ lower ++ higher := by
          rw [← hitems]
          exact (List.mergeSort_perm items le).mem_iff.2 hb
        rcases List.mem_append.1 hmem with hb' | hb'
        · exact absurd hpb (List.find?_eq_none.1 hfound b hb')
        · exact (List.pairwise_cons.1 (List.pairwise_append.1 hsorted).2.1).1 b hb'
      · rw [List.find?_cons_of_neg hx] at h
        obtain ⟨before, after, rfl, hbefore, hafter⟩ := ih (by rw [List.find?_append, hfound]; exact h)
        exact ⟨x :: before, after, rfl, List.forall_mem_cons.2 ⟨fun hpx => absurd hpx hx, hbefore⟩, hafter⟩

namespace Filter

variable {thing : Thing} {filters : List Filter}

/-- The index is the longest one that the filters cover, and of equally long ones the first that is declared. -/
structure IsFirstCovered (thing : Thing) (filters : List Filter) (fields : List String) : Prop where
  covers : Covers filters fields
  /-- Indexes that are covered are shorter if they are declared earlier and no longer if they are declared later. -/
  first : ∃ earlier later, thing.declaredComposites = earlier ++ fields :: later ∧
    (∀ other ∈ earlier, Covers filters other → other.length < fields.length) ∧
    ∀ other ∈ later, Covers filters other → other.length ≤ fields.length

/-- The equalities of the first composite index that is covered stand in front, if there is one. -/
theorem leadByComposite?_cases (thing : Thing) (filters : List Filter) :
    ((∀ fields ∈ thing.declaredComposites, ¬Covers filters fields) ∧ leadByComposite? thing filters = none) ∨
    ∃ fields group rest, IsFirstCovered thing filters fields ∧ extractEqualities? fields filters = some (group, rest) ∧
      leadByComposite? thing filters = some (group ++ rest) := by
  have hsorted : thing.compositeIndexes =
      thing.declaredComposites.mergeSort fun a b => decide (b.length ≤ a.length) := rfl
  cases hled : leadByComposite? thing filters with
  | none =>
    refine .inl ⟨fun fields hfields hcovers => ?_, rfl⟩
    have hmem : fields ∈ thing.compositeIndexes := by
      rw [hsorted]
      exact (List.mergeSort_perm _ _).mem_iff.2 hfields
    have hnone := Option.map_eq_none_iff.1 (List.findSome?_eq_none_iff.1 hled fields hmem)
    rw [← isSome_extractEqualities?_iff, hnone] at hcovers
    cases hcovers
  | some led =>
    obtain ⟨longer, fields, shorter, hsplit, hchosen, hlonger⟩ := List.findSome?_eq_some_iff.1 hled
    obtain ⟨⟨group, rest⟩, hg, rfl⟩ := Option.map_eq_some_iff.1 hchosen
    have hfind : (thing.declaredComposites.mergeSort fun a b => decide (b.length ≤ a.length)).find?
        (fun fields => (extractEqualities? fields filters).isSome) = some fields := by
      rw [← hsorted]
      refine List.find?_eq_some_iff_append.2 ⟨by rw [hg]; rfl, longer, shorter, hsplit, fun other hother => ?_⟩
      rw [Option.map_eq_none_iff.1 (hlonger other hother)]
      rfl
    obtain ⟨earlier, later, hdeclared, hearlier, hlater⟩ := exists_of_find?_mergeSort
      (fun a b c hab hbc => by simp only [decide_eq_true_eq] at hab hbc ⊢; omega)
      (fun a b => by simp only [Bool.or_eq_true, decide_eq_true_eq]; omega) hfind
    refine .inr ⟨fields, group, rest, ⟨isSome_extractEqualities?_iff.1 (by rw [hg]; rfl), earlier, later, hdeclared,
      fun other hother hcovers => ?_, fun other hother hcovers => ?_⟩, hg, rfl⟩
    · simpa using hearlier other hother (isSome_extractEqualities?_iff.2 hcovers)
    · simpa using hlater other hother (isSome_extractEqualities?_iff.2 hcovers)

/-! ### The best candidate -/

/-- The filter has a candidate that is as good as those of all filters. -/
def HasBest (thing : Thing) (filters : List Filter) (found : Filter) : Prop :=
  ∃ best, found.candidate? thing = some best ∧
    ∀ g ∈ filters, ∀ c, g.candidate? thing = some c → best.AsGoodAs c

theorem penalty_le_of_candidate? {filter : Filter} {c : Candidate} (h : filter.candidate? thing = some c) :
    c.penalty ≤ Candidate.maxPenalty := by
  rcases candidate?_cases h with ⟨_, hzero⟩ | ⟨_, _, hle⟩
  · omega
  · exact hle

theorem IsBest.hasBest {before after : List Filter} {found : Filter} {best : Candidate}
    (h : IsBest thing before found after best) : HasBest thing (before ++ found :: after) found := by
  refine ⟨best, h.candidate, fun g hg c hc => ?_⟩
  exact Candidate.asGoodAs_of_not_beats (penalty_le_of_candidate? hc) (h.unbeaten g hg c hc)

theorem exists_isBest_of_candidate? {f : Filter} {c : Candidate} (hf : f ∈ filters)
    (hc : f.candidate? thing = some c) :
    ∃ before found after best, filters = before ++ found :: after ∧ IsBest thing before found after best := by
  cases hbest : extractBest? thing filters with
  | none =>
    rw [extractBest?_eq_none_iff.1 hbest f hf] at hc
    cases hc
  | some r =>
    obtain ⟨best, found, rest⟩ := r
    obtain ⟨before, after, hsplit, _, hb⟩ := exists_of_extractBest? hbest
    exact ⟨before, found, after, best, hsplit, hb⟩

/-- The best candidate is also the best one in front of all others. -/
theorem IsBest.front {before after : List Filter} {found : Filter} {best : Candidate}
    (h : IsBest thing before found after best) : IsBest thing [] found (before ++ after) best := by
  refine ⟨h.candidate, by simp, fun g hg => h.unbeaten g ?_⟩
  exact List.perm_middle.mem_iff.2 hg

/-- What stands in front for a filter: an equality for every value of a list that is not one of keys, and otherwise the
filter itself. -/
inductive Spreads : Filter → List Filter → Prop where
  /-- Each value of the list has an equality. -/
  | values {left : String} {values : List Json} (hleft : left ≠ idColumn) :
    Spreads (.list .isIn left values) (equalities left values)
  | itself {filter : Filter} (h : ∀ left values, filter = .list .isIn left values → left = idColumn) :
    Spreads filter [filter]

theorem spreads_spread (filter : Filter) : Spreads filter filter.spread := by
  unfold spread
  split
  · rename_i left values
    split
    · rename_i hleft
      refine .itself fun left' values' h => ?_
      cases h
      exact hleft
    · rename_i hleft
      exact .values hleft
  · rename_i hother
    exact .itself fun left values h => absurd h (hother left values)

theorem spreadOr_eq_any_spread {filter : Filter} (h : filter.IsProper) : filter.spreadOr = any filter.spread := by
  rcases spread_cases filter with ⟨hor, hspread⟩ | ⟨left, values, rfl, _, hor, hspread⟩
  · rw [hor, hspread, any]
  · cases h with
    | list hlen => rw [hor, hspread, any_of_two_le (by rw [length_equalities]; exact hlen)]

/-- A list that is spread keeps its score. -/
theorem score?_spreadOr {filter : Filter} {c : Candidate} (h : filter.IsProper)
    (hc : filter.candidate? thing = some c) : filter.spreadOr.score? thing = filter.score? thing := by
  rcases spread_cases filter with ⟨hor, _⟩ | ⟨left, values, rfl, hleft, hor, _⟩
  · rw [hor]
  · obtain ⟨hindexed, rfl⟩ := candidate?_isIn hleft hc
    cases h with
    | list hlen =>
      rw [hor, score?, score?, candidate?_or_equalities hleft hindexed hlen, hc]
      rfl

/-! ### What leads a conjunction -/

theorem spreadOr_of_looksUpKey {filter : Filter} (h : filter.LooksUpKey) : filter.spreadOr = filter := by
  rcases spread_cases filter with ⟨hor, _⟩ | ⟨left, values, rfl, hleft, _, _⟩
  · exact hor
  · unfold LooksUpKey at h
    rw [keyOperands?, if_neg hleft] at h
    cases h

/-- The first lookup of a key leads. -/
theorem leadConjuncts_of_looksUpKey {f : Filter} (hf : f ∈ filters) (hkey : f.LooksUpKey) :
    ∃ before found after, filters = before ++ found :: after ∧ found.LooksUpKey ∧ (∀ g ∈ before, ¬g.LooksUpKey) ∧
      leadConjuncts thing filters = found :: (before ++ after) := by
  have hc := candidate?_of_looksUpKey hkey thing
  obtain ⟨before, found, after, best, rfl, hbest⟩ := exists_isBest_of_candidate? hf hc
  rcases candidate?_cases hbest.candidate with ⟨hfound, hzero⟩ | ⟨_, hpos, _⟩
  · refine ⟨before, found, after, rfl, hfound, fun g hg hgkey => ?_, ?_⟩
    · refine hbest.first g hg ?_
      rw [candidate?_of_looksUpKey hgkey, ← hbest.candidate, candidate?_of_looksUpKey hfound]
    · rw [hbest.leadConjuncts_eq (.inl hzero), spreadOr_of_looksUpKey hfound]
  · -- a key would beat the best candidate
    have hunbeaten := hbest.unbeaten f hf _ hc
    rw [Bool.eq_false_iff, ne_eq, Candidate.beats_iff] at hunbeaten
    exact absurd (.inl hpos) hunbeaten

theorem penalty_ne_zero_of_not_looksUpKey (h : ∀ f ∈ filters, ¬f.LooksUpKey) :
    ∀ f ∈ filters, ∀ c, f.candidate? thing = some c → c.penalty ≠ 0 := by
  intro f hf c hc
  rcases candidate?_cases hc with ⟨hkey, _⟩ | ⟨_, hpos, _⟩
  · exact absurd hkey (h f hf)
  · omega

/-- Without a lookup of a key, the equalities of the first composite index that is covered lead. -/
theorem leadConjuncts_of_covers {fields : List String} (hkey : ∀ f ∈ filters, ¬f.LooksUpKey)
    (hfields : fields ∈ thing.declaredComposites) (hcovers : Covers filters fields) :
    ∃ first group rest, IsFirstCovered thing filters first ∧ group.map equalityField? = first.map some ∧
      leadConjuncts thing filters = group ++ rest ∧ filters.Perm (group ++ rest) ∧ rest.Sublist filters := by
  rcases leadByComposite?_cases thing filters with ⟨hnone, _⟩ | ⟨first, group, rest, hfirst, hg, hled⟩
  · exact absurd hcovers (hnone fields hfields)
  · refine ⟨first, group, rest, hfirst, map_equalityField?_of_extractEqualities? hg, ?_,
      perm_of_extractEqualities? hg, sublist_of_extractEqualities? hg⟩
    exact leadConjuncts_of_leadByComposite? (penalty_ne_zero_of_not_looksUpKey hkey) hled

theorem leadByComposite?_eq_none (h : ∀ fields ∈ thing.declaredComposites, ¬Covers filters fields) :
    leadByComposite? thing filters = none := by
  rcases leadByComposite?_cases thing filters with ⟨_, hnone⟩ | ⟨fields, _, _, hfirst, _, _⟩
  · exact hnone
  · obtain ⟨earlier, later, hdeclared, _⟩ := hfirst.first
    exact absurd hfirst.covers (h fields (by rw [hdeclared]; simp))

theorem leadConjuncts_of_candidate?_eq_none (hcovers : ∀ fields ∈ thing.declaredComposites, ¬Covers filters fields)
    (hnone : ∀ f ∈ filters, f.candidate? thing = none) : leadConjuncts thing filters = filters := by
  simp [leadConjuncts, extractBest?_eq_none_iff.2 hnone, leadByComposite?_eq_none hcovers]

/-- How the parts of a conjunction are led. -/
structure ConjunctionLed (thing : Thing) (children led : List Filter) : Prop where
  /-- A lookup of a key comes first, if there is one. -/
  byKey : (∃ f ∈ children, f.LooksUpKey) → ∃ before found after, children = before ++ found :: after ∧
    found.LooksUpKey ∧ (∀ g ∈ before, ¬g.LooksUpKey) ∧ led = found :: (before ++ after)
  /-- Otherwise the equalities of the first composite index that is covered come first, in the order of its fields. -/
  byIndex : (∀ f ∈ children, ¬f.LooksUpKey) → (∃ fields ∈ thing.declaredComposites, Covers children fields) →
    ∃ fields group rest, IsFirstCovered thing children fields ∧ group.map equalityField? = fields.map some ∧
      led = group ++ rest ∧ children.Perm (group ++ rest) ∧ rest.Sublist children
  /-- Otherwise the part with the best candidate comes first. -/
  byScore : (∀ f ∈ children, ¬f.LooksUpKey) → (∀ fields ∈ thing.declaredComposites, ¬Covers children fields) →
    (∃ f ∈ children, (f.score? thing).isSome = true) →
    ∃ before found after parts, children = before ++ found :: after ∧ HasBest thing children found ∧
      Spreads found parts ∧ (any parts).score? thing = found.score? thing ∧ led = any parts :: (before ++ after)
  /-- Without any candidate all parts stay where they are. -/
  unled : (∀ f ∈ children, ¬f.LooksUpKey) → (∀ fields ∈ thing.declaredComposites, ¬Covers children fields) →
    (∀ f ∈ children, f.score? thing = none) → led = children

theorem conjunctionLed_leadConjuncts (thing : Thing) (hproper : ∀ f ∈ filters, f.IsProper) :
    ConjunctionLed thing filters (leadConjuncts thing filters) where
  byKey := fun ⟨_, hf, hkey⟩ => leadConjuncts_of_looksUpKey hf hkey
  byIndex := fun hkey ⟨_, hfields, hcovers⟩ => leadConjuncts_of_covers hkey hfields hcovers
  byScore := by
    rintro - hcovers ⟨f, hf, hscore⟩
    obtain ⟨c, hc⟩ := Option.isSome_iff_exists.1 (Option.isSome_map.symm.trans hscore)
    obtain ⟨before, found, after, best, rfl, hbest⟩ := exists_isBest_of_candidate? hf hc
    have hfound := hproper found (by simp)
    refine ⟨before, found, after, found.spread, rfl, hbest.hasBest, spreads_spread found, ?_, ?_⟩
    · rw [← spreadOr_eq_any_spread hfound, score?_spreadOr hfound hbest.candidate]
    · rw [← spreadOr_eq_any_spread hfound, hbest.leadConjuncts_eq (.inr (leadByComposite?_eq_none hcovers))]
  unled := by
    intro _ hcovers hnone
    exact leadConjuncts_of_candidate?_eq_none hcovers fun f hf => Option.map_eq_none_iff.1 (hnone f hf)

/-! ### What leads a disjunction -/

/-- How the parts of a disjunction are led. -/
structure DisjunctionLed (thing : Thing) (children led : List Filter) : Prop where
  /-- The part with the best candidate comes first, or the equalities that stand for it. -/
  byScore : (∃ f ∈ children, (f.score? thing).isSome = true) →
    ∃ before found after parts, children = before ++ found :: after ∧ HasBest thing children found ∧
      Spreads found parts ∧ led = parts ++ (before ++ after)
  /-- The first part has the greatest score. -/
  greatest : (∃ f ∈ children, (f.score? thing).isSome = true) →
    ∃ head rest s, led = head :: rest ∧ head.score? thing = some s ∧
      ∀ g ∈ led, ∀ t, g.score? thing = some t → t ≤ s
  /-- Without any candidate all parts stay where they are. -/
  unled : (∀ f ∈ children, f.score? thing = none) → led = children

theorem IsBest.score?_le {found : Filter} {rest : List Filter} {best : Candidate}
    (h : IsBest thing [] found rest best) :
    found.score? thing = some best.score ∧ ∀ g ∈ found :: rest, ∀ t, g.score? thing = some t → t ≤ best.score := by
  refine ⟨by rw [score?, h.candidate]; rfl, fun g hg t ht => ?_⟩
  obtain ⟨c, hc, rfl⟩ := Option.map_eq_some_iff.1 ht
  exact (Candidate.asGoodAs_of_not_beats (penalty_le_of_candidate? hc) (h.unbeaten g hg c hc)).score_le

/-- What stands in front of the others has the best candidate among them. -/
theorem IsBest.exists_spread {before after : List Filter} {found : Filter} {best : Candidate}
    (h : IsBest thing before found after best) (hproper : found.IsProper) :
    ∃ head rest better, found.spread ++ (before ++ after) = head :: rest ∧ IsBest thing [] head rest better := by
  rcases spread_cases found with ⟨_, hspread⟩ | ⟨left, values, rfl, hleft, _, hspread⟩
  · exact ⟨found, before ++ after, best, by rw [hspread]; rfl, h.front⟩
  · cases hproper with
    | list hlen =>
      cases values with
      | nil => simp at hlen
      | cons v values => exact ⟨_, _, _, by rw [hspread]; rfl, h.equality hleft hlen⟩

theorem disjunctionLed_leadDisjuncts (thing : Thing) (hproper : ∀ f ∈ filters, f.IsProper) :
    DisjunctionLed thing filters (leadDisjuncts thing filters) where
  byScore := by
    rintro ⟨f, hf, hscore⟩
    obtain ⟨c, hc⟩ := Option.isSome_iff_exists.1 (Option.isSome_map.symm.trans hscore)
    obtain ⟨before, found, after, best, rfl, hbest⟩ := exists_isBest_of_candidate? hf hc
    exact ⟨before, found, after, found.spread, rfl, hbest.hasBest, spreads_spread found, hbest.leadDisjuncts_eq⟩
  greatest := by
    rintro ⟨f, hf, hscore⟩
    obtain ⟨c, hc⟩ := Option.isSome_iff_exists.1 (Option.isSome_map.symm.trans hscore)
    obtain ⟨before, found, after, best, rfl, hbest⟩ := exists_isBest_of_candidate? hf hc
    obtain ⟨head, rest, better, hled, hbetter⟩ := hbest.exists_spread (hproper found (by simp))
    rw [hbest.leadDisjuncts_eq, hled]
    exact ⟨head, rest, better.score, rfl, hbetter.score?_le⟩
  unled := by
    intro hnone
    have hbest : extractBest? thing filters = none :=
      extractBest?_eq_none_iff.2 fun f hf => Option.map_eq_none_iff.1 (hnone f hf)
    simp [leadDisjuncts, hbest]

/-- People are found by their mail address, and by name and town together. -/
def personThing : Thing where
  name := "Person"
  kind := .entity
  idFields := ["id"]
  indexes := [.single "email", .composite ["name", "town"]]
  fields := [.key "id", .text "email" .one, .text "name" .one, .text "town" .one]

/-- The people of a name in a town with one of two mail addresses. -/
def personFilters : List Filter :=
  [.scalar .eq "town" (.string "Graz"), .scalar .eq "name" (.string "Ada"),
    .list .isIn "email" [.string "ada@a.at", .string "ada@b.at"]]

theorem isProper_personFilters :
    (Filter.and personFilters).IsProper ∧ (Filter.or personFilters).IsProper := by
  have hproper : ∀ f ∈ personFilters, f.IsProper := by
    refine List.forall_mem_cons.2 ⟨.scalar, List.forall_mem_cons.2 ⟨.scalar, List.forall_mem_singleton.2 ?_⟩⟩
    exact .list (by decide)
  have hsorted : Ranking.byCost.Sorted personFilters := by
    refine List.pairwise_cons.2 ⟨?_, List.pairwise_pair.2 (by decide +kernel)⟩
    exact List.forall_mem_cons.2 ⟨by decide +kernel, List.forall_mem_singleton.2 (by decide +kernel)⟩
  exact ⟨.and (by decide) hproper (by decide) hsorted, .or (by decide) hproper (by decide) hsorted⟩

end Filter

end ThingQuery
