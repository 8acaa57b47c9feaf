import ThingQuery.Plan.Access
import ThingQuery.Proofs.Leading
import ThingQuery.Proofs.NormalForm
import ThingQuery.Proofs.SoundSchema

/-!
# Tidy filters stay as they are

A tidy filter is in normal form but for its leading predicate, which stands in front however it ranks.  When it is
tidied again, its parts are sorted and led again, and the same predicate is found (`Ranking.leadConjuncts_sort`,
`Ranking.leadDisjuncts_sort`): the best candidate is still the best one, and membership in a list has become a
disjunction of equalities, which is an even better candidate.  So tidying twice is tidying once, for every ranking in
which nothing proper comes before an equality (`Ranking.PrefersEqualities.tidy?_of_tidy?`), and in particular by cost
(`Filter.tidy?_eq_some_of_tidy?`).
-/

namespace ThingQuery

namespace Filter

variable {thing : Thing}

/-! ### Membership in a list as equalities -/

/-- The equalities of a column with each of the values. -/
def equalities (left : String) (values : List Json) : List Filter := values.map (.scalar .eq left)

theorem mem_equalities_iff {left : String} {values : List Json} {f : Filter} :
    f ∈ equalities left values ↔ ∃ v ∈ values, .scalar .eq left v = f := List.mem_map

theorem length_equalities (left : String) (values : List Json) : (equalities left values).length = values.length :=
  List.length_map _

theorem commonField?_equalities {left : String} {values : List Json} (h : values ≠ []) :
    commonField? (equalities left values) = some left := by
  cases values with
  | nil => exact absurd rfl h
  | cons v rest => simp [equalities, commonField?, equalityField?]

/-- What membership in a list is replaced by, if the filter is one, and that other filters stand for themselves. -/
theorem spread_cases (filter : Filter) :
    (filter.spreadOr = filter ∧ filter.spread = [filter]) ∨
    ∃ left values, filter = .list .isIn left values ∧ left ≠ idColumn ∧
      filter.spreadOr = .or (equalities left values) ∧ filter.spread = equalities left values := by
  unfold spreadOr spread
  split
  · rename_i left values
    split
    · exact .inl ⟨rfl, rfl⟩
    · rename_i hleft
      exact .inr ⟨left, values, rfl, hleft, rfl, rfl⟩
  · exact .inl ⟨rfl, rfl⟩

theorem spreadOr_spreadOr (filter : Filter) : filter.spreadOr.spreadOr = filter.spreadOr := by
  rcases spread_cases filter with ⟨h, _⟩ | ⟨_, _, _, _, h, _⟩
  · rw [h, h]
  · rw [h]
    rfl

theorem isSome_equalityField?_equalities (left : String) (values : List Json) :
    ∀ f ∈ equalities left values, f.equalityField?.isSome = true := by
  intro f hf
  obtain ⟨v, _, rfl⟩ := mem_equalities_iff.1 hf
  rfl

/-! ### The best candidate is found again -/

theorem candidate?_isIn {left : String} {values : List Json} {best : Candidate} (hleft : left ≠ idColumn)
    (h : (Filter.list .isIn left values).candidate? thing = some best) :
    thing.isIndexed left = true ∧ best = ⟨Candidate.listPenalty values.length, left, false⟩ := by
  rw [candidate?, if_neg hleft] at h
  split at h
  · rename_i hindexed
    cases h
    exact ⟨hindexed, rfl⟩
  · cases h

theorem candidate?_or_equalities {left : String} {values : List Json} (hleft : left ≠ idColumn)
    (hindexed : thing.isIndexed left = true) (hlen : 2 ≤ values.length) :
    (Filter.or (equalities left values)).candidate? thing =
      some ⟨Candidate.listPenalty values.length, left, true⟩ := by
  have hne : values ≠ [] := by
    rintro rfl
    simp at hlen
  rw [candidate?, if_neg (by rw [length_equalities]; omega), commonField?_equalities hne, length_equalities]
  simp [hleft, hindexed]

theorem candidate?_equality {left : String} {v : Json} (hleft : left ≠ idColumn)
    (hindexed : thing.isIndexed left = true) :
    (Filter.scalar .eq left v).candidate? thing = some ⟨1, left, false⟩ := by
  simp [candidate?, hleft, hindexed]

/-- A better candidate in place of the best one is the best one wherever it stands. -/
theorem IsBest.of_beats {before after before' after' : List Filter} {found front : Filter} {best better : Candidate}
    (h : IsBest thing before found after best) (hsplit : before ++ after = before' ++ after')
    (hfront : front.candidate? thing = some better) (hbeats : better.beats best = true) :
    IsBest thing before' front after' better := by
  have hrest : ∀ g ∈ before' ++ after', ∀ c, g.candidate? thing = some c → c.beats best = false := by
    intro g hg c hc
    rw [← hsplit, List.mem_append] at hg
    exact h.unbeaten g (List.mem_append.2 (hg.imp_right (List.mem_cons_of_mem _))) c hc
  refine ⟨hfront, fun g hg hc => ?_, fun g hg c hc => ?_⟩
  · rw [hrest g (List.mem_append_left _ hg) better hc] at hbeats
    cases hbeats
  · rw [List.mem_append, List.mem_cons, or_left_comm, ← List.mem_append] at hg
    rcases hg with rfl | hg
    · cases hfront.symm.trans hc
      exact Candidate.beats_irrefl _
    · exact Candidate.not_beats_of_beats (hrest g hg c hc) hbeats

/-- The best candidate is still the best one when it goes behind the filters that rank lower. -/
theorem IsBest.of_lower {ranking : Ranking} {before after lower rest : List Filter} {found : Filter} {best : Candidate}
    (h : IsBest thing before found after best) (hsorted : ranking.Sorted (before ++ found :: after))
    (hsplit : before ++ after = lower ++ rest) (hlower : ∀ g ∈ lower, ranking.atMost found g = false) :
    IsBest thing lower found rest best := by
  have hmem : ∀ g, g ∈ lower ++ rest ↔ g ∈ before ∨ g ∈ after := fun g => by rw [← hsplit, List.mem_append]
  refine ⟨h.candidate, fun g hg => ?_, fun g hg => h.unbeaten g ?_⟩
  · rcases (hmem g).1 (List.mem_append_left _ hg) with hg' | hg'
    · exact h.first g hg'
    · -- filters behind the best candidate do not rank lower
      have := (List.pairwise_cons.1 (List.pairwise_append.1 hsorted).2.1).1 g hg'
      rw [hlower g hg] at this
      cases this
  · rw [List.mem_append, List.mem_cons, or_left_comm, ← List.mem_append, hmem] at hg
    rw [List.mem_append, List.mem_cons, or_left_comm]
    exact hg

/-- The leading predicate of a conjunction is found again when the parts have been sorted. -/
theorem IsBest.spreadOr {ranking : Ranking} {before after lower rest : List Filter} {found : Filter} {best : Candidate}
    (h : IsBest thing before found after best) (hproper : ranking.IsProper found)
    (hsorted : ranking.Sorted (before ++ found :: after)) (hsplit : before ++ after = lower ++ rest)
    (hlower : ∀ g ∈ lower, ranking.atMost found.spreadOr g = false) :
    ∃ better : Candidate, better.penalty = best.penalty ∧ IsBest thing lower found.spreadOr rest better := by
  rcases spread_cases found with ⟨hspread, _⟩ | ⟨left, values, rfl, hleft, hspread, _⟩
  · rw [hspread] at hlower ⊢
    exact ⟨best, rfl, h.of_lower hsorted hsplit hlower⟩
  · rw [hspread]
    cases hproper with
    | list hlen =>
      obtain ⟨hindexed, rfl⟩ := candidate?_isIn hleft h.candidate
      have hbest := h.of_beats hsplit (candidate?_or_equalities hleft hindexed hlen) (by simp [Candidate.beats])
      refine ⟨_, ?_, hbest⟩
      rfl

/-- The first of the equalities that take the place of a list is the best candidate of a disjunction. -/
theorem IsBest.equality {before after : List Filter} {left : String} {v : Json} {values : List Json} {best : Candidate}
    (h : IsBest thing before (.list .isIn left (v :: values)) after best) (hleft : left ≠ idColumn)
    (hlen : 2 ≤ (v :: values).length) :
    IsBest thing [] (.scalar .eq left v) (equalities left values ++ (before ++ after)) ⟨1, left, false⟩ := by
  obtain ⟨hindexed, rfl⟩ := candidate?_isIn hleft h.candidate
  have hbeats : (⟨1, left, false⟩ : Candidate).beats ⟨Candidate.listPenalty (v :: values).length, left, false⟩ = true :=
    Candidate.beats_iff.2 (.inl (Candidate.two_le_listPenalty hlen))
  refine ⟨candidate?_equality hleft hindexed, by simp, fun g hg c hc => ?_⟩
  have hg : g ∈ equalities left (v :: values) ∨ g ∈ before ++ after := List.mem_append.1 hg
  rcases hg with hg | hg
  · obtain ⟨w, _, rfl⟩ := mem_equalities_iff.1 hg
    cases (candidate?_equality hleft hindexed).symm.trans hc
    exact Candidate.beats_irrefl _
  · rw [List.mem_append] at hg
    have hunbeaten := h.unbeaten g (List.mem_append.2 (hg.imp_right (List.mem_cons_of_mem _))) c hc
    exact Candidate.not_beats_of_beats hunbeaten hbeats

theorem equalityField?_spreadOr (filter : Filter) : filter.spreadOr.equalityField? = filter.equalityField? := by
  rcases spread_cases filter with ⟨h, _⟩ | ⟨left, values, rfl, _, h, _⟩
  · rw [h]
  · rw [h]
    rfl

theorem isTruthy_and_of_two_le {children : List Filter} (h : 2 ≤ children.length) :
    (Filter.and children).isTruthy = false := by
  cases children with
  | nil => simp at h
  | cons => rfl

theorem reorder_of_not_connective (thing : Thing) {filter : Filter} (hand : filter.isAnd = false)
    (hor : filter.isOr = false) : filter.reorder thing = filter := by
  unfold reorder
  split
  · cases hand
  · cases hor
  · rfl

end Filter

/-! ### Equalities come first -/

namespace Ranking

open ThingQuery.Filter (equalities)

variable {ranking : Ranking} {thing : Thing} {filters : List Filter}

/-- No proper filter ranks lower than an equality. -/
def PrefersEqualities (ranking : Ranking) : Prop :=
  ∀ f g, f.equalityField?.isSome = true → ranking.IsProper g → ranking.atMost f g = true

theorem isProper_equalities (left : String) (values : List Json) :
    ∀ f ∈ equalities left values, ranking.IsProper f := by
  intro f hf
  obtain ⟨v, _, rfl⟩ := Filter.mem_equalities_iff.1 hf
  exact .scalar

/-- Equalities may stand in front of proper filters in order. -/
theorem PrefersEqualities.sorted_append (h : ranking.PrefersEqualities) {front rest : List Filter}
    (hfront : ∀ f ∈ front, f.equalityField?.isSome = true) (hproper : ∀ f ∈ front ++ rest, ranking.IsProper f)
    (hrest : ranking.Sorted rest) : ranking.Sorted (front ++ rest) := by
  rw [List.forall_mem_append] at hproper
  refine List.pairwise_append.2 ⟨?_, hrest, fun f hf g hg => h f g (hfront f hf) (hproper.2 g hg)⟩
  exact List.pairwise_of_forall_mem_list fun f hf g hg => h f g (hfront f hf) (hproper.1 g hg)

theorem PrefersEqualities.isProper_or (h : ranking.PrefersEqualities) {left : String} {values : List Json}
    (hlen : 2 ≤ values.length) : ranking.IsProper (.or (equalities left values)) := by
  have hsorted : ranking.Sorted (equalities left values ++ []) := h.sorted_append
    (Filter.isSome_equalityField?_equalities left values) (by simpa using isProper_equalities left values)
    List.Pairwise.nil
  rw [List.append_nil] at hsorted
  refine .or (by rw [Filter.length_equalities]; exact hlen) (isProper_equalities left values) (fun f hf => ?_) hsorted
  obtain ⟨v, _, rfl⟩ := Filter.mem_equalities_iff.1 hf
  rfl

/-- The equalities of a composite index rank lowest, so that they are in order in front. -/
theorem PrefersEqualities.sorted_of_leadByComposite? (h : ranking.PrefersEqualities) {led : List Filter}
    (hproper : ∀ f ∈ filters, ranking.IsProper f) (hsorted : ranking.Sorted filters)
    (hled : Filter.leadByComposite? thing filters = some led) : ranking.Sorted led := by
  obtain ⟨fields, group, rest, hg, rfl, _⟩ := Filter.exists_of_leadByComposite? hled
  refine h.sorted_append (Filter.isSome_equalityField?_of_extractEqualities? hg) (fun f hf => ?_)
    (hsorted.sublist (Filter.sublist_of_extractEqualities? hg))
  exact hproper f ((Filter.perm_of_extractEqualities? hg).mem_iff.2 hf)

/-! ### The leading parts are found again -/

/-- Sorting the parts of a conjunction that are led gives way to the same leading parts. -/
theorem leadConjuncts_sort (h : ranking.PrefersEqualities) (hproper : ∀ f ∈ filters, ranking.IsProper f)
    (hsorted : ranking.Sorted filters) :
    Filter.leadConjuncts thing (ranking.sort (Filter.leadConjuncts thing filters)) =
      Filter.leadConjuncts thing filters := by
  rcases Filter.leadConjuncts_cases thing filters with
    ⟨before, found, after, best, rfl, hbest, hcomposite, hled⟩ | ⟨hkey, hled⟩ | ⟨_, _, hled⟩
  · have hrest : ranking.Sorted (before ++ after) :=
      hsorted.sublist ((List.Sublist.refl before).append (List.sublist_cons_self found after))
    obtain ⟨lower, rest, hsort, hsplit, hlower⟩ := sort_cons (f := found.spreadOr) hrest
    -- the leading part goes behind those that rank lower and is found there again
    obtain ⟨better, hpenalty, hbest'⟩ := hbest.spreadOr (hproper found (by simp)) hsorted hsplit hlower
    have hcomposite' : better.penalty = 0 ∨
        Filter.leadByComposite? thing (lower ++ found.spreadOr :: rest) = none := by
      refine hcomposite.imp (fun h => hpenalty.trans h) (Filter.leadByComposite?_eq_none_of_perm ?_)
      have hperm : (before ++ found :: after).Perm (found :: (lower ++ rest)) := hsplit ▸ List.perm_middle
      refine (hperm.map _).trans ?_
      rw [List.map_cons, ← Filter.equalityField?_spreadOr, ← List.map_cons]
      exact List.perm_middle.symm.map _
    rw [hled, hsort, hbest'.leadConjuncts_eq hcomposite', Filter.spreadOr_spreadOr, hsplit]
  · -- the equalities in front are in order, and cover the same index
    obtain ⟨_, _, _, hg, he, hagain⟩ := Filter.exists_of_leadByComposite? hled
    have hperm : filters.Perm (Filter.leadConjuncts thing filters) := he ▸ Filter.perm_of_extractEqualities? hg
    have hled' := h.sorted_of_leadByComposite? hproper hsorted hled
    rw [sort_of_sorted hled']
    exact Filter.leadConjuncts_of_leadByComposite? (fun f hf => hkey f (hperm.mem_iff.2 hf)) hagain
  · rw [hled, sort_of_sorted hsorted, hled]

theorem leadDisjuncts_sort (h : ranking.PrefersEqualities) (hproper : ∀ f ∈ filters, ranking.IsProper f)
    (hsorted : ranking.Sorted filters) :
    Filter.leadDisjuncts thing (ranking.sort (Filter.leadDisjuncts thing filters)) =
      Filter.leadDisjuncts thing filters := by
  rcases Filter.leadDisjuncts_cases thing filters with ⟨before, found, after, best, rfl, hbest, hled⟩ | hled
  · have hrest : ranking.Sorted (before ++ after) :=
      hsorted.sublist ((List.Sublist.refl before).append (List.sublist_cons_self found after))
    rw [List.forall_mem_append, List.forall_mem_cons] at hproper
    rcases Filter.spread_cases found with ⟨_, hspread⟩ | ⟨left, values, rfl, hleft, _, hspread⟩
    · obtain ⟨lower, rest, hsort, hsplit, hlower⟩ := sort_cons (f := found) hrest
      rw [hled, hspread, List.singleton_append, hsort,
        (hbest.of_lower hsorted hsplit hlower).leadDisjuncts_eq, hspread, hsplit, List.singleton_append]
    · have hled' : ranking.Sorted (equalities left values ++ (before ++ after)) := by
        refine h.sorted_append (Filter.isSome_equalityField?_equalities left values) ?_ hrest
        exact List.forall_mem_append.2 ⟨isProper_equalities left values,
          List.forall_mem_append.2 ⟨hproper.1, hproper.2.2⟩⟩
      rw [hled, hspread, sort_of_sorted hled']
      cases hproper.2.1 with
      | list hlen =>
        cases values with
        | nil => simp at hlen
        | cons v values => exact (hbest.equality hleft hlen).leadDisjuncts_eq
  · rw [hled, sort_of_sorted hsorted, hled]

/-! ### Led parts are proper -/

theorem PrefersEqualities.isProper_spreadOr (h : ranking.PrefersEqualities) {filter : Filter}
    (hproper : ranking.IsProper filter) (hflat : filter.isAnd = false) :
    ranking.IsProper filter.spreadOr ∧ filter.spreadOr.isAnd = false := by
  rcases Filter.spread_cases filter with ⟨hspread, _⟩ | ⟨left, values, rfl, _, hspread, _⟩
  · rw [hspread]
    exact ⟨hproper, hflat⟩
  · rw [hspread]
    cases hproper with
    | list hlen => exact ⟨h.isProper_or hlen, rfl⟩

theorem PrefersEqualities.isProper_leadConjuncts (h : ranking.PrefersEqualities) (thing : Thing)
    (hproper : ∀ f ∈ filters, ranking.IsProper f ∧ f.isAnd = false) :
    (∀ f ∈ Filter.leadConjuncts thing filters, ranking.IsProper f ∧ f.isAnd = false) ∧
      (Filter.leadConjuncts thing filters).length = filters.length := by
  rcases Filter.leadConjuncts_cases thing filters with
    ⟨before, found, after, _, rfl, _, _, hled⟩ | ⟨_, hled⟩ | ⟨_, _, hled⟩
  · rw [List.forall_mem_append, List.forall_mem_cons] at hproper
    rw [hled, List.forall_mem_cons, List.forall_mem_append]
    refine ⟨⟨h.isProper_spreadOr hproper.2.1.1 hproper.2.1.2, hproper.1, hproper.2.2⟩, ?_⟩
    simp only [List.length_cons, List.length_append]
    omega
  · obtain ⟨_, group, rest, hg, he, _⟩ := Filter.exists_of_leadByComposite? hled
    have hperm := Filter.perm_of_extractEqualities? hg
    rw [he]
    exact ⟨fun f hf => hproper f (hperm.mem_iff.2 hf), hperm.length_eq.symm⟩
  · rw [hled]
    exact ⟨hproper, rfl⟩

theorem isProper_leadDisjuncts (thing : Thing) (hproper : ∀ f ∈ filters, ranking.IsProper f ∧ f.isOr = false) :
    (∀ f ∈ Filter.leadDisjuncts thing filters, ranking.IsProper f ∧ f.isOr = false) ∧
      filters.length ≤ (Filter.leadDisjuncts thing filters).length := by
  rcases Filter.leadDisjuncts_cases thing filters with ⟨before, found, after, _, rfl, _, hled⟩ | hled
  · rw [List.forall_mem_append, List.forall_mem_cons] at hproper
    rw [hled, List.forall_mem_append, List.forall_mem_append]
    have hspread : (∀ f ∈ found.spread, ranking.IsProper f ∧ f.isOr = false) ∧ 1 ≤ found.spread.length := by
      rcases Filter.spread_cases found with ⟨_, hspread⟩ | ⟨left, values, rfl, _, _, hspread⟩
      · rw [hspread]
        exact ⟨List.forall_mem_singleton.2 hproper.2.1, Nat.le_refl 1⟩
      · rw [hspread, Filter.length_equalities]
        refine ⟨fun f hf => ?_, ?_⟩
        · obtain ⟨v, _, rfl⟩ := Filter.mem_equalities_iff.1 hf
          exact ⟨.scalar, rfl⟩
        · cases hproper.2.1.1 with
          | list hlen => omega
    refine ⟨⟨hspread.1, hproper.1, hproper.2.2⟩, ?_⟩
    simp only [List.length_cons, List.length_append]
    omega
  · rw [hled]
    exact ⟨hproper, Nat.le_refl _⟩

/-! ### Tidy filters -/

theorem PrefersEqualities.normalize_reorder_and (h : ranking.PrefersEqualities) {children : List Filter}
    (hproper : ranking.IsProper (.and children)) :
    ranking.normalize ((Filter.and children).reorder thing) =
      .and (ranking.sort (Filter.leadConjuncts thing children)) := by
  cases hproper with
  | and hlen hproper hflat =>
    obtain ⟨hled, hlength⟩ := h.isProper_leadConjuncts thing fun f hf => ⟨hproper f hf, hflat f hf⟩
    exact normalize_and (hlength ▸ hlen) (fun f hf => (hled f hf).1) (fun f hf => (hled f hf).2)
      fun f hf => normalize_of_isProper (hled f hf).1

theorem normalize_reorder_or {children : List Filter} (hproper : ranking.IsProper (.or children)) :
    ranking.normalize ((Filter.or children).reorder thing) =
      .or (ranking.sort (Filter.leadDisjuncts thing children)) := by
  cases hproper with
  | or hlen hproper hflat =>
    obtain ⟨hled, hlength⟩ := isProper_leadDisjuncts thing fun f hf => ⟨hproper f hf, hflat f hf⟩
    exact normalize_or (Nat.le_trans hlen hlength) (fun f hf => (hled f hf).1) (fun f hf => (hled f hf).2)
      fun f hf => normalize_of_isProper (hled f hf).1

/-- A filter that is led and normalized again is led as before. -/
theorem PrefersEqualities.reorder_normalize_reorder (h : ranking.PrefersEqualities) (thing : Thing) {filter : Filter}
    (hproper : ranking.IsProper filter) :
    (ranking.normalize (filter.reorder thing)).reorder thing = filter.reorder thing ∧
      (ranking.normalize (filter.reorder thing)).isTruthy = false := by
  cases hf : filter with
  | and children =>
    rw [hf] at hproper
    rw [h.normalize_reorder_and hproper]
    cases hproper with
    | and hlen hproper hflat hsorted =>
      refine ⟨congrArg Filter.and (leadConjuncts_sort h hproper hsorted), Filter.isTruthy_and_of_two_le ?_⟩
      obtain ⟨_, hlength⟩ := h.isProper_leadConjuncts thing fun f hf => ⟨hproper f hf, hflat f hf⟩
      rw [(ranking.sort_perm _).length_eq, hlength]
      exact hlen
  | or children =>
    rw [hf] at hproper
    rw [normalize_reorder_or hproper]
    cases hproper with
    | or _ hproper _ hsorted => exact ⟨congrArg Filter.or (leadDisjuncts_sort h hproper hsorted), rfl⟩
  | _ =>
    have hsame : filter.reorder thing = filter :=
      Filter.reorder_of_not_connective thing (by rw [hf]; rfl) (by rw [hf]; rfl)
    rw [← hf, hsame, normalize_of_isProper hproper]
    exact ⟨hsame, hproper.isTruthy⟩

theorem PrefersEqualities.reorderFor_normalize_reorderFor (h : ranking.PrefersEqualities) (schema : Schema)
    (name : String) {filter : Filter} (hnormal : ranking.IsNormal filter) (htruthy : filter.isTruthy = false) :
    (ranking.normalize (filter.reorderFor schema name)).reorderFor schema name = filter.reorderFor schema name ∧
      (ranking.normalize (filter.reorderFor schema name)).isTruthy = false := by
  unfold Filter.reorderFor
  rcases hnormal with rfl | rfl | hproper
  · split
    · exact ⟨rfl, rfl⟩
    · exact ⟨rfl, rfl⟩
  · cases htruthy
  · split
    · exact h.reorder_normalize_reorder _ hproper
    · rw [normalize_of_isProper hproper]
      exact ⟨rfl, htruthy⟩

theorem PrefersEqualities.tidy?_of_tidy? (h : ranking.PrefersEqualities) {schema : Schema} {name : String}
    {filter tidy : Filter} (htidy : ranking.tidy? schema name filter = some tidy) :
    ranking.tidy? schema name tidy = some tidy := by
  unfold tidy? at htidy
  dsimp only at htidy
  split at htidy
  · cases htidy
  · rename_i htruthy
    cases htidy
    obtain ⟨hreorder, htruthy'⟩ := h.reorderFor_normalize_reorderFor schema name (ranking.isNormal_normalize filter)
      (by simpa using htruthy)
    simp only [tidy?, htruthy', hreorder, Bool.false_eq_true, if_false]

/-- Equalities cost least. -/
theorem prefersEqualities_byCost : byCost.PrefersEqualities := by
  intro f g hf hg
  change f.cost.atMost g.cost = true
  unfold Filter.equalityField? at hf
  split at hf
  · exact Filter.atLeastOne_cost_of_isProper hg
  · cases hf

end Ranking

/-! ### Tidy filters by cost -/

namespace Filter

open Ranking (prefersEqualities_byCost)

variable {thing : Thing} {filters : List Filter}

theorem byCost_of_leadByComposite? {led : List Filter} (hproper : ∀ f ∈ filters, f.IsProper) (hsorted : ByCost filters)
    (h : leadByComposite? thing filters = some led) : ByCost led :=
  prefersEqualities_byCost.sorted_of_leadByComposite? hproper hsorted h

theorem isProper_leadConjuncts (thing : Thing) (h : ∀ f ∈ filters, f.IsProper ∧ f.isAnd = false) :
    (∀ f ∈ leadConjuncts thing filters, f.IsProper ∧ f.isAnd = false) ∧
      (leadConjuncts thing filters).length = filters.length :=
  prefersEqualities_byCost.isProper_leadConjuncts thing h

theorem isProper_leadDisjuncts (thing : Thing) (h : ∀ f ∈ filters, f.IsProper ∧ f.isOr = false) :
    (∀ f ∈ leadDisjuncts thing filters, f.IsProper ∧ f.isOr = false) ∧
      filters.length ≤ (leadDisjuncts thing filters).length :=
  Ranking.isProper_leadDisjuncts thing h

theorem normalize_reorder_and {children : List Filter} (h : (Filter.and children).IsProper) :
    ((Filter.and children).reorder thing).normalize = .and (sortByCost (leadConjuncts thing children)) := by
  rw [← Ranking.normalize_byCost]
  exact prefersEqualities_byCost.normalize_reorder_and h

theorem normalize_reorder_or {children : List Filter} (h : (Filter.or children).IsProper) :
    ((Filter.or children).reorder thing).normalize = .or (sortByCost (leadDisjuncts thing children)) := by
  rw [← Ranking.normalize_byCost]
  exact Ranking.normalize_reorder_or h

theorem reorderFor_normalize_reorderFor (schema : Schema) (name : String) {filter : Filter} (h : filter.IsNormal)
    (htruthy : filter.isTruthy = false) :
    (filter.reorderFor schema name).normalize.reorderFor schema name = filter.reorderFor schema name ∧
      (filter.reorderFor schema name).normalize.isTruthy = false := by
  rw [← Ranking.normalize_byCost]
  exact prefersEqualities_byCost.reorderFor_normalize_reorderFor schema name h htruthy

theorem tidy?_of_tidy? {schema : Schema} {name : String} {filter tidy : Filter}
    (h : filter.tidy? schema name = some tidy) : tidy.tidy? schema name = some tidy := by
  rw [← Ranking.tidy?_byCost] at h ⊢
  exact prefersEqualities_byCost.tidy?_of_tidy? h

/-- The memberships of two levels or of none. -/
def levelsOrNone : List Filter :=
  [.list .isIn "level" [.string "gold", .string "silver"], .null .isNone "level" none]

/-- The conditions of `levelsOrNone` with an equality for each level in front. -/
def eachLevelOrNone : List Filter :=
  [.scalar .eq "level" (.string "gold"), .scalar .eq "level" (.string "silver"), .null .isNone "level" none]

theorem tidy?_levelsOrNone {ranking : Ranking} (h : ranking.Sorted levelsOrNone) :
    ranking.tidy? memberSchema "Member" (.or levelsOrNone) = some (.or eachLevelOrNone) := by
  have hproper : ranking.IsProper (.or levelsOrNone) := by
    refine .or (by decide) ?_ ?_ h
    · exact List.forall_mem_cons.2 ⟨.list (by decide), List.forall_mem_singleton.2 .null⟩
    · exact List.forall_mem_cons.2 ⟨rfl, List.forall_mem_singleton.2 rfl⟩
  have hbest : IsBest memberThing [] (.list .isIn "level" [.string "gold", .string "silver"])
      [.null .isNone "level" none] ⟨2, "level", false⟩ := by
    refine ⟨rfl, by simp, List.forall_mem_cons.2 ⟨?_, List.forall_mem_singleton.2 ?_⟩⟩
    · rintro c ⟨⟩
      decide
    · rintro c ⟨⟩
  have hled : (Filter.or levelsOrNone).reorderFor memberSchema "Member" = .or eachLevelOrNone :=
    congrArg Filter.or hbest.leadDisjuncts_eq
  simp only [Ranking.tidy?, Ranking.normalize_of_isProper hproper, hproper.isTruthy, hled, Bool.false_eq_true, if_false]

/-- All filters rank alike. -/
def indifferentRanking : Ranking := ⟨fun _ _ => true, by simp, by simp⟩

theorem bind_tidy?_bind_tidy? (schema : Schema) (name : String) (filter : Option Filter) :
    (filter.bind (tidy? schema name)).bind (tidy? schema name) = filter.bind (tidy? schema name) := by
  cases h : filter.bind (tidy? schema name) with
  | none => rfl
  | some tidy =>
    obtain ⟨f, _, hf⟩ := Option.bind_eq_some_iff.1 h
    exact tidy?_of_tidy? hf

end Filter

namespace Column

mutual

theorem tidy_tidy (schema : Schema) (column : Column) : (column.tidy schema).tidy schema = column.tidy schema := by
  match column with
  | .metadata field label => rfl
  | .data path label => rfl
  | .reference path label cardinality tunnel => rfl
  | .flex path label cardinality => rfl
  | .nested scope columns =>
    simp only [Column.tidy, Filter.bind_tidy?_bind_tidy?, tidyAll_tidyAll schema columns]

theorem tidyAll_tidyAll (schema : Schema) (columns : List Column) :
    tidyAll schema (tidyAll schema columns) = tidyAll schema columns := by
  match columns with
  | [] => rfl
  | c :: rest => simp only [tidyAll, tidy_tidy schema c, tidyAll_tidyAll schema rest]

end

end Column

end ThingQuery
