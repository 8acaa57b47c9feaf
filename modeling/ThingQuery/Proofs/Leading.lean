import ThingQuery.Filter.Lead

/-!
# What the leading predicate is

Taking a filter out of a list leaves the others in their order (`exists_of_extract?`), and the best candidate is the
one that no other candidate beats (`Candidate.best?_eq_some_iff`), whatever the order of the list.  The parts of a
conjunction are led by a lookup of a key, by the equalities of a composite index, by the best candidate, or by nothing
(`leadConjuncts_cases`).
-/

namespace ThingQuery

namespace Candidate

theorem beats_iff {a b : Candidate} :
    a.beats b = true ↔ a.penalty < b.penalty ∨ (a.penalty = b.penalty ∧
      (a.field < b.field ∨ (a.field = b.field ∧ a.isDisjunction = true ∧ b.isDisjunction = false))) := by
  unfold beats
  by_cases hp : a.penalty = b.penalty
  · by_cases hf : a.field = b.field
    · simp [hp, hf]
    · simp [hp, hf]
  · simp [hp]

theorem beats_irrefl (a : Candidate) : a.beats a = false := by
  rw [Bool.eq_false_iff]
  intro h
  rcases beats_iff.1 h with h | ⟨_, h | ⟨_, h1, h2⟩⟩
  · omega
  · exact String.lt_irrefl _ h
  · rw [h1] at h2
    cases h2

theorem beats_trans {a b c : Candidate} (hab : a.beats b = true) (hbc : b.beats c = true) : a.beats c = true := by
  rw [beats_iff] at hab hbc ⊢
  rcases hab with hp | ⟨hp, hf⟩
  · left
    omega
  · rcases hbc with hp' | ⟨hp', hf'⟩
    · left
      omega
    · refine .inr ⟨by omega, ?_⟩
      rcases hf with hf | ⟨hf, hd, hd'⟩
      · left
        rcases hf' with hf' | ⟨hf', _⟩
        · exact String.lt_trans hf hf'
        · exact hf' ▸ hf
      · rcases hf' with hf' | ⟨hf', hd2, _⟩
        · left
          exact hf ▸ hf'
        · rw [hd'] at hd2
          cases hd2

/-- Of two different candidates one beats the other. -/
theorem eq_of_not_beats {a b : Candidate} (hab : a.beats b = false) (hba : b.beats a = false) : a = b := by
  rw [Bool.eq_false_iff, ne_eq, beats_iff] at hab hba
  have hp : a.penalty = b.penalty := by omega
  have hf : a.field = b.field := by
    by_cases h : a.field = b.field
    · exact h
    · by_cases hlt : a.field < b.field
      · exact absurd (.inr ⟨hp, .inl hlt⟩) hab
      · exact absurd (.inr ⟨hp.symm, .inl (lt_of_not_lt_of_ne hlt h)⟩) hba
  have hd : a.isDisjunction = b.isDisjunction := by
    cases ha : a.isDisjunction <;> cases hb : b.isDisjunction
    · rfl
    · exact absurd (.inr ⟨hp.symm, .inr ⟨hf.symm, hb, ha⟩⟩) hba
    · exact absurd (.inr ⟨hp, .inr ⟨hf, ha, hb⟩⟩) hab
    · rfl
  obtain ⟨_, _, _⟩ := a
  obtain ⟨_, _, _⟩ := b
  simp_all

theorem not_beats_trans {a b c : Candidate} (hab : a.beats b = false) (hbc : b.beats c = false) :
    a.beats c = false := by
  rw [Bool.eq_false_iff]
  intro hac
  by_cases hcb : c.beats b = true
  · have := beats_trans hac hcb
    rw [hab] at this
    cases this
  · obtain rfl := eq_of_not_beats hbc (Bool.eq_false_iff.2 hcb)
    rw [hab] at hac
    cases hac

/-- What does not beat a candidate does not beat a better one either. -/
theorem not_beats_of_beats {a b c : Candidate} (hac : a.beats c = false) (hbc : b.beats c = true) :
    a.beats b = false := by
  rw [Bool.eq_false_iff]
  intro hab
  rw [beats_trans hab hbc] at hac
  cases hac

theorem listPenalty_pos (n : Nat) : 0 < listPenalty n := by
  unfold listPenalty
  omega

theorem two_le_listPenalty {n : Nat} (h : 2 ≤ n) : 2 ≤ listPenalty n := by
  unfold listPenalty maxPenalty
  omega

private theorem foldl_best (candidates : List Candidate) (start : Candidate) :
    ∃ b, candidates.foldl (fun best c =>
      match best with
      | none => some c
      | some b => if c.beats b then some c else some b) (some start) = some b ∧
      b ∈ start :: candidates ∧ ∀ c ∈ start :: candidates, c.beats b = false := by
  induction candidates generalizing start with
  | nil => exact ⟨start, rfl, List.mem_singleton_self _, by simpa using beats_irrefl start⟩
  | cons c rest ih =>
    rw [List.foldl_cons]
    dsimp only
    by_cases hc : c.beats start = true
    · rw [if_pos hc]
      obtain ⟨b, he, hm, hb⟩ := ih c
      refine ⟨b, he, List.mem_cons_of_mem _ hm, List.forall_mem_cons.2 ⟨?_, hb⟩⟩
      -- otherwise `c` would beat `b` through the first candidate
      rw [Bool.eq_false_iff]
      intro hstart
      have hcb := beats_trans hc hstart
      rw [hb c List.mem_cons_self] at hcb
      cases hcb
    · rw [if_neg hc]
      obtain ⟨b, he, hm, hb⟩ := ih start
      obtain ⟨hstart, hrest⟩ := List.forall_mem_cons.1 hb
      refine ⟨b, he, ?_, ?_⟩
      · exact List.cons_subset_cons start (List.subset_cons_self c rest) hm
      · have hcb := not_beats_trans (Bool.eq_false_iff.2 hc) hstart
        exact List.forall_mem_cons.2 ⟨hstart, List.forall_mem_cons.2 ⟨hcb, hrest⟩⟩

theorem best?_eq_some_iff {candidates : List Candidate} {b : Candidate} :
    best? candidates = some b ↔ b ∈ candidates ∧ ∀ c ∈ candidates, c.beats b = false := by
  cases candidates with
  | nil => simp [best?]
  | cons start rest =>
    obtain ⟨b', he, hm, hb⟩ := foldl_best rest start
    have hbest : best? (start :: rest) = some b' := he
    rw [hbest]
    constructor
    · intro h
      cases h
      exact ⟨hm, hb⟩
    · intro ⟨hm', hb'⟩
      exact congrArg some (eq_of_not_beats (hb' b' hm) (hb b hm'))

theorem best?_eq_none_iff {candidates : List Candidate} : best? candidates = none ↔ candidates = [] := by
  cases candidates with
  | nil => simp [best?]
  | cons start rest =>
    obtain ⟨b, he, _⟩ := foldl_best rest start
    have hbest : best? (start :: rest) = some b := he
    simp [hbest]

end Candidate

namespace Filter

/-! ### Taking one filter out -/

/-- What is taken out is the first filter of its kind, and the others keep their order. -/
theorem exists_of_extract? {p : Filter → Bool} {filters : List Filter} {found : Filter} {rest : List Filter}
    (h : extract? p filters = some (found, rest)) :
    ∃ before after, filters = before ++ found :: after ∧ rest = before ++ after ∧ p found = true ∧
      ∀ g ∈ before, p g = false := by
  induction filters generalizing found rest with
  | nil => cases h
  | cons f fs ih =>
    unfold extract? at h
    split at h
    · rename_i hp
      cases h
      exact ⟨[], fs, rfl, rfl, hp, by simp⟩
    · rename_i hp
      split at h
      · rename_i found' others he
        cases h
        obtain ⟨before, after, rfl, rfl, hf, hb⟩ := ih he
        refine ⟨f :: before, after, rfl, rfl, hf, ?_⟩
        intro g hg
        rcases List.mem_cons.1 hg with rfl | hg
        · simpa using hp
        · exact hb g hg
      · cases h

theorem extract?_append {p : Filter → Bool} {before after : List Filter} {found : Filter} (hp : p found = true)
    (hb : ∀ g ∈ before, p g = false) :
    extract? p (before ++ found :: after) = some (found, before ++ after) := by
  induction before with
  | nil => simp [extract?, hp]
  | cons f before ih =>
    have hf := hb f List.mem_cons_self
    have := ih fun g hg => hb g (List.mem_cons_of_mem _ hg)
    simp [extract?, hf, this]

theorem extract?_eq_none_iff {p : Filter → Bool} {filters : List Filter} :
    extract? p filters = none ↔ ∀ f ∈ filters, p f = false := by
  induction filters with
  | nil => simp [extract?]
  | cons f fs ih =>
    rw [List.forall_mem_cons, ← ih]
    by_cases hp : p f = true
    · simp [extract?, hp]
    · cases he : extract? p fs <;> simp [extract?, hp, he]

/-! ### Taking the equalities of a composite index out -/

theorem exists_of_extractEqualities?_cons {field : String} {fields : List String} {filters group rest : List Filter}
    (h : extractEqualities? (field :: fields) filters = some (group, rest)) :
    ∃ before found after group', filters = before ++ found :: after ∧ found.equalityField? = some field ∧
      group = found :: group' ∧ extractEqualities? fields (before ++ after) = some (group', rest) := by
  unfold extractEqualities? at h
  split at h
  · cases h
  · rename_i found others he
    split at h
    · cases h
    · rename_i group' rest' hg
      cases h
      obtain ⟨before, after, rfl, rfl, hp, _⟩ := exists_of_extract? he
      exact ⟨before, found, after, group', rfl, eq_of_beq hp, rfl, hg⟩

theorem perm_of_extractEqualities? {fields : List String} {filters group rest : List Filter}
    (h : extractEqualities? fields filters = some (group, rest)) : filters.Perm (group ++ rest) := by
  induction fields generalizing filters group rest with
  | nil =>
    cases h
    exact List.Perm.refl _
  | cons field fields ih =>
    obtain ⟨before, found, after, group', rfl, _, rfl, hg⟩ := exists_of_extractEqualities?_cons h
    exact List.perm_middle.trans ((ih hg).cons _)

theorem isSome_equalityField?_of_extractEqualities? {fields : List String} {filters group rest : List Filter}
    (h : extractEqualities? fields filters = some (group, rest)) : ∀ f ∈ group, f.equalityField?.isSome = true := by
  induction fields generalizing filters group rest with
  | nil =>
    cases h
    simp
  | cons field fields ih =>
    obtain ⟨before, found, after, group', rfl, hf, rfl, hg⟩ := exists_of_extractEqualities?_cons h
    intro f hm
    rcases List.mem_cons.1 hm with rfl | hm
    · rw [hf]
      rfl
    · exact ih hg f hm

theorem sublist_of_extractEqualities? {fields : List String} {filters group rest : List Filter}
    (h : extractEqualities? fields filters = some (group, rest)) : rest.Sublist filters := by
  induction fields generalizing filters group rest with
  | nil =>
    cases h
    exact List.Sublist.refl _
  | cons field fields ih =>
    obtain ⟨before, found, after, group', rfl, _, rfl, hg⟩ := exists_of_extractEqualities?_cons h
    exact (ih hg).trans ((List.Sublist.refl before).append (List.sublist_cons_self found after))

/-- The group that was taken out is found again in front of the others. -/
theorem extractEqualities?_append {fields : List String} {filters group rest : List Filter}
    (h : extractEqualities? fields filters = some (group, rest)) :
    extractEqualities? fields (group ++ rest) = some (group, rest) := by
  induction fields generalizing filters group rest with
  | nil =>
    cases h
    rfl
  | cons field fields ih =>
    obtain ⟨before, found, after, group', rfl, hf, rfl, hg⟩ := exists_of_extractEqualities?_cons h
    have hfront : extract? (fun f => f.equalityField? == some field) (found :: (group' ++ rest)) =
        some (found, group' ++ rest) := by
      simp [extract?, hf]
    rw [List.cons_append, extractEqualities?, hfront]
    simp [ih hg]

/-- Whether a composite index is covered depends only on the columns of the equalities. -/
theorem extractEqualities?_eq_none_of_perm {fields : List String} {filters filters' : List Filter}
    (hperm : (filters.map equalityField?).Perm (filters'.map equalityField?))
    (h : extractEqualities? fields filters = none) : extractEqualities? fields filters' = none := by
  induction fields generalizing filters filters' with
  | nil => cases h
  | cons field fields ih =>
    cases he' : extract? (fun f => f.equalityField? == some field) filters' with
    | none => simp [extractEqualities?, he']
    | some r' =>
      obtain ⟨found', others'⟩ := r'
      obtain ⟨before', after', rfl, hr', hp', _⟩ := exists_of_extract? he'
      have hf' := eq_of_beq hp'
      cases he : extract? (fun f => f.equalityField? == some field) filters with
      | none =>
        -- an equality on the column is among the first filters too
        have hmem : some field ∈ filters.map equalityField? := by
          rw [hperm.mem_iff, ← hf']
          exact List.mem_map_of_mem (by simp)
        obtain ⟨f, hf, hff⟩ := List.mem_map.1 hmem
        have := extract?_eq_none_iff.1 he f hf
        simp [hff] at this
      | some r =>
        obtain ⟨found, others⟩ := r
        obtain ⟨before, after, rfl, hr, hp, _⟩ := exists_of_extract? he
        have hf := eq_of_beq hp
        have hrest : (others.map equalityField?).Perm (others'.map equalityField?) := by
          rw [hr, hr']
          simp only [List.map_append, List.map_cons, hf, hf'] at hperm ⊢
          exact (List.perm_middle.symm.trans (hperm.trans List.perm_middle)).cons_inv
        cases hg : extractEqualities? fields others with
        | none => simp [extractEqualities?, he', ih hrest hg]
        | some g => simp [extractEqualities?, he, hg] at h

/-- The equalities of the chosen index stand in front, and choosing again chooses the same. -/
theorem exists_of_leadByComposite? {thing : Thing} {filters led : List Filter}
    (h : leadByComposite? thing filters = some led) :
    ∃ fields group rest, extractEqualities? fields filters = some (group, rest) ∧ led = group ++ rest ∧
      leadByComposite? thing led = some led := by
  obtain ⟨shorter, fields, longer, hsplit, hchosen, hearlier⟩ := List.findSome?_eq_some_iff.1 h
  obtain ⟨⟨group, rest⟩, hg, rfl⟩ := Option.map_eq_some_iff.1 hchosen
  refine ⟨fields, group, rest, hg, rfl, ?_⟩
  refine List.findSome?_eq_some_iff.2 ⟨shorter, fields, longer, hsplit, ?_, ?_⟩
  · simp [extractEqualities?_append hg]
  · intro other hother
    have hnone := Option.map_eq_none_iff.1 (hearlier other hother)
    exact Option.map_eq_none_iff.2
      (extractEqualities?_eq_none_of_perm ((perm_of_extractEqualities? hg).map _) hnone)

theorem leadByComposite?_eq_none_of_perm {thing : Thing} {filters filters' : List Filter}
    (hperm : (filters.map equalityField?).Perm (filters'.map equalityField?))
    (h : leadByComposite? thing filters = none) : leadByComposite? thing filters' = none := by
  refine List.findSome?_eq_none_iff.2 fun fields hfields => ?_
  have hnone := Option.map_eq_none_iff.1 (List.findSome?_eq_none_iff.1 h fields hfields)
  exact Option.map_eq_none_iff.2 (extractEqualities?_eq_none_of_perm hperm hnone)

/-! ### Taking the best candidate out -/

/-- The filter is the first one with a candidate that no other filter's candidate beats. -/
structure IsBest (thing : Thing) (before : List Filter) (found : Filter) (after : List Filter) (best : Candidate) :
    Prop where
  candidate : found.candidate? thing = some best
  /-- No filter before it has the same candidate. -/
  first : ∀ g ∈ before, g.candidate? thing ≠ some best
  unbeaten : ∀ g ∈ before ++ found :: after, ∀ c, g.candidate? thing = some c → c.beats best = false

theorem exists_of_extractBest? {thing : Thing} {filters rest : List Filter} {best : Candidate} {found : Filter}
    (h : extractBest? thing filters = some (best, found, rest)) :
    ∃ before after, filters = before ++ found :: after ∧ rest = before ++ after ∧
      IsBest thing before found after best := by
  unfold extractBest? at h
  split at h
  · cases h
  · rename_i best' hbest
    obtain ⟨⟨found', rest'⟩, he, hr⟩ := Option.map_eq_some_iff.1 h
    cases hr
    obtain ⟨before, after, rfl, rfl, hp, hb⟩ := exists_of_extract? he
    refine ⟨before, after, rfl, rfl, eq_of_beq hp, ?_, ?_⟩
    · intro g hg
      simpa using hb g hg
    · intro g hg c hc
      exact (Candidate.best?_eq_some_iff.1 hbest).2 c (List.mem_filterMap.2 ⟨g, hg, hc⟩)

theorem IsBest.extractBest?_eq {thing : Thing} {before after : List Filter} {found : Filter} {best : Candidate}
    (h : IsBest thing before found after best) :
    extractBest? thing (before ++ found :: after) = some (best, found, before ++ after) := by
  have hbest : Candidate.best? ((before ++ found :: after).filterMap (candidate? thing)) = some best := by
    refine Candidate.best?_eq_some_iff.2 ⟨?_, ?_⟩
    · exact List.mem_filterMap.2 ⟨found, by simp, h.candidate⟩
    · intro c hc
      obtain ⟨g, hg, hgc⟩ := List.mem_filterMap.1 hc
      exact h.unbeaten g hg c hgc
  have he : extract? (fun f => f.candidate? thing == some best) (before ++ found :: after) =
      some (found, before ++ after) :=
    extract?_append (by simp [h.candidate]) fun g hg => by simpa using h.first g hg
  unfold extractBest?
  rw [hbest]
  simp [he]

theorem extractBest?_eq_none_iff {thing : Thing} {filters : List Filter} :
    extractBest? thing filters = none ↔ ∀ f ∈ filters, f.candidate? thing = none := by
  constructor
  · intro h f hf
    unfold extractBest? at h
    split at h
    · rename_i hbest
      exact List.filterMap_eq_nil_iff.1 (Candidate.best?_eq_none_iff.1 hbest) f hf
    · rename_i best hbest
      obtain ⟨g, hg, hgc⟩ := List.mem_filterMap.1 (Candidate.best?_eq_some_iff.1 hbest).1
      have := extract?_eq_none_iff.1 (Option.map_eq_none_iff.1 h) g hg
      simp [hgc] at this
  · intro h
    have : filters.filterMap (candidate? thing) = [] := List.filterMap_eq_nil_iff.2 h
    simp [extractBest?, this, Candidate.best?]

theorem IsBest.leadConjuncts_eq {thing : Thing} {before after : List Filter} {found : Filter} {best : Candidate}
    (h : IsBest thing before found after best)
    (hcomposite : best.penalty = 0 ∨ leadByComposite? thing (before ++ found :: after) = none) :
    leadConjuncts thing (before ++ found :: after) = spreadOr found :: (before ++ after) := by
  unfold leadConjuncts
  rw [h.extractBest?_eq]
  obtain ⟨penalty, field, isDisjunction⟩ := best
  cases penalty with
  | zero => rfl
  | succ penalty =>
    rcases hcomposite with hzero | hnone
    · cases hzero
    · simp [hnone]

theorem IsBest.leadDisjuncts_eq {thing : Thing} {before after : List Filter} {found : Filter} {best : Candidate}
    (h : IsBest thing before found after best) :
    leadDisjuncts thing (before ++ found :: after) = spread found ++ (before ++ after) := by
  unfold leadDisjuncts
  rw [h.extractBest?_eq]

/-- A composite index leads where no key is looked up. -/
theorem leadConjuncts_of_leadByComposite? {thing : Thing} {filters led : List Filter}
    (hkey : ∀ f ∈ filters, ∀ c, f.candidate? thing = some c → c.penalty ≠ 0)
    (h : leadByComposite? thing filters = some led) : leadConjuncts thing filters = led := by
  unfold leadConjuncts
  rw [h]
  dsimp only
  split
  · rename_i hbest
    obtain ⟨before, after, rfl, _, hb⟩ := exists_of_extractBest? hbest
    exact absurd rfl (hkey _ (by simp) _ hb.candidate)
  · rfl

/-- What stands in front of the parts of a conjunction. -/
theorem leadConjuncts_cases (thing : Thing) (filters : List Filter) :
    (∃ before found after best, filters = before ++ found :: after ∧ IsBest thing before found after best ∧
      (best.penalty = 0 ∨ leadByComposite? thing filters = none) ∧
      leadConjuncts thing filters = spreadOr found :: (before ++ after)) ∨
    ((∀ f ∈ filters, ∀ c, f.candidate? thing = some c → c.penalty ≠ 0) ∧
      leadByComposite? thing filters = some (leadConjuncts thing filters)) ∨
    ((∀ f ∈ filters, f.candidate? thing = none) ∧ leadByComposite? thing filters = none ∧
      leadConjuncts thing filters = filters) := by
  cases hbest : extractBest? thing filters with
  | none =>
    have hnone := extractBest?_eq_none_iff.1 hbest
    cases hc : leadByComposite? thing filters with
    | none => exact .inr (.inr ⟨hnone, rfl, by simp [leadConjuncts, hbest, hc]⟩)
    | some led =>
      have hkey : ∀ f ∈ filters, ∀ c, f.candidate? thing = some c → c.penalty ≠ 0 := by
        intro f hf c hfc
        rw [hnone f hf] at hfc
        cases hfc
      exact .inr (.inl ⟨hkey, by rw [leadConjuncts_of_leadByComposite? hkey hc]⟩)
  | some r =>
    obtain ⟨best, found, rest⟩ := r
    obtain ⟨before, after, rfl, rfl, hb⟩ := exists_of_extractBest? hbest
    by_cases hzero : best.penalty = 0
    · exact .inl ⟨before, found, after, best, rfl, hb, .inl hzero, hb.leadConjuncts_eq (.inl hzero)⟩
    · cases hc : leadByComposite? thing (before ++ found :: after) with
      | none => exact .inl ⟨before, found, after, best, rfl, hb, .inr rfl, hb.leadConjuncts_eq (.inr hc)⟩
      | some led =>
        have hkey : ∀ f ∈ before ++ found :: after, ∀ c, f.candidate? thing = some c → c.penalty ≠ 0 := by
          intro f hf c hfc hpenalty
          -- a candidate without penalty would beat the best one
          have hunbeaten := hb.unbeaten f hf c hfc
          rw [Bool.eq_false_iff, ne_eq, Candidate.beats_iff] at hunbeaten
          exact hunbeaten (.inl (by omega))
        exact .inr (.inl ⟨hkey, by rw [leadConjuncts_of_leadByComposite? hkey hc]⟩)

/-- What stands in front of the parts of a disjunction. -/
theorem leadDisjuncts_cases (thing : Thing) (filters : List Filter) :
    (∃ before found after best, filters = before ++ found :: after ∧ IsBest thing before found after best ∧
      leadDisjuncts thing filters = spread found ++ (before ++ after)) ∨
    leadDisjuncts thing filters = filters := by
  cases hbest : extractBest? thing filters with
  | none => exact .inr (by simp [leadDisjuncts, hbest])
  | some r =>
    obtain ⟨best, found, rest⟩ := r
    obtain ⟨before, after, rfl, rfl, hb⟩ := exists_of_extractBest? hbest
    exact .inl ⟨before, found, after, best, rfl, hb, hb.leadDisjuncts_eq⟩

end Filter

end ThingQuery
