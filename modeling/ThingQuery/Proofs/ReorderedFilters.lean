import Mathlib.Algebra.BigOperators.Group.Multiset.Basic
import ThingQuery.Proofs.FilterEffects

/-!
# Reordered filters

The members of the objects in a filter, the items of its lists and the values that a list operator compares with may be
written in any order (`Json.Reordered`).  What may be reordered depends on where a value stands (`Site`): the operand of
any other operator is a value of its own and stays as it is.  Values that are reordered describe filters with one
effect, or both are refused (`Filter.single_eq_of_reordered`).  The proof forgets the order (`Json.digest`): at every
site, what is built from a value depends only on a sum over its members or its items (`Site.Same`).
-/

namespace ThingQuery

/-! ### Sites -/

/-- Where a value stands in a filter. -/
inductive Site where
  /-- It is a filter on a thing, or what a connective holds. -/
  | filter (thing : Thing)
  /-- It is a condition on a data column. -/
  | data
  /-- It may list values or keys that a column is compared with. -/
  | listed
  /-- It is a condition on a link or a role; the thing at the other end may be unknown. -/
  | relationship (target : Option Thing)
  /-- It is a value that a column is compared with. -/
  | operand
  /-- No value is accepted there. -/
  | refused

namespace Site

/-- The site of a member of a filter object. -/
def ofKey (schema : Schema) (thing : Thing) (key : String) : Site :=
  match Filter.subject schema thing key with
  | .ok .disjunction | .ok .conjunction | .ok .negation => .filter thing
  | .ok (.data ..) => .data
  | .ok (.reference ..) => .listed
  | .ok (.relationship rel) => .relationship (schema.thing? rel.target)
  | .error _ => .refused

/-- The site of a member of an object. -/
def member (schema : Schema) (key : String) : Site → Site
  | .filter thing => ofKey schema thing key
  | .data =>
    if key = "$exists" ∨ (ScalarOp.ofKey? key).isSome then .operand
    else if (ListOp.ofKey? key).isSome then .listed
    else .refused
  | .relationship target =>
    if Filter.Relationship.isOperator key then .listed
    else
      match target with
      | some thing => ofKey schema thing key
      | none => .refused
  | .listed | .operand => .operand
  | .refused => .refused

/-- Whether the members of an object may be reordered. -/
def permutesMembers : Site → Bool
  | .filter _ | .data | .relationship _ => true
  | .listed | .operand | .refused => false

/-- Whether the items of a list may be reordered. -/
def permutesItems : Site → Bool
  | .filter _ | .data | .listed | .relationship _ => true
  | .operand | .refused => false

end Site

/-- Two values at a site differ only in the order of members and items that may be reordered, at any depth. -/
inductive Json.Reordered (schema : Schema) : Site → Json → Json → Prop where
  | refl (site : Site) (v : Json) : Reordered schema site v v
  | trans {site : Site} {u v w : Json} (huv : Reordered schema site u v) (hvw : Reordered schema site v w) :
    Reordered schema site u w
  | refused (v w : Json) : Reordered schema .refused v w
  | members {site : Site} {members members' : List (String × Json)} (hsite : site.permutesMembers = true)
    (h : members.Perm members') : Reordered schema site (.object members) (.object members')
  | member {site : Site} {before after : List (String × Json)} {key : String} {v w : Json}
    (h : Reordered schema (site.member schema key) v w) :
    Reordered schema site (.object (before ++ (key, v) :: after)) (.object (before ++ (key, w) :: after))
  | items {site : Site} {items items' : List Json} (hsite : site.permutesItems = true) (h : items.Perm items') :
    Reordered schema site (.array items) (.array items')
  | item {thing : Thing} {before after : List Json} {v w : Json} (h : Reordered schema (.filter thing) v w) :
    Reordered schema (.filter thing) (.array (before ++ v :: after)) (.array (before ++ w :: after))

/-! ### Digests -/

/-- What is known of a value when the order of its members and items is forgotten. -/
inductive Digest (M N : Type) where
  /-- The names of the members, and what they add up to. -/
  | object (names : Multiset String) (members : M)
  /-- What the items add up to. -/
  | list (items : N)
  | value (v : Json)

namespace Json

variable {M N : Type} [AddCommMonoid M] [AddCommMonoid N] (f : String × Json → M) (g : Json → N)

/-- The digest of a value, where every member and every item counts. -/
def digest : Json → Digest M N
  | .object members => .object ((members.map (·.1) : List String) : Multiset String) (members.map f).sum
  | .array items => .list (items.map g).sum
  | v => .value v

variable {f g}

theorem digest_members {members members' : List (String × Json)} (h : members.Perm members') :
    digest f g (.object members) = digest f g (.object members') := by
  have hnames : ((members.map (·.1) : List String) : Multiset String) = (members'.map (·.1) : List String) :=
    Multiset.coe_eq_coe.2 (h.map _)
  rw [digest, digest, hnames, (h.map f).sum_eq]

theorem digest_member {before after : List (String × Json)} {key : String} {v w : Json} (h : f (key, v) = f (key, w)) :
    digest f g (.object (before ++ (key, v) :: after)) = digest f g (.object (before ++ (key, w) :: after)) := by
  simp only [digest, List.map_append, List.map_cons, h]

theorem digest_items {items items' : List Json} (h : items.Perm items') :
    digest f g (.array items) = digest f g (.array items') := by
  rw [digest, digest, (h.map g).sum_eq]

theorem digest_item {before after : List Json} {v w : Json} (h : g v = g w) :
    digest f g (.array (before ++ v :: after)) = digest f g (.array (before ++ w :: after)) := by
  simp only [digest, List.map_append, List.map_cons, h]

/-- Values with one digest are two objects, two lists or the same value. -/
theorem cases_of_digest {v w : Json} (h : digest f g v = digest f g w) :
    (∃ members members', v = .object members ∧ w = .object members' ∧
        (members.map (·.1)).Perm (members'.map (·.1)) ∧ (members.map f).sum = (members'.map f).sum) ∨
      (∃ items items', v = .array items ∧ w = .array items' ∧ (items.map g).sum = (items'.map g).sum) ∨ v = w := by
  cases v with
  | object members =>
    cases w with
    | object members' =>
      injection h with hnames hsum
      exact .inl ⟨members, members', rfl, rfl, Multiset.coe_eq_coe.1 hnames, hsum⟩
    | _ => cases h
  | array items =>
    cases w with
    | array items' =>
      injection h with hsum
      exact .inr (.inl ⟨items, items', rfl, rfl, hsum⟩)
    | _ => cases h
  | _ =>
    cases w with
    | object _ => cases h
    | array _ => cases h
    | _ =>
      injection h with hvalue
      exact .inr (.inr hvalue)

end Json

theorem sum_map_singleton {α : Type} (as : List α) : (as.map fun a => ({a} : Multiset α)).sum = as := by
  rw [← Multiset.sum_coe, ← Multiset.map_coe, Multiset.sum_map_singleton]

theorem rel_trans {α : Type} {R : α → α → Prop} (hR : ∀ {a b c}, R a b → R b c → R a c) {a b c : Option α}
    (hab : Option.Rel R a b) (hbc : Option.Rel R b c) : Option.Rel R a c := by
  cases hab with
  | none => exact hbc
  | some hab =>
    cases hbc with
    | some hbc => exact .some (hR hab hbc)

/-- A check of every item does not depend on their order. -/
theorem rel_mapM_of_perm {α β : Type} (f : α → Option β) {as bs : List α} (h : as.Perm bs) :
    Option.Rel List.Perm (as.mapM f) (bs.mapM f) := by
  induction h with
  | nil => exact .some .nil
  | cons a _ ih =>
    rw [List.mapM_cons, List.mapM_cons]
    cases f a with
    | none => exact .none
    | some b =>
      generalize List.mapM f _ = xs at ih
      generalize List.mapM f _ = ys at ih
      cases ih with
      | none => exact .none
      | some hxy => exact .some (hxy.cons b)
  | swap a b rest =>
    simp only [List.mapM_cons]
    cases f a <;> cases f b <;> cases rest.mapM f
    all_goals first | exact .none | exact .some (.swap _ _ _)
  | trans _ _ ih ih' => exact rel_trans (fun h h' => h.trans h') ih ih'

namespace Site

open ThingQuery.Filter

/-- Two values at a site say the same, up to the order in which they say it. -/
def Same (schema : Schema) : Site → Json → Json → Prop
  | .filter thing, v, w =>
    let digest := Json.digest (fun m => single (ofMember schema thing m.1 m.2))
      fun item => single (ofJson schema thing item)
    digest v = digest w
  | .data, v, w => ∀ left,
    let digest := Json.digest (fun m => single (dataOperator left m.1 m.2))
      fun item => ({item} : Multiset Json)
    digest v = digest w
  | .listed, v, w =>
    let digest := Json.digest (fun m => ({m} : Multiset (String × Json)))
      fun item => ({item} : Multiset Json)
    digest v = digest w
  | .relationship target, v, w =>
    (∀ rel : Relationship,
      let digest := Json.digest (fun m => total ((rel.operator m.1 m.2).map Option.toList))
        fun item => ({item} : Multiset Json)
      digest v = digest w) ∧
    ∀ thing, target = some thing →
      let digest := Json.digest (leftover schema thing) fun item => ({item} : Multiset Json)
      digest v = digest w
  | .operand, v, w => v = w
  | .refused, _, _ => True

namespace Same

variable {schema : Schema}

theorem refl (site : Site) (v : Json) : site.Same schema v v := by
  cases site <;> simp [Same]

theorem trans {site : Site} {u v w : Json} (huv : site.Same schema u v) (hvw : site.Same schema v w) :
    site.Same schema u w := by
  cases site with
  | filter thing => exact Eq.trans huv hvw
  | data => exact fun left => (huv left).trans (hvw left)
  | listed => exact Eq.trans huv hvw
  | relationship target =>
    exact ⟨fun rel => (huv.1 rel).trans (hvw.1 rel), fun thing h => (huv.2 thing h).trans (hvw.2 thing h)⟩
  | operand => exact Eq.trans huv hvw
  | refused => trivial

theorem members {site : Site} (hsite : site.permutesMembers = true) {members members' : List (String × Json)}
    (h : members.Perm members') : site.Same schema (.object members) (.object members') := by
  cases site with
  | filter thing => exact Json.digest_members h
  | data => exact fun left => Json.digest_members h
  | relationship target => exact ⟨fun rel => Json.digest_members h, fun thing _ => Json.digest_members h⟩
  | _ => cases hsite

theorem items {site : Site} (hsite : site.permutesItems = true) {items items' : List Json} (h : items.Perm items') :
    site.Same schema (.array items) (.array items') := by
  cases site with
  | filter thing => exact Json.digest_items h
  | data => exact fun left => Json.digest_items h
  | listed => exact Json.digest_items h
  | relationship target => exact ⟨fun rel => Json.digest_items h, fun thing _ => Json.digest_items h⟩
  | _ => cases hsite

/-! ### What is built at a site -/

section Built

variable {thing : Thing} {v w : Json}

/-- Values with one digest that counts every item: two lists are then permutations of each other. -/
theorem cases_of_digest {M : Type} [AddCommMonoid M] {f : String × Json → M}
    (h : Json.digest f (fun item => ({item} : Multiset Json)) v =
      Json.digest f (fun item => ({item} : Multiset Json)) w) :
    (∃ members members', v = .object members ∧ w = .object members' ∧
        (members.map (·.1)).Perm (members'.map (·.1)) ∧ (members.map f).sum = (members'.map f).sum) ∨
      (∃ items items', v = .array items ∧ w = .array items' ∧ items.Perm items') ∨ v = w := by
  refine (Json.cases_of_digest h).imp_right (Or.imp_left ?_)
  rintro ⟨items, items', rfl, rfl, hsum⟩
  rw [sum_map_singleton, sum_map_singleton] at hsum
  exact ⟨items, items', rfl, rfl, Multiset.coe_eq_coe.1 hsum⟩

/-- Objects with the same names are both empty or both not. -/
theorem exists_cons_of_names {first : String × Json} {rest members : List (String × Json)}
    (h : ((first :: rest).map (·.1)).Perm (members.map (·.1))) : ∃ first' rest', members = first' :: rest' := by
  refine List.exists_cons_of_ne_nil ?_
  rintro rfl
  have hnil := h.eq_nil
  cases hnil

/-- Two filters that say the same have parts that say the same. -/
theorem totals (h : (Site.filter thing).Same schema v w) :
    (∃ members members', v = .object members ∧ w = .object members' ∧
        total (ofMembers schema thing members) = total (ofMembers schema thing members')) ∨
      (∃ items items', v = .array items ∧ w = .array items' ∧
        total (ofItems schema thing items) = total (ofItems schema thing items')) ∨ v = w := by
  simp only [total_ofMembers, total_ofItems]
  rcases Json.cases_of_digest h with ⟨members, members', rfl, rfl, _, hsum⟩ | ⟨items, items', rfl, rfl, hsum⟩ | rfl
  · exact .inl ⟨members, members', rfl, rfl, hsum⟩
  · exact .inr (.inl ⟨items, items', rfl, rfl, hsum⟩)
  · exact .inr (.inr rfl)

theorem single_ofJson (h : (Site.filter thing).Same schema v w) :
    single (ofJson schema thing v) = single (ofJson schema thing w) := by
  rcases h.totals with ⟨members, members', rfl, rfl, htotal⟩ | ⟨items, items', rfl, rfl, htotal⟩ | rfl
  · rw [ofJson, ofJson]
    exact single_map_congr effect_all_congr htotal
  · rw [ofJson, ofJson]
    exact single_map_congr effect_any_congr htotal
  · rfl

/-- The keys that a value lists are the same up to their order. -/
theorem single_idsOf (h : Site.listed.Same schema v w) (field : String) {make : List String → Filter}
    (hmake : ∀ {ids ids' : List String}, ids.Perm ids' → (make ids).effect = (make ids').effect) :
    single ((idsOf field v).map make) = single ((idsOf field w).map make) := by
  rcases cases_of_digest h with ⟨members, members', rfl, rfl, _⟩ | ⟨items, items', rfl, rfl, hperm⟩ | rfl
  · rfl
  · unfold idsOf
    dsimp only
    have hids := rel_mapM_of_perm Json.string? hperm
    generalize items.mapM Json.string? = ids at hids
    generalize items'.mapM Json.string? = ids' at hids
    cases hids with
    | none => rfl
    | some hids => exact single_eq_iff.2 (.inr ⟨_, _, rfl, rfl, hmake hids⟩)
  · rfl

theorem single_ofReference (h : Site.listed.Same schema v w) (left : String) (cardinality : Cardinality) :
    single (ofReference left cardinality v) = single (ofReference left cardinality w) := by
  have hids := h.single_idsOf left fun hperm => effect_ref_perm (.positive cardinality) left none none hperm
  rcases cases_of_digest h with ⟨members, members', rfl, rfl, _⟩ | ⟨items, items', rfl, rfl, _⟩ | rfl
  · rfl
  · exact hids
  · rfl

theorem single_existence (h : Site.listed.Same schema v w) (field : String) (tunnel : Option String) :
    single (existence field tunnel v) = single (existence field tunnel w) := by
  rcases cases_of_digest h with ⟨members, members', rfl, rfl, _⟩ | ⟨items, items', rfl, rfl, _⟩ | rfl <;> rfl

theorem isNull_eq (h : Site.listed.Same schema v w) : v.isNull = w.isNull := by
  rcases cases_of_digest h with ⟨members, members', rfl, rfl, _⟩ | ⟨items, items', rfl, rfl, _⟩ | rfl <;> rfl

theorem single_dataOperator {op : String} (h : (Site.data.member schema op).Same schema v w) (left : String) :
    single (dataOperator left op v) = single (dataOperator left op w) := by
  unfold Site.member at h
  dsimp only at h
  by_cases hscalar : op = "$exists" ∨ (ScalarOp.ofKey? op).isSome = true
  · rw [if_pos hscalar] at h
    rw [show v = w from h]
  · rw [if_neg hscalar] at h
    rw [not_or, Bool.not_eq_true, Option.isSome_eq_false_iff, Option.isNone_iff_eq_none] at hscalar
    unfold dataOperator
    rw [if_neg hscalar.1, if_neg hscalar.1, hscalar.2]
    dsimp only
    cases hlist : ListOp.ofKey? op with
    | none => rfl
    | some listOp =>
      rw [hlist, Option.isSome_some, if_pos rfl] at h
      rcases cases_of_digest h with ⟨members, members', rfl, rfl, _⟩ | ⟨items, items', rfl, rfl, hperm⟩ | rfl
      · rfl
      · exact single_eq_iff.2 (.inr ⟨_, _, rfl, rfl, effect_list_perm listOp left hperm⟩)
      · rfl

theorem single_ofData (h : Site.data.Same schema v w) (left : String) (cardinality : Cardinality) :
    single (ofData left cardinality v) = single (ofData left cardinality w) := by
  rcases cases_of_digest (h left) with ⟨ops, ops', rfl, rfl, hnames, hsum⟩ | ⟨items, items', rfl, rfl, hperm⟩ | rfl
  · cases ops with
    | nil => rw [List.map_eq_nil_iff.1 hnames.nil_eq.symm]
    | cons first rest =>
      obtain ⟨first', rest', rfl⟩ := exists_cons_of_names hnames
      rw [← total_mapM, ← total_mapM] at hsum
      exact single_map_congr effect_all_congr hsum
  · exact single_eq_iff.2 (.inr ⟨_, _, rfl, rfl, effect_list_perm _ left hperm⟩)
  · rfl

theorem total_operator (h : Site.listed.Same schema v w) (rel : Relationship) (op : String) :
    total ((rel.operator op v).map Option.toList) = total ((rel.operator op w).map Option.toList) := by
  -- an operator that is about the pointers gives one filter
  have hsome : ∀ x : Except PlanError Filter, total ((x.map some).map Option.toList) = single x := by
    intro x
    cases x <;> rfl
  have hids : ∀ listOp, total (((idsOf rel.name v).map fun ids => some (rel.reference listOp ids)).map Option.toList) =
      total (((idsOf rel.name w).map fun ids => some (rel.reference listOp ids)).map Option.toList) := by
    intro listOp
    have hmake := h.single_idsOf rel.name fun hperm =>
      effect_ref_perm listOp rel.name (some rel.tables) rel.tunnel hperm
    rw [← hsome, ← hsome] at hmake
    generalize idsOf rel.name v = x at hmake ⊢
    generalize idsOf rel.name w = y at hmake ⊢
    cases x <;> cases y <;> exact hmake
  unfold Relationship.operator
  by_cases hexists : op = "$exists"
  · rw [if_pos hexists, if_pos hexists, hsome, hsome]
    exact h.single_existence rel.name rel.tunnel
  · rw [if_neg hexists, if_neg hexists, h.isNull_eq]
    cases ScalarOp.ofKey? op with
    | none =>
      cases ListOp.ofKey? op with
      | none => rfl
      | some listOp => exact hids listOp
    | some scalarOp =>
      cases scalarOp with
      | eq | ne =>
        dsimp only
        split
        · rfl
        · exact hids _
      | contains | containsNot => exact hids _
      | gt | lt | gte | lte => rfl

theorem effect_operatorsAndNested (rel : Relationship) {parts parts' inner inner' : List Filter}
    (hparts : (parts.map effect).Perm (parts'.map effect)) (hinner : (inner.map effect).Perm (inner'.map effect)) :
    (all (parts ++ [.nested rel.name rel.cardinality rel.tunnel (all inner)])).effect =
      (all (parts' ++ [.nested rel.name rel.cardinality rel.tunnel (all inner')])).effect := by
  refine effect_all_congr ?_
  rw [List.map_append, List.map_append, List.map_singleton, List.map_singleton,
    effect_nested_congr rel.name rel.cardinality rel.tunnel (effect_all_congr hinner)]
  exact hparts.append_right _

/-- The filter of the members of a condition on a link or a role: operators, and conditions on the other end. -/
theorem single_relationshipObject {rel : Relationship} {members members' : List (String × Json)}
    (hnames : (members.map (·.1)).Perm (members'.map (·.1)))
    (hoperators : total (rel.operators members) = total (rel.operators members'))
    (hleftovers : ∀ target, schema.thing? rel.target = some target →
      total (ofLeftovers schema target members) = total (ofLeftovers schema target members')) :
    let object (members : List (String × Json)) : Except PlanError Filter := do
      let parts ← rel.operators members
      if members.all (Relationship.isOperator ·.1) then pure (all parts)
      else do
        let target ← targetThing schema rel.target
        let inner ← ofLeftovers schema target members
        pure (all (parts ++ [.nested rel.name rel.cardinality rel.tunnel (all inner)]))
    single (object members) = single (object members') := by
  intro object
  have hall : members.all (Relationship.isOperator ·.1) = members'.all (Relationship.isOperator ·.1) := by
    have hnamesAll := hnames.all_eq (f := Relationship.isOperator)
    rwa [List.all_map, List.all_map] at hnamesAll
  simp only [object, hall]
  rcases total_eq_iff.1 hoperators with ⟨e, e', hparts, hparts'⟩ | ⟨parts, parts', hparts, hparts', hperm⟩
  · rw [hparts, hparts']
    rfl
  · rw [hparts, hparts']
    cases members'.all (Relationship.isOperator ·.1) with
    | true => exact single_eq_iff.2 (.inr ⟨_, _, rfl, rfl, effect_all_congr hperm⟩)
    | false =>
      unfold targetThing
      cases htarget : schema.thing? rel.target with
      | none => rfl
      | some target =>
        rcases total_eq_iff.1 (hleftovers target htarget) with
          ⟨e, e', hinner, hinner'⟩ | ⟨inner, inner', hinner, hinner', hinnerPerm⟩
        · simp only [bind, Except.bind, hinner, hinner']
          rfl
        · simp only [bind, Except.bind, hinner, hinner']
          exact single_eq_iff.2 (.inr ⟨_, _, rfl, rfl, effect_operatorsAndNested rel hperm hinnerPerm⟩)

theorem single_relationship {key : String} {rel : Relationship}
    (hsubject : subject schema thing key = .ok (.relationship rel))
    (h : (Site.relationship (schema.thing? rel.target)).Same schema v w) :
    single (ofMember schema thing key v) = single (ofMember schema thing key w) := by
  rw [ofMember.eq_def, ofMember.eq_def schema thing key w, hsubject]
  rcases cases_of_digest (h.1 rel) with
    ⟨members, members', rfl, rfl, hnames, hsum⟩ | ⟨items, items', rfl, rfl, hperm⟩ | rfl
  · cases members with
    | nil => rw [List.map_eq_nil_iff.1 hnames.nil_eq.symm]
    | cons first rest =>
      obtain ⟨first', rest', rfl⟩ := exists_cons_of_names hnames
      rw [← rel.total_operators, ← rel.total_operators] at hsum
      refine single_relationshipObject hnames hsum fun target htarget => ?_
      rcases cases_of_digest (h.2 target htarget) with ⟨_, _, hv, hw, _, hsum⟩ | ⟨_, _, hv, _⟩ | heq
      · cases hv
        cases hw
        rwa [total_ofLeftovers, total_ofLeftovers]
      · cases hv
      · cases heq
        rfl
  · have hlisted : Site.listed.Same schema (.array items) (.array items') := Same.items rfl hperm
    exact hlisted.single_idsOf rel.name fun hids => effect_ref_perm _ rel.name (some rel.tables) rel.tunnel hids
  · rfl

/-- What a connective holds says the same, in which way ever it is combined. -/
theorem single_connective {objects lists : List Filter → Filter} {refusal : Json → PlanError}
    (hobjects : ∀ {filters filters' : List Filter}, (filters.map effect).Perm (filters'.map effect) →
      (objects filters).effect = (objects filters').effect)
    (hlists : ∀ {filters filters' : List Filter}, (filters.map effect).Perm (filters'.map effect) →
      (lists filters).effect = (lists filters').effect)
    (h : (Site.filter thing).Same schema v w) :
    let held (v : Json) : Except PlanError Filter :=
      match v with
      | .object members => (ofMembers schema thing members).map objects
      | .array items => (ofItems schema thing items).map lists
      | other => .error (refusal other)
    single (held v) = single (held w) := by
  intro held
  rcases h.totals with ⟨members, members', rfl, rfl, htotal⟩ | ⟨items, items', rfl, rfl, htotal⟩ | rfl
  · exact single_map_congr hobjects htotal
  · exact single_map_congr hlists htotal
  · rfl

/-- Values that say the same under a key of a filter object describe filters with one effect. -/
theorem single_ofMember {key : String} (h : (Site.ofKey schema thing key).Same schema v w) :
    single (ofMember schema thing key v) = single (ofMember schema thing key w) := by
  unfold Site.ofKey at h
  cases hsubject : subject schema thing key with
  | error e =>
    rw [ofMember.eq_def, ofMember.eq_def schema thing key w, hsubject]
    rfl
  | ok s =>
    rw [hsubject] at h
    rw [ofMember.eq_def, ofMember.eq_def schema thing key w, hsubject]
    cases s with
    | disjunction => exact single_connective effect_any_congr effect_any_congr h
    | conjunction => exact single_connective effect_all_congr effect_all_congr h
    | negation =>
      exact single_connective (fun hperm => effect_not_congr (effect_all_congr hperm))
        (fun hperm => effect_not_congr (effect_any_congr hperm)) h
    | data left cardinality => exact single_ofData h left cardinality
    | reference left cardinality => exact single_ofReference h left cardinality
    | relationship rel =>
      have hrelationship := single_relationship hsubject h
      rwa [ofMember.eq_def, ofMember.eq_def schema thing key w, hsubject] at hrelationship

end Built

/-- A member may be replaced by one that says the same at its own site. -/
theorem member {site : Site} {before after : List (String × Json)} {key : String} {v w : Json}
    (h : (site.member schema key).Same schema v w) :
    site.Same schema (.object (before ++ (key, v) :: after)) (.object (before ++ (key, w) :: after)) := by
  cases site with
  | filter thing => exact Json.digest_member (single_ofMember h)
  | data => exact fun left => Json.digest_member (single_dataOperator h left)
  | relationship target =>
    unfold Site.member at h
    dsimp only at h
    cases hoperator : Relationship.isOperator key with
    | true =>
      rw [if_pos hoperator] at h
      refine ⟨fun rel => Json.digest_member (h.total_operator rel key), fun thing _ => Json.digest_member ?_⟩
      rw [leftover, leftover, if_pos hoperator, if_pos hoperator]
    | false =>
      rw [if_neg (by simp [hoperator])] at h
      refine ⟨fun rel => Json.digest_member ?_, ?_⟩
      · rw [Relationship.operator_eq_none hoperator, Relationship.operator_eq_none hoperator]
      · rintro thing rfl
        refine Json.digest_member ?_
        rw [leftover, leftover, if_neg (by simp [hoperator]), if_neg (by simp [hoperator])]
        exact single_ofMember h
  | listed =>
    rw [show v = w from h]
    exact refl _ _
  | operand =>
    rw [show v = w from h]
    exact refl _ _
  | refused => trivial

end Same

end Site

/-- Values that are reordered say the same. -/
theorem Json.Reordered.same {schema : Schema} {site : Site} {v w : Json} (h : Json.Reordered schema site v w) :
    site.Same schema v w := by
  induction h with
  | refl site v => exact .refl site v
  | trans _ _ ih ih' => exact ih.trans ih'
  | refused v w => trivial
  | members hsite h => exact .members hsite h
  | member _ ih => exact .member ih
  | items hsite h => exact .items hsite h
  | item _ ih => exact Json.digest_item ih.single_ofJson

/-- Reordered filters have one effect, or both are refused. -/
theorem Filter.single_eq_of_reordered {schema : Schema} {thing : Thing} {v w : Json}
    (h : Json.Reordered schema (.filter thing) v w) : single (ofJson schema thing v) = single (ofJson schema thing w) :=
  h.same.single_ofJson

end ThingQuery
