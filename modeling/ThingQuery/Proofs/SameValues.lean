import Mathlib.Data.List.Forall2
import ThingQuery.Statement.Params
import ThingQuery.Store.Satisfies

/-!
# Values that are the same

Sameness of values is transitive (`Json.same_trans`).  It is symmetric only where an object has no name twice, so two
values are alike when they are the same both ways.  No comparison of a filter tells alike values apart
(`ScalarOp.test_congr`, `ListOp.test_congr`).
-/

namespace ThingQuery

namespace Json

/-! ### Transitivity -/

theorem same_number_iff {m n : JsonNumber} :
    same (.number m) (.number n) = true ↔
      (∃ i j, m = .int i ∧ n = .int j ∧ i.val = j.val) ∨ ∃ x y, m = .float x ∧ n = .float y ∧ x.value = y.value := by
  rw [same]
  rcases m with i | x <;> rcases n with j | y
  · simp [BEq.beq]
  · simp [BEq.beq]
  · simp [BEq.beq]
  · have hbeq : (JsonNumber.float x == JsonNumber.float y) = (x == y) := rfl
    rw [hbeq, Binary64.beq_iff_value_eq]
    simp

theorem binaryValue_eq_of_same {m n : JsonNumber} (h : same (.number m) (.number n) = true) :
    m.binaryValue = n.binaryValue := by
  rcases same_number_iff.1 h with ⟨i, j, rfl, rfl, hval⟩ | ⟨x, y, rfl, rfl, hval⟩
  · exact congrArg Binary64.valueOfInt hval
  · exact hval

theorem same_number_trans {m n k : JsonNumber} (hmn : same (.number m) (.number n) = true)
    (hnk : same (.number n) (.number k) = true) : same (.number m) (.number k) = true := by
  rw [same_number_iff] at hmn hnk ⊢
  rcases hmn with ⟨i, j, rfl, rfl, hij⟩ | ⟨x, y, rfl, rfl, hxy⟩
  · rcases hnk with ⟨i', j', h, rfl, hij'⟩ | ⟨_, _, h, _⟩
    · cases h
      exact .inl ⟨i, j', rfl, rfl, hij.trans hij'⟩
    · cases h
  · rcases hnk with ⟨_, _, h, _⟩ | ⟨x', y', h, rfl, hxy'⟩
    · cases h
    · cases h
      exact .inr ⟨x, y', rfl, rfl, hxy.trans hxy'⟩

theorem exists_lookup_of_sameMembers {as bs : List (String × Json)} (h : sameMembers as bs = true) {k : String}
    {a : Json} (ha : as.lookup k = some a) : ∃ b, bs.lookup k = some b ∧ same a b = true := by
  induction as with
  | nil => simp at ha
  | cons head rest ih =>
    obtain ⟨name, first⟩ := head
    rw [sameMembers, Bool.and_eq_true] at h
    rw [List.lookup_cons] at ha
    by_cases hk : k = name
    · subst hk
      simp only [beq_self_eq_true, Option.some.injEq] at ha
      subst ha
      cases hb : bs.lookup k with
      | none => simp [hb] at h
      | some b => exact ⟨b, rfl, by simpa [hb] using h.1⟩
    · have hname : (k == name) = false := by simpa using hk
      rw [hname] at ha
      exact ih h.2 ha

mutual

theorem same_trans {a b c : Json} (hab : same a b = true) (hbc : same b c = true) : same a c = true := by
  cases a with
  | null =>
    cases b with
    | null => exact hbc
    | _ => simp [same] at hab
  | bool x =>
    cases b with
    | bool y =>
      have hxy : x = y := by simpa [same] using hab
      rwa [hxy]
    | _ => simp [same] at hab
  | number m =>
    cases b with
    | number n =>
      cases c with
      | number k => exact same_number_trans hab hbc
      | _ => simp [same] at hbc
    | _ => simp [same] at hab
  | string s =>
    cases b with
    | string t =>
      have hst : s = t := by simpa [same] using hab
      rwa [hst]
    | _ => simp [same] at hab
  | array as =>
    cases b with
    | array bs =>
      cases c with
      | array cs =>
        rw [same] at hab hbc ⊢
        exact sameItems_trans hab hbc
      | _ => simp [same] at hbc
    | _ => simp [same] at hab
  | object as =>
    cases b with
    | object bs =>
      cases c with
      | object cs =>
        rw [same, Bool.and_eq_true, beq_iff_eq] at hab hbc ⊢
        exact ⟨hab.1.trans hbc.1, sameMembers_trans hab.2 hbc.2⟩
      | _ => simp [same] at hbc
    | _ => simp [same] at hab

theorem sameItems_trans {as bs cs : List Json} (hab : sameItems as bs = true) (hbc : sameItems bs cs = true) :
    sameItems as cs = true := by
  match as, bs, cs with
  | [], [], _ => exact hbc
  | [], _ :: _, _ => simp [sameItems] at hab
  | _ :: _, [], _ => simp [sameItems] at hab
  | _ :: _, _ :: _, [] => simp [sameItems] at hbc
  | a :: as, b :: bs, c :: cs =>
    rw [sameItems, Bool.and_eq_true] at hab hbc ⊢
    exact ⟨same_trans hab.1 hbc.1, sameItems_trans hab.2 hbc.2⟩

theorem sameMembers_trans {as bs cs : List (String × Json)} (hab : sameMembers as bs = true)
    (hbc : sameMembers bs cs = true) : sameMembers as cs = true := by
  match as with
  | [] => rw [sameMembers]
  | (k, a) :: rest =>
    rw [sameMembers, Bool.and_eq_true] at hab ⊢
    cases hb : bs.lookup k with
    | none => simp [hb] at hab
    | some b =>
      obtain ⟨c, hc, hsame⟩ := exists_lookup_of_sameMembers hbc hb
      have hhead : same a b = true := by simpa [hb] using hab.1
      rw [hc]
      exact ⟨same_trans hhead hsame, sameMembers_trans hab.2 hbc⟩

end

/-! ### Alike values -/

/-- Whether two values are the same, each compared with the other. -/
structure Alike (v w : Json) : Prop where
  forth : (v == w) = true
  back : (w == v) = true

theorem Alike.beq_eq {v w : Json} (h : v.Alike w) (a : Json) : (a == v) = (a == w) :=
  Bool.eq_iff_iff.2 ⟨fun ha => same_trans ha h.forth, fun ha => same_trans ha h.back⟩

theorem Alike.string?_eq {v w : Json} (h : v.Alike w) : v.string? = w.string? := by
  have hvw : same v w = true := h.forth
  cases v with
  | string s =>
    cases w with
    | string t =>
      have hst : s = t := by simpa [same] using hvw
      rw [hst]
    | _ => simp [same] at hvw
  | _ =>
    cases w with
    | string t => simp [same] at hvw
    | _ => rfl

theorem alike_of_sameItems {vs ws : List Json} (hvw : sameItems vs ws = true) (hwv : sameItems ws vs = true) :
    List.Forall₂ Alike vs ws := by
  induction vs generalizing ws with
  | nil =>
    cases ws with
    | nil => exact .nil
    | cons w ws => simp [sameItems] at hvw
  | cons v vs ih =>
    cases ws with
    | nil => simp [sameItems] at hvw
    | cons w ws =>
      rw [sameItems, Bool.and_eq_true] at hvw hwv
      exact .cons ⟨hvw.1, hwv.1⟩ (ih hvw.2 hwv.2)

theorem Alike.array?_getD {v w : Json} (h : v.Alike w) :
    List.Forall₂ Alike (v.array?.getD []) (w.array?.getD []) := by
  have hvw : same v w = true := h.forth
  have hwv : same w v = true := h.back
  cases v with
  | array vs =>
    cases w with
    | array ws =>
      rw [same] at hvw hwv
      exact alike_of_sameItems hvw hwv
    | _ => simp [same] at hvw
  | _ =>
    cases w with
    | array ws => simp [same] at hvw
    | _ => exact .nil

theorem Alike.order?_eq {v w : Json} (h : v.Alike w) (a : Json) : order? a v = order? a w := by
  have hvw : same v w = true := h.forth
  cases a with
  | number k =>
    cases v with
    | number m =>
      cases w with
      | number n => rw [order?, order?, binaryValue_eq_of_same hvw]
      | _ => simp [same] at hvw
    | _ =>
      cases w with
      | number n => simp [same] at hvw
      | _ => rfl
  | string s =>
    have hstring := h.string?_eq
    cases v <;> cases w <;> simp_all [string?, order?]
  | _ => rfl

theorem Alike.isSame_eq {v w : Json} (h : v.Alike w) (actual : Option Json) : isSame actual v = isSame actual w := by
  cases actual with
  | none => rfl
  | some a => exact h.beq_eq a

theorem Alike.orderTo?_eq {v w : Json} (h : v.Alike w) (actual : Option Json) :
    orderTo? actual v = orderTo? actual w := by
  cases actual with
  | none => rfl
  | some a => exact h.order?_eq a

/-- A text holds the text of a value, if the value is one. -/
theorem holds_string (s : String) (v : Json) :
    holds (some (.string s)) v = v.string?.any fun part => occursIn part.toList s.toList := by
  cases v <;> rfl

theorem Alike.holds_eq {v w : Json} (h : v.Alike w) (actual : Option Json) : holds actual v = holds actual w := by
  match actual with
  | some (.array items) =>
    rw [holds, holds]
    exact congrArg (List.any items) (funext h.beq_eq)
  | some (.string s) => rw [holds_string, holds_string, h.string?_eq]
  | none | some .null | some (.bool _) | some (.number _) | some (.object _) => rfl

theorem map_eq_map_of_alike {β : Type} {f : Json → β} (hf : ∀ v w, Alike v w → f v = f w) {vs ws : List Json}
    (h : List.Forall₂ Alike vs ws) : vs.map f = ws.map f := by
  induction h with
  | nil => rfl
  | cons hvw _ ih => rw [List.map_cons, List.map_cons, hf _ _ hvw, ih]

end Json

theorem ScalarOp.test_congr (op : ScalarOp) (actual : Option Json) {v w : Json} (h : v.Alike w) :
    op.test actual v = op.test actual w := by
  unfold test
  rw [h.isSame_eq, h.orderTo?_eq, h.holds_eq]

theorem ListOp.test_congr (op : ListOp) (actual : Option Json) {vs ws : List Json}
    (h : List.Forall₂ Json.Alike vs ws) : op.test actual vs = op.test actual ws := by
  have hsame := Json.map_eq_map_of_alike (fun v w hvw => hvw.isSame_eq actual) h
  have hholds := Json.map_eq_map_of_alike (fun v w hvw => hvw.holds_eq actual) h
  have hanySame : vs.any (Json.isSame actual) = ws.any (Json.isSame actual) := by
    simpa [List.any_map] using congrArg (List.any · id) hsame
  have hanyHolds : vs.any (Json.holds actual) = ws.any (Json.holds actual) := by
    simpa [List.any_map] using congrArg (List.any · id) hholds
  have hallHolds : vs.all (Json.holds actual) = ws.all (Json.holds actual) := by
    simpa [List.all_map] using congrArg (List.all · id) hholds
  cases op <;> simp only [test, hanySame, hanyHolds, hallHolds]

theorem Json.filterMap_string?_congr {vs ws : List Json} (h : List.Forall₂ Alike vs ws) :
    vs.filterMap string? = ws.filterMap string? := by
  have hstrings := map_eq_map_of_alike (fun v w hvw => hvw.string?_eq) h
  simpa [List.filterMap_map] using congrArg (List.filterMap id) hstrings

/-! ### Alike parameters -/

namespace Params

/-- Whether two sets of parameters are equal: they have the same keys with values that are the same, and look for the
next key from the same number. -/
structure Alike (p q : Params) : Prop where
  values : List.Forall₂ (fun a b => a.1 = b.1 ∧ Json.Alike a.2 b.2) p.values.entries q.values.entries
  next : p.next = q.next

theorem lookup_alike {as bs : List (String × Json)}
    (h : List.Forall₂ (fun a b => a.1 = b.1 ∧ Json.Alike a.2 b.2) as bs) (key : String) :
    Option.Rel Json.Alike (as.lookup key) (bs.lookup key) := by
  induction h with
  | nil => exact .none
  | @cons a b _ _ hab _ ih =>
    rw [List.lookup_cons, List.lookup_cons, hab.1]
    cases key == b.1 with
    | true => exact .some hab.2
    | false => exact ih

/-- Alike parameters hold alike values, under the same keys. -/
theorem Alike.get? {p q : Params} (h : p.Alike q) (key : String) : Option.Rel Json.Alike (p.get? key) (q.get? key) :=
  lookup_alike h.values key

end Params

end ThingQuery
