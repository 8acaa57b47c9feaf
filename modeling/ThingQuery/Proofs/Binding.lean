import Mathlib.Data.List.Nodup
import Mathlib.Data.List.Perm.Subperm
import ThingQuery.Statement.Fragment

/-!
# Binding values

A bound value stays under its key.  A new value gets a key that is not in use: among one number more than there are
keys some number is free (`Params.get?_key_freeNumber`).  So the parameters after writing a fragment extend those
before (`Fragment.extends_write`).  Which key comes next depends on the keys alone, not on the values.
-/

namespace ThingQuery

/-! ### Keys of maps -/

namespace NameMap

variable {α β : Type}

theorem isSome_get?_iff {m : NameMap α} {key : String} : (m.get? key).isSome = true ↔ key ∈ m.keys := by
  unfold get? keys
  induction m.entries with
  | nil => simp
  | cons head rest ih =>
    rw [List.lookup_cons]
    by_cases h : key = head.1
    · simp [h]
    · have hb : (key == head.1) = false := by simpa using h
      simp [hb, h, ih]

theorem get?_eq_none_iff {m : NameMap α} {key : String} : m.get? key = none ↔ key ∉ m.keys := by
  rw [← isSome_get?_iff, Option.isSome_iff_ne_none, not_not]

theorem length_keys (m : NameMap α) : m.keys.length = m.size := List.length_map _

/-- Which keys there are after an insertion depends on the keys alone. -/
theorem keys_insert_congr {m : NameMap α} {n : NameMap β} (h : m.keys = n.keys) (key : String) (v : α) (w : β) :
    (m.insert key v).keys = (n.insert key w).keys := by
  have hentries : ∀ (as : List (String × α)) (bs : List (String × β)), as.map (·.1) = bs.map (·.1) →
      (insertNamed key v as).map (·.1) = (insertNamed key w bs).map (·.1) := by
    intro as
    induction as with
    | nil =>
      intro bs hbs
      have : bs = [] := by simpa using hbs.symm
      subst this
      rfl
    | cons a as ih =>
      intro bs hbs
      cases bs with
      | nil => simp at hbs
      | cons b bs =>
        obtain ⟨k, v'⟩ := a
        obtain ⟨k', w'⟩ := b
        simp only [List.map_cons, List.cons.injEq] at hbs
        obtain ⟨rfl, hrest⟩ := hbs
        have hrec := ih bs hrest
        unfold insertNamed
        by_cases hlt : key < k
        · simp [hlt, hrest]
        · by_cases heq : key = k
          · simp [heq, hrest]
          · simp [hlt, heq, hrec]
  exact hentries m.entries n.entries h

end NameMap

/-! ### Free keys -/

namespace Params

theorem key_inj {m n : Nat} (h : key m = key n) : m = n := by
  have hdigits : Nat.toDigits 10 m = Nat.toDigits 10 n := by
    have := congrArg String.toList h
    simpa [key] using this
  rw [← Nat.ofDigitChars_ten_toDigits (n := m), hdigits, Nat.ofDigitChars_ten_toDigits]

/-- The search ends at a free number, unless all numbers in its range are taken. -/
theorem freeFrom_free_or_taken (values : NameMap Json) (room n : Nat) :
    values.get? (key (freeFrom values room n)) = none ∨ ∀ i, n ≤ i → i < n + room → key i ∈ values.keys := by
  induction room generalizing n with
  | zero => exact .inr fun i hle hlt => by omega
  | succ room ih =>
    unfold freeFrom
    split
    · rename_i hnone
      exact .inl (by simpa using hnone)
    · rename_i hsome
      have hn : key n ∈ values.keys := NameMap.isSome_get?_iff.1 (by simpa [Option.isSome_iff_ne_none] using hsome)
      rcases ih (n + 1) with hfree | htaken
      · exact .inl hfree
      · refine .inr fun i hle hlt => ?_
        by_cases hi : i = n
        · exact hi ▸ hn
        · exact htaken i (by omega) (by omega)

theorem get?_key_freeNumber (params : Params) : params.get? (key params.freeNumber) = none := by
  rcases freeFrom_free_or_taken params.values (params.values.size + 1) params.next with hfree | htaken
  · exact hfree
  · -- otherwise there would be more keys than there are
    have hsub : (List.range' params.next (params.values.size + 1)).map key ⊆ params.values.keys := by
      intro k hk
      obtain ⟨i, hi, rfl⟩ := List.mem_map.1 hk
      have hrange := List.mem_range'_1.1 hi
      exact htaken i hrange.1 hrange.2
    have hnodup : ((List.range' params.next (params.values.size + 1)).map key).Nodup :=
      List.Nodup.map (fun _ _ => key_inj) List.nodup_range'
    have hlength := (List.subperm_of_subset hnodup hsub).length_le
    rw [List.length_map, List.length_range', NameMap.length_keys] at hlength
    omega

/-! ### Extensions -/

/-- Whether all that is bound stays bound to the same value. -/
def Extends (later earlier : Params) : Prop := ∀ k v, earlier.get? k = some v → later.get? k = some v

theorem Extends.refl (params : Params) : params.Extends params := fun _ _ h => h

theorem Extends.trans {p q r : Params} (hqr : r.Extends q) (hpq : q.Extends p) : r.Extends p :=
  fun k v h => hqr k v (hpq k v h)

theorem get?_bind_self (params : Params) (value : Json) :
    (params.bind value).2.get? (key params.freeNumber) = some value :=
  NameMap.get?_insert_self _ _ _

/-- A value under a free key leaves all others as they are. -/
theorem extends_of_get?_eq_none {params : Params} {name : String} (h : params.get? name = none) (value : Json)
    (next : Nat) : Extends ⟨params.values.insert name value, next⟩ params := by
  intro k v hk
  have hne : k ≠ name := by
    rintro rfl
    rw [h] at hk
    cases hk
  exact (NameMap.get?_insert_of_ne params.values value hne).trans hk

theorem extends_bind (params : Params) (value : Json) : (params.bind value).2.Extends params :=
  extends_of_get?_eq_none params.get?_key_freeNumber value _

/-! ### Parameters with the same keys -/

/-- Whether two sets of parameters have the same keys and look for the next one from the same number. -/
structure SameKeys (p q : Params) : Prop where
  keys : p.values.keys = q.values.keys
  next : p.next = q.next

theorem SameKeys.refl (params : Params) : params.SameKeys params := ⟨rfl, rfl⟩

theorem freeFrom_congr {m n : NameMap Json} (h : m.keys = n.keys) (room i : Nat) :
    freeFrom m room i = freeFrom n room i := by
  have hnone : ∀ k, (m.get? k).isNone = (n.get? k).isNone := by
    intro k
    have hsome : (m.get? k).isSome = (n.get? k).isSome :=
      Bool.eq_iff_iff.2 (by rw [NameMap.isSome_get?_iff, NameMap.isSome_get?_iff, h])
    rw [← Option.not_isSome, ← Option.not_isSome, hsome]
  induction room generalizing i with
  | zero => rfl
  | succ room ih => simp only [freeFrom, hnone, ih]

theorem SameKeys.freeNumber_eq {p q : Params} (h : p.SameKeys q) : p.freeNumber = q.freeNumber := by
  unfold freeNumber
  rw [← NameMap.length_keys, ← NameMap.length_keys, h.keys, h.next]
  exact freeFrom_congr h.keys _ _

theorem SameKeys.bind {p q : Params} (h : p.SameKeys q) (v w : Json) :
    (p.bind v).1 = (q.bind w).1 ∧ (p.bind v).2.SameKeys (q.bind w).2 := by
  have hnumber := h.freeNumber_eq
  refine ⟨?_, ?_, ?_⟩
  · exact congrArg (fun n => "$" ++ key n) hnumber
  · change (p.values.insert (key p.freeNumber) v).keys = (q.values.insert (key q.freeNumber) w).keys
    rw [hnumber]
    exact NameMap.keys_insert_congr h.keys _ v w
  · exact congrArg (· + 1) hnumber

end Params

/-! ### Writing -/

namespace Fragment

@[simp]
theorem write_nil (params : Params) : write params [] = ("", params) := rfl

@[simp]
theorem write_text (params : Params) (s : String) (rest : Fragment) :
    write params (.text s :: rest) = (s ++ (write params rest).1, (write params rest).2) := rfl

@[simp]
theorem write_value (params : Params) (v : Json) (rest : Fragment) :
    write params (.value v :: rest) =
      ((params.bind v).1 ++ (write (params.bind v).2 rest).1, (write (params.bind v).2 rest).2) := rfl

theorem write_append (params : Params) (f g : Fragment) :
    write params (f ++ g) =
      ((write params f).1 ++ (write (write params f).2 g).1, (write (write params f).2 g).2) := by
  induction f generalizing params with
  | nil => simp
  | cons piece rest ih => cases piece <;> simp [ih, String.append_assoc]

theorem extends_write (params : Params) (f : Fragment) : (write params f).2.Extends params := by
  induction f generalizing params with
  | nil => exact .refl params
  | cons piece rest ih =>
    cases piece with
    | text s => exact ih params
    | value v => exact (ih _).trans (params.extends_bind v)

end Fragment

end ThingQuery
