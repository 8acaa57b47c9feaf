import Mathlib.Order.Defs.LinearOrder
import ThingQuery.Store.Order

/-!
# The order of rows is a total preorder

Two values are compared by their standings, in which the rank of the kind comes before the number and the text that tell
values of one kind apart (`Json.compareOptions_eq`).  So any sort keys order rows totally and transitively
(`transCmp_compareByAll`).  Sorting puts every row before the greater ones and leaves rows that no sort key tells apart
as they stood (`stablySorted_sortRows`), and there is no other way to do so (`Ordered.eq_of_alike_eq`).
-/

namespace ThingQuery

open Std (TransCmp OrientedCmp ReflCmp)

namespace Json

/-- What decides the place of a value in the order. -/
structure Standing where
  /-- The rank of the kind; a missing value comes before all kinds. -/
  rank : Nat
  number : Int
  text : String

/-- The standing of a value that may be missing. -/
def standing : Option Json → Standing
  | none => ⟨0, 0, ""⟩
  | some .null => ⟨1, 0, ""⟩
  | some (.bool b) => ⟨2, b.toNat, ""⟩
  | some (.number n) => ⟨3, n.binaryValue, ""⟩
  | some (.string s) => ⟨4, 0, s⟩
  | some (.array _) => ⟨5, 0, ""⟩
  | some (.object _) => ⟨6, 0, ""⟩

/-- The order of standings: by rank, then by number, then by text. -/
def Standing.order : Standing → Standing → Ordering :=
  compareLex (compareOn (·.rank)) (compareLex (compareOn (·.number)) (compareOn (·.text)))

theorem compareOptions_eq (a b : Option Json) : compareOptions a b = (standing a).order (standing b) := by
  have hbool : ∀ x y : Bool, compare x.toNat y.toNat = compare (x.toNat : Int) (y.toNat : Int) := by decide
  -- the ranks settle two values of different kinds, and of one kind all but one part of the standings are the same
  rcases a with _ | (_ | x | m | s | as | as) <;> rcases b with _ | (_ | y | n | t | bs | bs) <;>
    simp [compareOptions, compareValues, standing, Standing.order, compareLex, compareOn, kindRank, hbool] <;> rfl

instance transCmp_order : TransCmp Standing.order :=
  inferInstanceAs
    (TransCmp (compareLex (compareOn Standing.rank) (compareLex (compareOn Standing.number) (compareOn Standing.text))))

instance transCmp_compareOptions : TransCmp compareOptions where
  eq_swap := by
    intro a b
    rw [compareOptions_eq, compareOptions_eq]
    exact OrientedCmp.eq_swap
  isLE_trans := by
    intro a b c hab hbc
    rw [compareOptions_eq] at hab hbc ⊢
    exact TransCmp.isLE_trans hab hbc

end Json

namespace ProjectedRow

/-! ### The laws of the order -/

/-- A descending sort key exchanges the two rows. -/
theorem compareBy_descending (field : String) :
    compareBy ⟨field, .descending⟩ = fun p q => compareBy ⟨field, .ascending⟩ q p := by
  funext p q
  exact OrientedCmp.eq_swap.symm

instance transCmp_compareBy (key : SortKey) : TransCmp (compareBy key) := by
  obtain ⟨field, direction⟩ := key
  have hascending : TransCmp (compareBy ⟨field, .ascending⟩) :=
    { eq_swap := Json.transCmp_compareOptions.eq_swap
      isLE_trans := Json.transCmp_compareOptions.isLE_trans }
  cases direction with
  | ascending => exact hascending
  | descending =>
    rw [compareBy_descending]
    infer_instance

instance transCmp_compareByAll (sort : List SortKey) : TransCmp (compareByAll sort) := by
  induction sort with
  | nil => exact { eq_swap := rfl, isLE_trans := fun _ _ => rfl }
  | cons key rest ih => exact inferInstanceAs (TransCmp (compareLex (compareBy key) (compareByAll rest)))

variable {sort : List SortKey}

theorem compareByAll_total (p q : ProjectedRow) :
    ((compareByAll sort p q).isLE || (compareByAll sort q p).isLE) = true := by
  have hswap : compareByAll sort q p = (compareByAll sort p q).swap := OrientedCmp.eq_swap
  rw [hswap]
  cases compareByAll sort p q <;> rfl

/-! ### Rows in order -/

/-- Every row is at most the later ones. -/
def Ordered (sort : List SortKey) (rows : List ProjectedRow) : Prop :=
  rows.Pairwise fun p q => (compareByAll sort p q).isLE = true

/-- The rows that no sort key tells apart from the given one. -/
def alike (sort : List SortKey) (p : ProjectedRow) (rows : List ProjectedRow) : List ProjectedRow :=
  rows.filter fun q => (compareByAll sort p q).isEq

/-- The rows in the order of the sort keys, where rows that no sort key tells apart keep their order. -/
structure StablySorted (sort : List SortKey) (rows result : List ProjectedRow) : Prop where
  perm : result.Perm rows
  ordered : Ordered sort result
  stable : ∀ p, alike sort p result = alike sort p rows

theorem mem_alike_iff {p q : ProjectedRow} {rows : List ProjectedRow} :
    q ∈ alike sort p rows ↔ q ∈ rows ∧ compareByAll sort p q = .eq := by
  rw [alike, List.mem_filter, Ordering.isEq_iff_eq_eq]

theorem alike_cons_of_eq {p q : ProjectedRow} (h : compareByAll sort p q = .eq) (rows : List ProjectedRow) :
    alike sort p (q :: rows) = q :: alike sort p rows :=
  List.filter_cons_of_pos (Ordering.isEq_iff_eq_eq.2 h)

theorem alike_cons_of_ne {p q : ProjectedRow} (h : compareByAll sort p q ≠ .eq) (rows : List ProjectedRow) :
    alike sort p (q :: rows) = alike sort p rows :=
  List.filter_cons_of_neg fun heq => h (Ordering.isEq_iff_eq_eq.1 heq)

theorem alike_alike (p : ProjectedRow) (rows : List ProjectedRow) :
    alike sort p (alike sort p rows) = alike sort p rows := by
  simp only [alike, List.filter_filter, Bool.and_self]

theorem ordered_alike (p : ProjectedRow) (rows : List ProjectedRow) : Ordered sort (alike sort p rows) := by
  refine List.pairwise_of_forall_mem_list fun q hq r hr => ?_
  -- a row like `p` compares with the others as `p` does
  have hqr : compareByAll sort q r = .eq := by
    rw [← TransCmp.congr_left (mem_alike_iff.1 hq).2, (mem_alike_iff.1 hr).2]
  rw [hqr]
  rfl

theorem stablySorted_sortRows (sort : List SortKey) (rows : List ProjectedRow) :
    StablySorted sort rows (sortRows sort rows) := by
  have htrans : ∀ p q r, (compareByAll sort p q).isLE = true → (compareByAll sort q r).isLE = true →
      (compareByAll sort p r).isLE = true := fun _ _ _ => TransCmp.isLE_trans
  have hperm : (sortRows sort rows).Perm rows := List.mergeSort_perm _ _
  refine ⟨hperm, List.pairwise_mergeSort htrans compareByAll_total rows, fun p => ?_⟩
  -- the rows like `p` are in order as they stand, so that they go through the sort as a sublist
  have hkept : (alike sort p rows).Sublist (sortRows sort rows) :=
    List.sublist_mergeSort htrans compareByAll_total (ordered_alike p rows) List.filter_sublist
  have hsublist : (alike sort p rows).Sublist (alike sort p (sortRows sort rows)) := by
    have := hkept.filter fun q => (compareByAll sort p q).isEq
    rwa [← alike, alike_alike] at this
  exact (hsublist.eq_of_length (hperm.filter _).length_eq.symm).symm

theorem mem_of_alike_eq {p : ProjectedRow} {rows others : List ProjectedRow} (hp : p ∈ rows)
    (h : alike sort p rows = alike sort p others) : p ∈ others := by
  have hmem : p ∈ alike sort p rows := mem_alike_iff.2 ⟨hp, ReflCmp.compare_self⟩
  rw [h] at hmem
  exact (mem_alike_iff.1 hmem).1

/-- The first row is at most every row. -/
theorem Ordered.head_le {p q : ProjectedRow} {rows : List ProjectedRow} (h : Ordered sort (p :: rows))
    (hq : q ∈ p :: rows) : (compareByAll sort p q).isLE = true := by
  rcases List.mem_cons.1 hq with rfl | hq
  · exact ReflCmp.isLE_rfl
  · exact (List.pairwise_cons.1 h).1 q hq

/-- Rows in order are known from the rows that are like each row. -/
theorem Ordered.eq_of_alike_eq {rows others : List ProjectedRow} (hrows : Ordered sort rows)
    (hothers : Ordered sort others) (h : ∀ p, alike sort p rows = alike sort p others) : rows = others := by
  induction rows generalizing others with
  | nil =>
    cases others with
    | nil => rfl
    | cons q others => exact absurd (mem_of_alike_eq List.mem_cons_self (h q).symm) List.not_mem_nil
  | cons p rows ih =>
    cases others with
    | nil => exact absurd (mem_of_alike_eq List.mem_cons_self (h p)) List.not_mem_nil
    | cons q others =>
      have hpq := hrows.head_le (mem_of_alike_eq List.mem_cons_self (h q).symm)
      have hqp := hothers.head_le (mem_of_alike_eq List.mem_cons_self (h p))
      have heq : compareByAll sort p q = .eq := OrientedCmp.isLE_antisymm hpq hqp
      -- each of the two first rows is the first of the rows like `p`
      have hfirst := h p
      rw [alike_cons_of_eq ReflCmp.compare_self, alike_cons_of_eq heq] at hfirst
      obtain ⟨rfl, _⟩ := List.cons.inj hfirst
      rw [ih (List.pairwise_cons.1 hrows).2 (List.pairwise_cons.1 hothers).2 fun r => ?_]
      have hr := h r
      by_cases hrp : compareByAll sort r p = .eq
      · rw [alike_cons_of_eq hrp, alike_cons_of_eq hrp] at hr
        exact (List.cons.inj hr).2
      · rwa [alike_cons_of_ne hrp, alike_cons_of_ne hrp] at hr

/-- Sort keys order rows totally and transitively, and the rows in order are the only ones of which each is at most the
later ones and where rows that are not told apart keep their order. -/
theorem lawful_compareByAll_and_stablySorted_iff (sort : List SortKey) :
    (∀ p, compareByAll sort p p = .eq) ∧
    (∀ p q, (compareByAll sort p q).isLE = true ∨ (compareByAll sort q p).isLE = true) ∧
    (∀ p q r, (compareByAll sort p q).isLE = true → (compareByAll sort q r).isLE = true →
      (compareByAll sort p r).isLE = true) ∧
    (∀ p q, compareByAll sort q p = (compareByAll sort p q).swap) ∧
    ∀ rows result, StablySorted sort rows result ↔ result = sortRows sort rows := by
  refine ⟨fun _ => ReflCmp.compare_self, fun p q => Bool.or_eq_true_iff.1 (compareByAll_total p q),
    fun _ _ _ => TransCmp.isLE_trans, fun _ _ => OrientedCmp.eq_swap, fun rows result => ?_⟩
  have hsorted := stablySorted_sortRows sort rows
  constructor
  · intro hresult
    exact hresult.ordered.eq_of_alike_eq hsorted.ordered fun p => (hresult.stable p).trans (hsorted.stable p).symm
  · rintro rfl
    exact hsorted

end ProjectedRow

end ThingQuery
