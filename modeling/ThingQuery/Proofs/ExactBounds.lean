import Mathlib.Algebra.Order.Field.Basic
import Mathlib.Algebra.Order.Field.Rat
import ThingQuery.Plan.Bounds

/-!
# Bounds as exact numbers

A limit or an offset stands for the natural number below `2 ^ 64` that the given number is exactly (`Page.Denotes`).
Such a number is read as it is, and everything else is refused, except for the floating-point number `2 ^ 64`, which is
read as the number before it (`Page.parseBound_eq_ok_iff`).
-/

namespace ThingQuery

/-! ### Exact values -/

/-- A number is a natural number when it is not below zero and its magnitude is that number; both zeros are. -/
theorem Binary64.value_eq_natCast_mul_iff {x : Binary64} {n : Nat} :
    x.value = n * unitsPerOne ↔ 0 ≤ x.value ∧ x.magnitude.toNat? = some n := by
  rw [Magnitude.toNat?_eq_some_iff, ← Int.natCast_mul]
  unfold value
  generalize n * unitsPerOne = units
  split <;> omega

namespace JsonNumber

/-- The exact value; a floating-point number is not rounded further. -/
def exactValue : JsonNumber → ℚ
  | .int i => i.val
  | .float x => x.value / unitsPerOne

theorem exactValue_int_eq_iff {i : JsonInt} {n : Nat} : (int i).exactValue = n ↔ i.val = n := by
  rw [exactValue]
  exact_mod_cast Iff.rfl

theorem exactValue_float_eq_iff {x : Binary64} {n : Nat} :
    (float x).exactValue = n ↔ 0 ≤ x.value ∧ x.magnitude.toNat? = some n := by
  have hpos : (unitsPerOne : ℚ) ≠ 0 := Nat.cast_ne_zero.2 unitsPerOne_pos.ne'
  rw [exactValue, div_eq_iff hpos, ← Binary64.value_eq_natCast_mul_iff]
  exact_mod_cast Iff.rfl

end JsonNumber

namespace Page

/-! ### What a bound stands for -/

/-- The value stands for a bound: for none if it is missing or null, and otherwise for the number that it is. -/
inductive Denotes : Option Json → Option Nat → Prop where
  | missing : Denotes none none
  | null : Denotes (some .null) none
  /-- The number is a natural number that fits in 64 bits. -/
  | number {number : JsonNumber} {n : Nat} (hvalue : number.exactValue = n) (hfits : n < 2 ^ 64) :
    Denotes (some (.number number)) (some n)

/-- The value is the number `2 ^ 64`, the first one that does not fit. -/
def PastGreatest (v : Option Json) : Prop :=
  ∃ number : JsonNumber, v = some (.number number) ∧ number.exactValue = (2 ^ 64 : Nat)

theorem PastGreatest.not_denotes {v : Option Json} (h : PastGreatest v) (b : Option Nat) : ¬ Denotes v b := by
  obtain ⟨number, rfl, hvalue⟩ := h
  rintro (_ | _ | ⟨hvalue', hfits⟩)
  rw [hvalue] at hvalue'
  have heq := Nat.cast_injective hvalue'
  omega

/-! ### How a bound is read -/

variable {bound : Bound} {v limit offset : Option Json} {b : Option Nat}

theorem maxBound_add_one : maxBound + 1 = 2 ^ 64 := rfl

theorem parseBound_int_eq_ok_iff {i : JsonInt} :
    parseBound bound (some (.number (.int i))) = .ok b ↔
      ∃ n : Nat, (JsonNumber.int i).exactValue = n ∧ n ≤ maxBound ∧ b = some n := by
  have hupper : i.val ≤ maxBound := Int.le_of_lt_add_one i.upper
  simp only [JsonNumber.exactValue_int_eq_iff]
  rw [parseBound]
  split
  · rename_i hnonneg
    constructor
    · rintro ⟨⟩
      exact ⟨i.val.toNat, by omega, by omega, rfl⟩
    · rintro ⟨n, hn, _, rfl⟩
      rw [hn, Int.toNat_natCast]
  · rename_i hneg
    constructor
    · rintro ⟨⟩
    · rintro ⟨n, hn, _, rfl⟩
      omega

theorem parseBound_float_eq_ok_iff {x : Binary64} :
    parseBound bound (some (.number (.float x))) = .ok b ↔
      ∃ n : Nat, (JsonNumber.float x).exactValue = n ∧ n ≤ maxBound + 1 ∧ b = some (min n maxBound) := by
  simp only [JsonNumber.exactValue_float_eq_iff]
  rw [parseBound, ofFloat]
  cases x.magnitude.toNat? with
  | none => by_cases hneg : x.value < 0 <;> simp [hneg, Except.map]
  | some n =>
    by_cases hneg : x.value < 0
    · simp [hneg, Int.not_le.2 hneg, Except.map]
    · by_cases hn : n ≤ maxBound + 1
      · simp [hneg, hn, Int.not_lt.1 hneg, Except.map, eq_comm]
      · simp [hneg, hn, Except.map]

/-- A number gives the natural number that it is, where `2 ^ 64` counts as the greatest bound. -/
theorem parseBound_number_eq_ok_iff {number : JsonNumber} :
    parseBound bound (some (.number number)) = .ok b ↔
      ∃ n : Nat, number.exactValue = n ∧ n ≤ maxBound + 1 ∧ b = some (min n maxBound) := by
  cases number with
  | float x => exact parseBound_float_eq_ok_iff
  | int i =>
    rw [parseBound_int_eq_ok_iff]
    refine exists_congr fun n => and_congr_right fun hvalue => ?_
    -- an integer that is kept as one is never greater than the greatest bound
    have hupper := i.upper
    rw [JsonNumber.exactValue_int_eq_iff] at hvalue
    have hn : n ≤ maxBound := by
      have := maxBound_add_one
      omega
    rw [Nat.min_eq_left hn]
    exact and_congr_left fun _ => ⟨fun _ => by omega, fun _ => hn⟩

theorem parseBound_eq_ok_iff :
    parseBound bound v = .ok b ↔ Denotes v b ∨ PastGreatest v ∧ b = some maxBound := by
  constructor
  · intro h
    match v with
    | none =>
      cases h
      exact .inl .missing
    | some .null =>
      cases h
      exact .inl .null
    | some (.number number) =>
      obtain ⟨n, hvalue, hn, rfl⟩ := parseBound_number_eq_ok_iff.1 h
      rcases Nat.lt_or_eq_of_le hn with hlt | rfl
      · rw [Nat.min_eq_left (Nat.le_of_lt_succ hlt)]
        exact .inl (.number hvalue hlt)
      · exact .inr ⟨⟨number, rfl, hvalue⟩, by rw [Nat.min_eq_right (Nat.le_succ _)]⟩
    | some (.bool _) | some (.string _) | some (.array _) | some (.object _) => cases h
  · rintro (hdenotes | ⟨⟨number, rfl, hvalue⟩, rfl⟩)
    · cases hdenotes with
      | missing => rfl
      | null => rfl
      | @number number n hvalue hfits =>
        have hn : n ≤ maxBound := Nat.le_of_lt_succ hfits
        exact parseBound_number_eq_ok_iff.2 ⟨n, hvalue, Nat.le_succ_of_le hn, by rw [Nat.min_eq_left hn]⟩
    · rw [← maxBound_add_one] at hvalue
      exact parseBound_number_eq_ok_iff.2 ⟨_, hvalue, Nat.le_refl _, by rw [Nat.min_eq_right (Nat.le_succ _)]⟩

theorem parse_eq_ok_iff {page : Page} :
    parse limit offset = .ok page ↔
      parseBound .limit limit = .ok page.limit ∧ parseBound .offset offset = .ok page.offset := by
  unfold parse
  cases parseBound .limit limit with
  | error e => simp [bind, Except.bind]
  | ok l =>
    cases parseBound .offset offset with
    | error e => simp [bind, Except.bind]
    | ok o =>
      cases page
      simp [bind, Except.bind, pure, Except.pure]

/-! ### Exact pages -/

/-- The page has exactly the bounds that the values stand for, and values that do not stand for bounds are refused. -/
structure ReadExactly (limit offset : Option Json) : Prop where
  accepted : ∀ page, parse limit offset = .ok page ↔ Denotes limit page.limit ∧ Denotes offset page.offset
  refused : (¬∃ page : Page, Denotes limit page.limit ∧ Denotes offset page.offset) →
    ∃ e, parse limit offset = .error e ∧ e.code = "BQL_INVALID_PAGINATION"

/-- The value stands for a bound or is the number `2 ^ 64`. -/
def Admissible (v : Option Json) : Prop := (∃ b, Denotes v b) ∨ PastGreatest v

/-- One bound is `2 ^ 64`, and neither keeps the page from being accepted. -/
def Overshoots (limit offset : Option Json) : Prop :=
  (PastGreatest limit ∨ PastGreatest offset) ∧ Admissible limit ∧ Admissible offset

theorem admissible_iff (bound : Bound) : Admissible v ↔ ∃ b, parseBound bound v = .ok b := by
  simp only [Admissible, parseBound_eq_ok_iff, exists_or, exists_and_left, exists_eq, and_true]

theorem denotes_of_parse (h : ¬ Overshoots limit offset) {page : Page} (hpage : parse limit offset = .ok page) :
    Denotes limit page.limit ∧ Denotes offset page.offset := by
  obtain ⟨hlimit, hoffset⟩ := parse_eq_ok_iff.1 hpage
  have hadmissible : Admissible limit ∧ Admissible offset :=
    ⟨(admissible_iff _).2 ⟨_, hlimit⟩, (admissible_iff _).2 ⟨_, hoffset⟩⟩
  rcases parseBound_eq_ok_iff.1 hlimit with hlimit | ⟨hpast, _⟩
  · rcases parseBound_eq_ok_iff.1 hoffset with hoffset | ⟨hpast, _⟩
    · exact ⟨hlimit, hoffset⟩
    · exact absurd ⟨.inr hpast, hadmissible⟩ h
  · exact absurd ⟨.inl hpast, hadmissible⟩ h

/-- Bounds are read exactly unless `2 ^ 64` is among those of an accepted page. -/
theorem readExactly_iff (limit offset : Option Json) : ReadExactly limit offset ↔ ¬ Overshoots limit offset := by
  constructor
  · rintro ⟨haccepted, _⟩ ⟨hpast, hlimit, hoffset⟩
    obtain ⟨l, hl⟩ := (admissible_iff .limit).1 hlimit
    obtain ⟨o, ho⟩ := (admissible_iff .offset).1 hoffset
    obtain ⟨hlimit, hoffset⟩ := (haccepted ⟨l, o⟩).1 (parse_eq_ok_iff.2 ⟨hl, ho⟩)
    rcases hpast with hpast | hpast
    · exact hpast.not_denotes l hlimit
    · exact hpast.not_denotes o hoffset
  · intro h
    refine ⟨fun page => ⟨denotes_of_parse h, fun ⟨hlimit, hoffset⟩ => ?_⟩, fun hnone => ?_⟩
    · exact parse_eq_ok_iff.2 ⟨parseBound_eq_ok_iff.2 (.inl hlimit), parseBound_eq_ok_iff.2 (.inl hoffset)⟩
    · cases hparse : parse limit offset with
      | ok page => exact absurd ⟨page, denotes_of_parse h hparse⟩ hnone
      | error e => exact ⟨e, rfl, code_of_parse hparse⟩

/-- The number `2 ^ 64`, which is kept as a floating-point number since it does not fit. -/
def firstTooGreat : JsonNumber :=
  .float ⟨false, 2 ^ 64 * unitsPerOne, ⟨1, 1138, twoPow_pos 53, by decide +kernel⟩, by decide +kernel⟩

theorem exactValue_firstTooGreat : firstTooGreat.exactValue = (2 ^ 64 : Nat) := by
  unfold firstTooGreat
  rw [JsonNumber.exactValue_float_eq_iff, Magnitude.toNat?_eq_some_iff, Binary64.value]
  exact ⟨Int.natCast_nonneg _, rfl⟩

/-- The limit `2 ^ 64` is not refused but taken for the number before it. -/
theorem not_readExactly_firstTooGreat :
    parse (some (.number firstTooGreat)) none = .ok ⟨some 18446744073709551615, none⟩ ∧
      ¬ ReadExactly (some (.number firstTooGreat)) none := by
  have hpast : PastGreatest (some (.number firstTooGreat)) := ⟨_, rfl, exactValue_firstTooGreat⟩
  have hparse : parse (some (.number firstTooGreat)) none = .ok ⟨some 18446744073709551615, none⟩ :=
    parse_eq_ok_iff.2 ⟨parseBound_eq_ok_iff.2 (.inr ⟨hpast, rfl⟩), rfl⟩
  exact ⟨hparse, fun hexact => hpast.not_denotes _ ((hexact.accepted _).1 hparse).1⟩

end Page

end ThingQuery
