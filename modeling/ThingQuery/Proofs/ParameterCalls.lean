import ThingQuery.Proofs.Numbering

/-!
# Calls on parameters

A caller binds values under fresh keys and inserts values under keys of its own choice, in any order.  Looking for a
fresh key tries one number after the other and ends (`Params.finds_freeNumber`), also where the caller has taken the
next keys.  What is bound stays bound (`Params.extends_after`), so that no two placeholders are the same
(`Params.nodup_placeholders`), and the number of keys grows with every call that binds one (`Params.size_after`).
-/

namespace ThingQuery

theorem NameMap.size_insert {α : Type} {m : NameMap α} {key : String} (value : α) (h : m.get? key = none) :
    (m.insert key value).size = m.size + 1 := by
  rw [← length_keys, ← length_keys, (keys_insert_perm value h).length_eq, List.length_cons]

namespace Params

/-! ### Looking for a key -/

/-- Looking for a free key from a number on, one number after the other, ends at the number `found`. -/
inductive Finds (values : NameMap Json) : Nat → Nat → Prop
  | free {n : Nat} (hfree : values.get? (key n) = none) : Finds values n n
  | taken {n found : Nat} (htaken : values.get? (key n) ≠ none) (hnext : Finds values (n + 1) found) :
    Finds values n found

theorem finds_freeFrom {values : NameMap Json} {room n : Nat} (h : values.get? (key (freeFrom values room n)) = none) :
    Finds values n (freeFrom values room n) := by
  induction room generalizing n with
  | zero => exact .free h
  | succ room ih =>
    unfold freeFrom at h ⊢
    by_cases hn : (values.get? (key n)).isNone = true
    · rw [if_pos hn]
      exact .free (Option.isNone_iff_eq_none.1 hn)
    · rw [if_neg hn] at h ⊢
      exact .taken (fun hnone => hn (Option.isNone_iff_eq_none.2 hnone)) (ih h)

/-- The search for a key ends, and binding uses the number at which it ends. -/
theorem finds_freeNumber (params : Params) : Finds params.values params.next params.freeNumber :=
  finds_freeFrom params.get?_key_freeNumber

/-! ### Single calls -/

theorem size_bind (params : Params) (value : Json) : (params.bind value).2.size = params.size + 1 :=
  NameMap.size_insert value params.get?_key_freeNumber

theorem insert_of_ne_none {params : Params} {name : String} (h : params.get? name ≠ none) (value : Json) :
    params.insert name value = (false, params) :=
  if_pos (Option.isSome_iff_ne_none.2 h)

theorem insert_of_eq_none {params : Params} {name : String} (h : params.get? name = none) (value : Json) :
    params.insert name value = (true, { params with values := params.values.insert name value }) := by
  have hfree : ¬(params.values.get? name).isSome = true := by
    rw [show params.values.get? name = none from h]
    exact Bool.false_ne_true
  exact if_neg hfree

theorem extends_insert (params : Params) (name : String) (value : Json) :
    (params.insert name value).2.Extends params := by
  by_cases hname : params.get? name = none
  · rw [insert_of_eq_none hname]
    exact extends_of_get?_eq_none hname value params.next
  · rw [insert_of_ne_none hname]
    exact .refl params

/-- What is free later was free before. -/
theorem Extends.get?_eq_none {later earlier : Params} (h : later.Extends earlier) {name : String}
    (hname : later.get? name = none) : earlier.get? name = none := by
  cases hearlier : earlier.get? name with
  | none => rfl
  | some v =>
    rw [h name v hearlier] at hname
    cases hname

/-- A call that may bind a value. -/
inductive Call where
  | bind (value : Json)
  | insert (name : String) (value : Json)

/-- The answer to a call. -/
inductive Answer where
  | placeholder (text : String)
  /-- Whether the key was free. -/
  | inserted (free : Bool)
  deriving DecidableEq

namespace Answer

/-- The placeholder in an answer. -/
def placeholder? : Answer → Option String
  | .placeholder text => some text
  | .inserted _ => none

/-- Whether the call has bound a key. -/
def binds : Answer → Bool
  | .placeholder _ => true
  | .inserted free => free

end Answer

/-- The answer to a call and the parameters after it. -/
def serve (params : Params) : Call → Answer × Params
  | .bind value => ((params.bind value).map .placeholder id)
  | .insert name value => ((params.insert name value).map .inserted id)

theorem extends_serve (params : Params) (call : Call) : (params.serve call).2.Extends params := by
  cases call with
  | bind value => exact params.extends_bind value
  | insert name value => exact params.extends_insert name value

theorem size_serve (params : Params) (call : Call) :
    (params.serve call).2.size = params.size + (params.serve call).1.binds.toNat := by
  cases call with
  | bind value => exact params.size_bind value
  | insert name value =>
    by_cases hname : params.get? name = none
    · simp only [serve, insert_of_eq_none hname]
      exact NameMap.size_insert value hname
    · simp only [serve, insert_of_ne_none hname]
      rfl

/-! ### Calls one after the other -/

/-- The answers to calls that are made one after the other. -/
def answers (params : Params) : List Call → List Answer
  | [] => []
  | call :: later => (params.serve call).1 :: (params.serve call).2.answers later

/-- The parameters after calls that are made one after the other. -/
def after (params : Params) : List Call → Params
  | [] => params
  | call :: later => (params.serve call).2.after later

/-- The placeholders in the answers to calls. -/
def placeholders (params : Params) (calls : List Call) : List String :=
  (params.answers calls).filterMap Answer.placeholder?

theorem after_append (params : Params) (earlier later : List Call) :
    params.after (earlier ++ later) = (params.after earlier).after later := by
  induction earlier generalizing params with
  | nil => rfl
  | cons call earlier ih => exact ih _

theorem extends_after (params : Params) (calls : List Call) : (params.after calls).Extends params := by
  induction calls generalizing params with
  | nil => exact .refl params
  | cons call later ih => exact (ih _).trans (params.extends_serve call)

theorem size_after (params : Params) (calls : List Call) :
    (params.after calls).size = params.size + (params.answers calls).countP Answer.binds := by
  induction calls generalizing params with
  | nil => rfl
  | cons call later ih =>
    have hlater := ih (params.serve call).2
    have hcall := params.size_serve call
    simp only [after, answers, List.countP_cons]
    cases hbinds : (params.serve call).1.binds <;> simp [hbinds] at hcall ⊢ <;> omega

/-- A placeholder stands for a key that was free before the calls. -/
theorem get?_eq_none_of_mem_placeholders {params : Params} {calls : List Call} {name : String}
    (h : "$" ++ name ∈ params.placeholders calls) : params.get? name = none := by
  induction calls generalizing params with
  | nil => cases h
  | cons call later ih =>
    have hlater : "$" ++ name ∈ (params.serve call).2.placeholders later → params.get? name = none :=
      fun hmem => (params.extends_serve call).get?_eq_none (ih hmem)
    cases call with
    | bind value =>
      rcases List.mem_cons.1 h with heq | hmem
      · have hname : name = key params.freeNumber := by simpa [bind] using heq
        rw [hname]
        exact params.get?_key_freeNumber
      · exact hlater hmem
    | insert name' value => exact hlater h

theorem nodup_placeholders (params : Params) (calls : List Call) : (params.placeholders calls).Nodup := by
  induction calls generalizing params with
  | nil => exact .nil
  | cons call later ih =>
    have hlater := ih (params.serve call).2
    cases call with
    | bind value =>
      refine List.nodup_cons.2 ⟨fun hmem => ?_, hlater⟩
      -- the key is bound from now on, so no later call can get it
      have hfree := get?_eq_none_of_mem_placeholders hmem
      have hbound := params.get?_bind_self value
      rw [show (params.bind value).2.get? (key params.freeNumber) = none from hfree] at hbound
      cases hbound
    | insert name value => exact hlater

/-- After any calls: a value is bound under a key that was free, which the search finds; a value is inserted exactly
when its key is free, and otherwise nothing changes; what is bound stays bound to the same value in all later
parameters; no two placeholders are the same; and every call that binds a key adds one key. -/
theorem calls_lawful (start : Params) (calls : List Call) :
    (∀ value, ∃ n, Finds (start.after calls).values (start.after calls).next n ∧
      ((start.after calls).bind value).1 = "$" ++ key n ∧ (start.after calls).get? (key n) = none ∧
      ((start.after calls).bind value).2.get? (key n) = some value ∧
      ((start.after calls).bind value).2.size = (start.after calls).size + 1) ∧
    (∀ name value, (start.after calls).get? name ≠ none →
      (start.after calls).insert name value = (false, start.after calls)) ∧
    (∀ name value, (start.after calls).get? name = none →
      ((start.after calls).insert name value).1 = true ∧
      ((start.after calls).insert name value).2.get? name = some value ∧
      ((start.after calls).insert name value).2.size = (start.after calls).size + 1) ∧
    (∀ later, (start.after (calls ++ later)).Extends (start.after calls)) ∧
    (start.placeholders calls).Nodup ∧
    (start.after calls).size = start.size + (start.answers calls).countP Answer.binds := by
  refine ⟨fun value => ?_, fun name value hname => insert_of_ne_none hname value, fun name value hname => ?_,
    fun later => ?_, start.nodup_placeholders calls, start.size_after calls⟩
  · exact ⟨_, finds_freeNumber _, rfl, get?_key_freeNumber _, get?_bind_self _ value, size_bind _ value⟩
  · rw [insert_of_eq_none hname]
    exact ⟨rfl, NameMap.get?_insert_self _ name value, NameMap.size_insert value hname⟩
  · rw [after_append]
    exact extends_after _ later

/-- Calls that take keys which would come next. -/
def aheadCalls : List Call :=
  [.insert "p0" (.string "a"), .insert "p2" (.string "b"), .bind (.string "c"), .bind (.string "d")]

theorem calls_lawful_ahead :
    empty.placeholders aheadCalls = ["$p1", "$p3"] ∧ (empty.after aheadCalls).get? "p2" ≠ none ∧
      (empty.after aheadCalls).insert "p2" .null = (false, empty.after aheadCalls) ∧
      (empty.after aheadCalls).get? "p4" = none ∧ ((empty.after aheadCalls).insert "p4" .null).1 = true ∧
      ((empty.after aheadCalls).insert "p4" .null).2.size = (empty.after aheadCalls).size + 1 := by
  obtain ⟨_, hbound, hfree, _⟩ := calls_lawful empty aheadCalls
  have htaken : (empty.after aheadCalls).get? "p2" = some (.string "b") := rfl
  have hnext : (empty.after aheadCalls).get? "p4" = none := rfl
  have hne : (empty.after aheadCalls).get? "p2" ≠ none := by
    rw [htaken]
    exact nofun
  have hinsert := hfree "p4" .null hnext
  exact ⟨rfl, hne, hbound "p2" .null hne, hnext, hinsert.1, hinsert.2.2⟩

end Params

end ThingQuery
