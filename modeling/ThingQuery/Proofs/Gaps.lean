import ThingQuery.Proofs.Grammar

/-!
# Texts without gaps

Where a list in a statement is missing, the text has a gap: two spaces in a row, a space at the end or in front of a
closing round bracket, or a round bracket that is closed right after it is opened.  A text without gaps outside of its
quoted names is `Tight`.  What is derived from the grammar with at least one part in every list is tight
(`Derives.tight`).
-/

namespace ThingQuery

/-! ### Texts without gaps -/

/-- A character may stand outside of quoted names in front of another one or of the end. -/
def Fits (c : Char) (next : Option Char) : Prop :=
  (c = ' ' → next ≠ none ∧ next ≠ some ' ') ∧ (c = ' ' ∨ c = '(' → next ≠ some ')')

instance (c : Char) (next : Option Char) : Decidable (Fits c next) := inferInstanceAs (Decidable (_ ∧ _))

/-- Outside of quoted names every character fits to the next. -/
def TightFrom : Mode → List Char → Prop
  | _, [] => True
  | mode, c :: rest => (mode = .outside → Fits c rest.head?) ∧ TightFrom (mode.next c) rest

/-- Outside of quoted names no space is followed by another one, by the end or by a closing round bracket, and no round
bracket by the one that closes it. -/
def Tight (s : String) : Prop := TightFrom .outside s.toList

theorem TightFrom.of_append {mode : Mode} {a b : List Char} (h : TightFrom mode (a ++ b)) :
    TightFrom (a.foldl Mode.next mode) b := by
  induction a generalizing mode with
  | nil => exact h
  | cons c rest ih => exact ih h.2

theorem Tight.of_append {a b : String} (h : Tight (a ++ b)) (ha : Closed a) : Tight b := by
  have hmode : a.toList.foldl Mode.next .outside = .outside := ha
  unfold Tight at h ⊢
  rw [String.toList_append] at h
  exact hmode ▸ h.of_append

/-- The text starts with a character that fits behind a space and behind an opening bracket. -/
def Starts (s : String) : Prop := ∃ c rest, s.toList = c :: rest ∧ c ≠ ' ' ∧ c ≠ ')'

/-- The text leaves no gap, whatever follows it. -/
structure Passes (s : String) : Prop where
  tight_append : ∀ t, Tight t → Tight (s ++ t)

/-- The text leaves no gap in front of a proper start. -/
structure Leads (s : String) : Prop where
  tight_append : ∀ t, Starts t → Tight t → Tight (s ++ t)

theorem starts_ofList {c : Char} {rest : List Char} (hspace : c ≠ ' ') (hclose : c ≠ ')') :
    Starts (String.ofList (c :: rest)) := ⟨c, rest, String.toList_ofList, hspace, hclose⟩

theorem Starts.append {s : String} (h : Starts s) (t : String) : Starts (s ++ t) := by
  obtain ⟨c, rest, hs, hspace, hclose⟩ := h
  exact ⟨c, rest ++ t.toList, by rw [String.toList_append, hs, List.cons_append], hspace, hclose⟩

theorem Passes.append {s t : String} (hs : Passes s) (ht : Passes t) : Passes (s ++ t) := by
  constructor
  intro u hu
  rw [String.append_assoc]
  exact hs.tight_append _ (ht.tight_append u hu)

theorem Passes.lead {s t : String} (hs : Passes s) (ht : Leads t) : Leads (s ++ t) := by
  constructor
  intro u hstarts hu
  rw [String.append_assoc]
  exact hs.tight_append _ (ht.tight_append u hstarts hu)

theorem Leads.follow {s t : String} (hs : Leads s) (hstarts : Starts t) (ht : Passes t) : Passes (s ++ t) := by
  constructor
  intro u hu
  rw [String.append_assoc]
  exact hs.tight_append _ (hstarts.append u) (ht.tight_append u hu)

theorem passes_empty : Passes "" := by
  constructor
  intro t ht
  rwa [String.empty_append]

theorem starts_intercalate (separator : String) {parts : List String} (hne : parts ≠ [])
    (h : ∀ s ∈ parts, Starts s) : Starts (separator.intercalate parts) := by
  match parts with
  | [] => exact absurd rfl hne
  | [s] => simpa using h
  | s :: t :: rest =>
    rw [String.intercalate_cons_cons, String.append_assoc]
    exact (h s List.mem_cons_self).append _

theorem Passes.intercalate {separator : String} (hseparator : Leads separator) {parts : List String}
    (h : ∀ s ∈ parts, Starts s ∧ Passes s) : Passes (separator.intercalate parts) := by
  induction parts with
  | nil => exact passes_empty
  | cons s rest ih =>
    cases rest with
    | nil => simpa using (h s List.mem_cons_self).2
    | cons t others =>
      rw [List.forall_mem_cons] at h
      have hrest := starts_intercalate separator (List.cons_ne_nil t others) fun u hu => (h.2 u hu).1
      rw [String.intercalate_cons_cons]
      exact (h.1.2.lead hseparator).follow hrest (ih h.2)

/-! ### Words without gaps -/

/-- Whether the characters fit to each other and none opens a quoted name. -/
def isSnug : List Char → Bool
  | [] => true
  | [c] => c ≠ openBracket
  | c :: d :: rest => c ≠ openBracket && decide (Fits c (some d)) && isSnug (d :: rest)

theorem tightFrom_append_of_isSnug {words rest : List Char} (hwords : isSnug words = true)
    (hlast : ∀ c ∈ words.getLast?, Fits c rest.head?) (h : TightFrom .outside rest) :
    TightFrom .outside (words ++ rest) := by
  induction words using isSnug.induct with
  | case1 => exact h
  | case2 c =>
    have hc : c ≠ openBracket := by simpa [isSnug] using hwords
    refine ⟨fun _ => hlast c rfl, ?_⟩
    rw [Mode.next, if_neg hc]
    exact h
  | case3 c d words ih =>
    rw [isSnug, Bool.and_eq_true, Bool.and_eq_true, decide_eq_true_eq, decide_eq_true_eq] at hwords
    obtain ⟨⟨hc, hfits⟩, hsnug⟩ := hwords
    refine ⟨fun _ => hfits, ?_⟩
    rw [Mode.next, if_neg hc]
    exact ih hsnug (fun e he => hlast e (by rwa [List.getLast?_cons_cons]))

-- stated for lists of characters, so that it is decided for a literal without decoding the literal
theorem leads_of_isSnug {chars : List Char} (h : isSnug chars = true) : Leads (String.ofList chars) := by
  constructor
  rintro t ⟨c, rest, ht, hspace, hclose⟩ htight
  unfold Tight at *
  rw [String.toList_append, String.toList_ofList]
  refine tightFrom_append_of_isSnug h (fun d _ => ?_) htight
  rw [ht]
  exact ⟨fun _ => ⟨by simp, by simpa using hspace⟩, fun _ => by simpa using hclose⟩

theorem passes_of_isSnug {chars : List Char} (h : isSnug chars = true)
    (hlast : chars.getLast? ≠ some ' ' ∧ chars.getLast? ≠ some '(') : Passes (String.ofList chars) := by
  constructor
  intro t htight
  unfold Tight at *
  rw [String.toList_append, String.toList_ofList]
  refine tightFrom_append_of_isSnug h (fun c hc => ?_) htight
  have hspace : c ≠ ' ' := fun he => hlast.1 (he ▸ hc)
  have hopen : c ≠ '(' := fun he => hlast.2 (he ▸ hc)
  exact ⟨fun he => absurd he hspace, fun he => absurd he (not_or.2 ⟨hspace, hopen⟩)⟩

theorem passes_of_isNameChar {s : String} (h : ∀ c ∈ s.toList, isNameChar c = true) : Passes s := by
  have htight : ∀ (chars rest : List Char), (∀ c ∈ chars, isNameChar c = true) → TightFrom .outside rest →
      TightFrom .outside (chars ++ rest) := by
    intro chars rest hchars hrest
    induction chars with
    | nil => exact hrest
    | cons c chars ih =>
      rw [List.forall_mem_cons] at hchars
      have hne : ∀ d, isNameChar d = false → c ≠ d := by
        rintro d hd rfl
        rw [hchars.1] at hd
        cases hd
      have hspace := hne ' ' (by decide)
      have hopen := hne '(' (by decide)
      refine ⟨fun _ => ⟨fun he => absurd he hspace, fun he => absurd he (not_or.2 ⟨hspace, hopen⟩)⟩, ?_⟩
      rw [Mode.next, if_neg (hne openBracket (by decide))]
      exact ih hchars.2
  constructor
  intro t ht
  unfold Tight at *
  rw [String.toList_append]
  exact htight _ _ h ht

theorem starts_of_isNameChar {s : String} {c : Char} {rest : List Char} (hs : s.toList = c :: rest)
    (h : isNameChar c = true) : Starts s := by
  refine ⟨c, rest, hs, ?_, ?_⟩ <;> rintro rfl <;> revert h <;> decide

/-- Nothing in a quoted name is a gap. -/
theorem tightFrom_append_of_lexFrom {mode : Mode} {quoted rest : List Char}
    (hlex : lexFrom mode quoted = quoted.map .quoted) (h : TightFrom (quoted.foldl Mode.next mode) rest) :
    TightFrom mode (quoted ++ rest) := by
  induction quoted generalizing mode with
  | nil => exact h
  | cons c quoted ih =>
    rw [lexFrom, List.map_cons, List.cons.injEq] at hlex
    refine ⟨?_, ih hlex.2 h⟩
    rintro rfl
    by_cases hc : c = openBracket
    · rw [hc]
      exact ⟨fun he => absurd he (by decide), fun he => absurd he (by decide)⟩
    · have hplain := hlex.1
      rw [Mode.lexeme, if_neg hc] at hplain
      cases hplain

theorem passes_of_readQuoted {content name : List Char} (h : readQuoted content = some (name, [])) :
    Passes (String.ofList (openBracket :: content)) := by
  constructor
  intro t ht
  obtain ⟨hclosed, hlex⟩ := lex_of_readQuoted h
  unfold Closed lex at *
  unfold Tight at *
  rw [String.toList_ofList] at hclosed hlex
  rw [String.toList_append, String.toList_ofList]
  refine tightFrom_append_of_lexFrom hlex ?_
  rw [hclosed]
  exact ht

/-! ### Derived texts without gaps -/

/-- Whether phrases of the kind may be empty. -/
def Phrase.isClause : Phrase → Bool
  | whereClause | orderClause | limitClause | startClause => true
  | _ => false

theorem ScalarOp.solid_sign (op : ScalarOp) : Starts op.sign ∧ Passes op.sign := by
  cases op <;> exact ⟨starts_ofList (by decide) (by decide), passes_of_isSnug rfl (by decide)⟩

theorem ListOp.solid_sign (op : ListOp) : Starts op.sign ∧ Passes op.sign := by
  cases op <;> exact ⟨starts_ofList (by decide) (by decide), passes_of_isSnug rfl (by decide)⟩

theorem NullOp.solid_sign (op : NullOp) : Starts op.sign ∧ Passes op.sign := by
  cases op <;> exact ⟨starts_ofList (by decide) (by decide), passes_of_isSnug rfl (by decide)⟩

theorem Direction.solid_word (direction : Direction) : Starts direction.word ∧ Passes direction.word := by
  cases direction <;> exact ⟨starts_ofList (by decide) (by decide), passes_of_isSnug rfl (by decide)⟩

theorem leads_space : Leads " " := leads_of_isSnug rfl

theorem leads_comma : Leads ", " := leads_of_isSnug rfl

theorem leads_and : Leads " AND " := leads_of_isSnug rfl

theorem leads_or : Leads " OR " := leads_of_isSnug rfl

theorem leads_from : Leads " FROM " := leads_of_isSnug rfl

theorem passes_close : Passes ")" := passes_of_isSnug rfl (by decide)

theorem starts_toString (n : Nat) : Starts (toString n) := by
  have hne : (toString n).toList ≠ [] := by simp
  obtain ⟨c, rest, hdigits⟩ := List.exists_cons_of_ne_nil hne
  exact starts_of_isNameChar hdigits (isNameChar_of_mem_toString (hdigits ▸ List.mem_cons_self))

theorem passes_toString (n : Nat) : Passes (toString n) := passes_of_isNameChar fun _ => isNameChar_of_mem_toString

/-- A phrase that may not be empty starts with a character that fits behind a space and behind an opening bracket. -/
theorem Derives.starts {phrase : Phrase} {s : String} (h : Derives 1 phrase s) (hclause : phrase.isClause = false) :
    Starts s := by
  induction h with
  | plainName h =>
    obtain ⟨c, rest, hname, hc, _⟩ := isPlainName_iff.1 h
    exact starts_of_isNameChar hname (isNameChar_of_isNameStart hc)
  | quotedName h => exact starts_ofList (by decide) (by decide)
  | field _ ih | stored _ ih | comparison _ ih | manyRecords _ ih | table _ ih | pointed _ ih | renamed _ ih
    | related _ ih | ownName _ ih | rows _ ih => exact ih rfl
  | ownKey | truth | falsity | recordTable | recordKey | everything => exact starts_ofList (by decide) (by decide)
  | targets hlen _ ih => exact starts_intercalate _ (List.ne_nil_of_length_pos hlen) fun t ht => ih t ht rfl
  | columns hne _ ih => exact starts_intercalate _ hne fun t ht => ih t ht rfl
  | roleField _ _ ih | scalarTest _ _ _ ih | listTest _ _ _ ih | pointerTest _ _ _ ih | absenceTest _ _ ih
    | sortKey _ _ ih | underKey _ _ ih =>
    simp only [String.append_assoc]
    exact (ih rfl).append _
  | noCondition | conditions | noOrder | order | noLimit | limit | noStart | start => cases hclause
  | placeholder n => exact .append (starts_ofList (by decide) (by decide)) _
  | _ =>
    simp only [String.append_assoc]
    exact .append (starts_ofList (by decide) (by decide)) _

theorem Derives.passes {phrase : Phrase} {s : String} (h : Derives 1 phrase s) : Passes s := by
  induction h with
  | plainName h =>
    obtain ⟨c, rest, hname, hc, hrest⟩ := isPlainName_iff.1 h
    refine passes_of_isNameChar ?_
    rw [hname]
    exact List.forall_mem_cons.2 ⟨isNameChar_of_isNameStart hc, hrest⟩
  | quotedName h => exact passes_of_readQuoted h
  | placeholder n => exact .append (passes_of_isSnug rfl (by decide)) (passes_toString n)
  | field _ ih | stored _ ih | comparison _ ih | manyRecords _ ih | table _ ih | pointed _ ih | renamed _ ih
    | related _ ih | ownName _ ih | rows _ ih => exact ih
  | ownKey | truth | falsity | recordTable | recordKey | everything => exact passes_of_isSnug rfl (by decide)
  | noCondition | noOrder | noLimit | noStart => exact passes_empty
  | roleField _ _ ihn ihr => exact (ihn.append (passes_of_isSnug rfl (by decide))).append ihr
  | pointer ht hi iht ihi =>
    exact ((((leads_of_isSnug rfl).follow (ht.starts rfl) iht).lead leads_comma).follow (hi.starts rfl) ihi).append
      passes_close
  -- a phrase in brackets
  | pointedKey h ih | pointedKeys h ih | oneRecord h ih | negation h ih | distinct h ih | distinctFlat h ih
    | keysOf h ih | valuesOrKeys h ih | firstRelated h ih | firstRow h ih =>
    exact ((leads_of_isSnug rfl).follow (h.starts rfl) ih).append (passes_of_isSnug rfl (by decide))
  | scalarTest _ op hr ihl ihr | listTest _ op hr ihl ihr =>
    exact (((ihl.lead leads_space).follow op.solid_sign.1 op.solid_sign.2).lead leads_space).follow (hr.starts rfl) ihr
  | pointerTest _ op h ihf ihp =>
    have hlist := Passes.intercalate leads_comma fun p hp => ⟨(h p hp).starts rfl, ihp p hp⟩
    exact ((((ihf.lead leads_space).follow op.solid_sign.1 op.solid_sign.2).append
      (passes_of_isSnug rfl (by decide))).append hlist).append (passes_of_isSnug rfl (by decide))
  | absenceTest _ op ih => exact (ih.lead leads_space).follow op.solid_sign.1 op.solid_sign.2
  | sortKey _ direction ih => exact (ih.lead leads_space).follow direction.solid_word.1 direction.solid_word.2
  | someOf hr hc ihr ihc =>
    exact ((((leads_of_isSnug rfl).follow (hr.starts rfl) ihr).lead (leads_of_isSnug rfl)).follow (hc.starts rfl)
      ihc).append (passes_of_isSnug rfl (by decide))
  | conjunction hne h ih =>
    have hparts := Passes.intercalate leads_and fun c hc => ⟨(h c hc).starts rfl, ih c hc⟩
    have hstarts := starts_intercalate " AND " hne fun c hc => (h c hc).starts rfl
    exact ((leads_of_isSnug rfl).follow hstarts hparts).append passes_close
  | disjunction hlen h ih =>
    have hparts := Passes.intercalate leads_or fun c hc => ⟨(h c hc).starts rfl, ih c hc⟩
    have hstarts := starts_intercalate " OR " (List.ne_nil_of_length_pos hlen) fun c hc => (h c hc).starts rfl
    exact ((leads_of_isSnug rfl).follow hstarts hparts).append passes_close
  | conditions hne h ih =>
    have hparts := Passes.intercalate leads_and fun c hc => ⟨(h c hc).starts rfl, ih c hc⟩
    exact (leads_of_isSnug rfl).follow (starts_intercalate _ hne fun c hc => (h c hc).starts rfl) hparts
  | order hne h ih =>
    have hkeys := Passes.intercalate leads_comma fun k hk => ⟨(h k hk).starts rfl, ih k hk⟩
    exact (leads_of_isSnug rfl).follow (starts_intercalate _ hne fun k hk => (h k hk).starts rfl) hkeys
  | limit n | start n => exact (leads_of_isSnug rfl).follow (starts_toString n) (passes_toString n)
  | values hn ht _ ihn iht ihw =>
    exact ((((leads_of_isSnug rfl).follow (hn.starts rfl) ihn).lead leads_from).follow (ht.starts rfl) iht).append ihw
  | targets _ h ih | columns _ h ih => exact .intercalate leads_comma fun t ht => ⟨(h t ht).starts rfl, ih t ht⟩
  | recordsOf hc hf _ _ _ _ ihc ihf ihw iho ihl ihs =>
    exact ((((((((leads_of_isSnug rfl).follow (hc.starts rfl) ihc).lead (leads_of_isSnug rfl)).follow (hf.starts rfl)
      ihf).append ihw).append iho).append ihl).append ihs).append passes_close
  | valueOrKey hn ih =>
    exact ((((((leads_of_isSnug rfl).follow (hn.starts rfl) ih).lead (leads_of_isSnug rfl)).follow (hn.starts rfl)
      ih).lead (leads_of_isSnug rfl)).follow (hn.starts rfl) ih).append (passes_of_isSnug rfl (by decide))
  | underKey _ hk ihe ihk => exact (ihe.lead (leads_of_isSnug rfl)).follow (hk.starts rfl) ihk
  | select hc ht _ _ _ _ ihc iht ihw iho ihl ihs =>
    exact (((((((leads_of_isSnug rfl).follow (hc.starts rfl) ihc).lead leads_from).follow (ht.starts rfl) iht).append
      ihw).append iho).append ihl).append ihs

/-- What is derived with at least one part in every list has no gaps. -/
theorem Derives.tight {phrase : Phrase} {s : String} (h : Derives 1 phrase s) : Tight s := by
  have hempty : Tight "" := trivial
  simpa using h.passes.tight_append "" hempty

end ThingQuery
