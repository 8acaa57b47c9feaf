import ThingQuery.Proofs.Lexing
import ThingQuery.Filter.Basic
import ThingQuery.Query.Basic

/-!
# The grammar of statements

`Derives least phrase text` says that a text is a phrase of the language of statements.  The parameter is the least
number of targets after `FROM` and of parts in a disjunction.  With one, this is the grammar of statements; with none,
it also covers texts in which a list is missing.

What is derived is neutral (`Derives.neutral`): quoted names are closed in it, its brackets match, and it holds no
semicolon outside of quoted names.
-/

namespace ThingQuery

/-- The kinds of phrases. -/
inductive Phrase where
  | name
  /-- A name, or a name with the role to which it leads on. -/
  | field
  | placeholder
  | pointer
  /-- What stands to the left of an operator. -/
  | operand
  | comparison
  /-- The records that a field leads to, as a list. -/
  | records
  | condition
  /-- Where the rows of a `SELECT` come from. -/
  | target
  | targets
  /-- A `SELECT` of the values of one field. -/
  | values
  | sortKey
  | whereClause
  | orderClause
  | limitClause
  | startClause
  /-- A `SELECT` for each row, over the records that one of its fields leads to. -/
  | subselect
  /-- A column that needs a key to be returned under. -/
  | expression
  | column
  | columns
  | select
  | statement
  deriving DecidableEq

/-- A text is a phrase of the language of statements. -/
inductive Derives (least : Nat) : Phrase → String → Prop where
  | plainName {s : String} (h : isPlainName s = true) : Derives least .name s
  /-- Between angle brackets, of which the closing one is the first without a backslash in front. -/
  | quotedName {content name : List Char} (h : readQuoted content = some (name, [])) :
    Derives least .name (String.ofList (openBracket :: content))
  | field {n : String} (hn : Derives least .name n) : Derives least .field n
  | roleField {n r : String} (hn : Derives least .name n) (hr : Derives least .name r) :
    Derives least .field (n ++ "." ++ r)
  | placeholder (n : Nat) : Derives least .placeholder ("$p" ++ toString n)
  | pointer {t i : String} (ht : Derives least .placeholder t) (hi : Derives least .placeholder i) :
    Derives least .pointer ("type::thing(" ++ t ++ ", " ++ i ++ ")")
  -- comparisons
  | ownKey : Derives least .operand "meta::id(id)"
  | stored {f : String} (hf : Derives least .field f) : Derives least .operand f
  | pointedKey {f : String} (hf : Derives least .field f) : Derives least .operand ("meta::id(" ++ f ++ ")")
  | pointedKeys {f : String} (hf : Derives least .field f) :
    Derives least .operand ("array::map(" ++ f ++ ", |$v| meta::id($v))")
  | scalarTest {l r : String} (hl : Derives least .operand l) (op : ScalarOp) (hr : Derives least .placeholder r) :
    Derives least .comparison (l ++ " " ++ op.sign ++ " " ++ r)
  | listTest {l r : String} (hl : Derives least .operand l) (op : ListOp) (hr : Derives least .placeholder r) :
    Derives least .comparison (l ++ " " ++ op.sign ++ " " ++ r)
  | pointerTest {f : String} {pointers : List String} (hf : Derives least .field f) (op : ListOp)
    (h : ∀ p ∈ pointers, Derives least .pointer p) :
    Derives least .comparison (f ++ " " ++ op.sign ++ " [" ++ ", ".intercalate pointers ++ "]")
  | absenceTest {f : String} (hf : Derives least .field f) (op : NullOp) :
    Derives least .comparison (f ++ " " ++ op.sign)
  -- conditions
  | comparison {c : String} (hc : Derives least .comparison c) : Derives least .condition c
  | truth : Derives least .condition "true"
  | falsity : Derives least .condition "false"
  | negation {c : String} (hc : Derives least .condition c) : Derives least .condition ("!(" ++ c ++ ")")
  | manyRecords {f : String} (hf : Derives least .field f) : Derives least .records f
  | oneRecord {f : String} (hf : Derives least .field f) : Derives least .records ("[" ++ f ++ "]")
  | someOf {r c : String} (hr : Derives least .records r) (hc : Derives least .condition c) :
    Derives least .condition ("array::len(" ++ r ++ "[WHERE " ++ c ++ "]) > 0")
  | conjunction {parts : List String} (hne : parts ≠ []) (h : ∀ c ∈ parts, Derives least .condition c) :
    Derives least .condition ("(" ++ " AND ".intercalate parts ++ ")")
  | disjunction {parts : List String} (hlen : least ≤ parts.length) (h : ∀ c ∈ parts, Derives least .condition c) :
    Derives least .condition ("(" ++ " OR ".intercalate parts ++ ")")
  -- clauses
  | noCondition : Derives least .whereClause ""
  | conditions {parts : List String} (hne : parts ≠ []) (h : ∀ c ∈ parts, Derives least .condition c) :
    Derives least .whereClause (" WHERE " ++ " AND ".intercalate parts)
  | sortKey {n : String} (hn : Derives least .name n) (direction : Direction) :
    Derives least .sortKey (n ++ " " ++ direction.word)
  | noOrder : Derives least .orderClause ""
  | order {keys : List String} (hne : keys ≠ []) (h : ∀ k ∈ keys, Derives least .sortKey k) :
    Derives least .orderClause (" ORDER BY " ++ ", ".intercalate keys)
  | noLimit : Derives least .limitClause ""
  | limit (n : Nat) : Derives least .limitClause (" LIMIT " ++ toString n)
  | noStart : Derives least .startClause ""
  | start (n : Nat) : Derives least .startClause (" START " ++ toString n)
  -- targets
  | table {n : String} (hn : Derives least .name n) : Derives least .target n
  | pointed {p : String} (hp : Derives least .pointer p) : Derives least .target p
  | distinct {v : String} (hv : Derives least .values v) : Derives least .target ("array::distinct(" ++ v ++ ")")
  | distinctFlat {v : String} (hv : Derives least .values v) :
    Derives least .target ("array::distinct(array::flatten(" ++ v ++ "))")
  | targets {parts : List String} (hlen : least ≤ parts.length) (h : ∀ t ∈ parts, Derives least .target t) :
    Derives least .targets (", ".intercalate parts)
  | values {n t w : String} (hn : Derives least .name n) (ht : Derives least .targets t)
    (hw : Derives least .whereClause w) : Derives least .values ("SELECT VALUE " ++ n ++ " FROM " ++ t ++ w)
  -- columns
  | keysOf {f : String} (hf : Derives least .field f) :
    Derives least .subselect ("(SELECT VALUE meta::id(id) FROM $parent." ++ f ++ ")")
  | recordsOf {c f w o l s : String} (hc : Derives least .columns c) (hf : Derives least .field f)
    (hw : Derives least .whereClause w) (ho : Derives least .orderClause o) (hl : Derives least .limitClause l)
    (hs : Derives least .startClause s) :
    Derives least .subselect ("(SELECT " ++ c ++ " FROM $parent." ++ f ++ w ++ o ++ l ++ s ++ ")")
  | recordTable : Derives least .expression "meta::tb(id)"
  | recordKey : Derives least .expression "meta::id(id)"
  | renamed {n : String} (hn : Derives least .name n) : Derives least .expression n
  | valuesOrKeys {n : String} (hn : Derives least .name n) :
    Derives least .expression
      ("array::map(" ++ n ++ ", |$v| IF type::is::record($v) THEN meta::id($v) ELSE $v END)")
  | valueOrKey {n : String} (hn : Derives least .name n) :
    Derives least .expression
      ("(IF type::is::record(" ++ n ++ ") THEN meta::id(" ++ n ++ ") ELSE " ++ n ++ " END)")
  | related {s : String} (hs : Derives least .subselect s) : Derives least .expression s
  | firstRelated {s : String} (hs : Derives least .subselect s) :
    Derives least .expression ("array::first(" ++ s ++ ")")
  | ownName {n : String} (hn : Derives least .name n) : Derives least .column n
  | underKey {e k : String} (he : Derives least .expression e) (hk : Derives least .name k) :
    Derives least .column (e ++ " AS " ++ k)
  | everything : Derives least .columns "*"
  | columns {parts : List String} (hne : parts ≠ []) (h : ∀ c ∈ parts, Derives least .column c) :
    Derives least .columns (", ".intercalate parts)
  -- statements
  | select {c t w o l s : String} (hc : Derives least .columns c) (ht : Derives least .targets t)
    (hw : Derives least .whereClause w) (ho : Derives least .orderClause o) (hl : Derives least .limitClause l)
    (hs : Derives least .startClause s) :
    Derives least .select ("SELECT " ++ c ++ " FROM " ++ t ++ w ++ o ++ l ++ s)
  | rows {s : String} (hs : Derives least .select s) : Derives least .statement s
  | firstRow {s : String} (hs : Derives least .select s) : Derives least .statement ("array::first(" ++ s ++ ")")

/-! ### Derived texts are neutral -/

theorem isNameChar_of_mem_toString {n : Nat} {c : Char} (h : c ∈ (toString n).toList) : isNameChar c = true := by
  have hmem : c ∈ Nat.toDigits 10 n := by simpa using h
  have hdigit := Nat.isDigit_of_mem_toDigits (by decide) (by decide) hmem
  simp only [Char.isDigit, Bool.and_eq_true, decide_eq_true_eq] at hdigit
  have h0 : '0' ≤ c := hdigit.1
  have h9 : c ≤ '9' := hdigit.2
  simp [isNameChar, h0, h9]

theorem neutral_toString (n : Nat) : Neutral (toString n) :=
  neutral_of_isOrdinary fun _ hc => isOrdinary_of_isNameChar (isNameChar_of_mem_toString hc)

theorem ScalarOp.neutral_sign (op : ScalarOp) : Neutral op.sign := by
  cases op <;> exact fun _ => turns_ofList rfl rfl rfl

theorem ListOp.neutral_sign (op : ListOp) : Neutral op.sign := by
  cases op <;> exact fun _ => turns_ofList rfl rfl rfl

theorem NullOp.neutral_sign (op : NullOp) : Neutral op.sign := by
  cases op <;> exact fun _ => turns_ofList rfl rfl rfl

theorem Direction.neutral_word (direction : Direction) : Neutral direction.word := by
  cases direction <;> exact fun _ => turns_ofList rfl rfl rfl

theorem neutral_space : Neutral " " := fun _ => turns_ofList rfl rfl rfl

theorem neutral_comma : Neutral ", " := fun _ => turns_ofList rfl rfl rfl

theorem neutral_and : Neutral " AND " := fun _ => turns_ofList rfl rfl rfl

theorem neutral_or : Neutral " OR " := fun _ => turns_ofList rfl rfl rfl

theorem neutral_from : Neutral " FROM " := fun _ => turns_ofList rfl rfl rfl

theorem neutral_of_isPlainName {name : String} (h : isPlainName name = true) : Neutral name := by
  obtain ⟨c, rest, hname, hc, hrest⟩ := isPlainName_iff.1 h
  refine neutral_of_isOrdinary fun d hd => isOrdinary_of_isNameChar ?_
  rw [hname, List.mem_cons] at hd
  rcases hd with rfl | hd
  · exact isNameChar_of_isNameStart hc
  · exact hrest d hd

theorem Derives.neutral {least : Nat} {phrase : Phrase} {s : String} (h : Derives least phrase s) : Neutral s := by
  induction h with
  | plainName h => exact neutral_of_isPlainName h
  | quotedName h => exact neutral_of_readQuoted h
  | placeholder n => exact .append (fun _ => turns_ofList rfl rfl rfl) (neutral_toString n)
  | field _ ih | stored _ ih | comparison _ ih | manyRecords _ ih | table _ ih | pointed _ ih | renamed _ ih
    | related _ ih | ownName _ ih | rows _ ih => exact ih
  | ownKey | truth | falsity | noCondition | noOrder | noLimit | noStart | recordTable | recordKey | everything =>
    exact fun _ => turns_ofList rfl rfl rfl
  | targets _ _ ih | columns _ _ ih => exact neutral_comma.intercalate ih
  | roleField _ _ ihn ihr => exact .append (.append ihn fun _ => turns_ofList rfl rfl rfl) ihr
  | scalarTest _ op _ ihl ihr | listTest _ op _ ihl ihr =>
    exact (((ihl.append neutral_space).append op.neutral_sign).append neutral_space).append ihr
  | absenceTest _ op ih => exact (ih.append neutral_space).append op.neutral_sign
  | sortKey _ direction ih => exact (ih.append neutral_space).append direction.neutral_word
  | conditions _ _ ih => exact .append (fun _ => turns_ofList rfl rfl rfl) (neutral_and.intercalate ih)
  | order _ _ ih => exact .append (fun _ => turns_ofList rfl rfl rfl) (neutral_comma.intercalate ih)
  | limit n | start n => exact .append (fun _ => turns_ofList rfl rfl rfl) (neutral_toString n)
  | values _ _ _ ihn iht ihw =>
    exact .append (.append (.append (.append (fun _ => turns_ofList rfl rfl rfl) ihn) neutral_from) iht) ihw
  | underKey _ _ ihe ihk => exact .append (.append ihe fun _ => turns_ofList rfl rfl rfl) ihk
  | select _ _ _ _ _ _ ihc iht ihw iho ihl ihs =>
    exact .append (.append (.append (.append (.append (.append (.append (fun _ => turns_ofList rfl rfl rfl) ihc)
      neutral_from) iht) ihw) iho) ihl) ihs
  -- what follows opens brackets and closes them again
  | pointer _ _ iht ihi =>
    intro awaited
    exact .append (.append (.append (.append (turns_ofList rfl rfl rfl) (iht _)) (neutral_comma _)) (ihi _))
      (turns_ofList rfl rfl rfl)
  | pointedKey _ ih | pointedKeys _ ih | oneRecord _ ih | negation _ ih | distinct _ ih | distinctFlat _ ih
    | keysOf _ ih | valuesOrKeys _ ih | firstRelated _ ih | firstRow _ ih =>
    intro awaited
    exact .append (.append (turns_ofList rfl rfl rfl) (ih _)) (turns_ofList rfl rfl rfl)
  | pointerTest _ op _ ihf ihp =>
    intro awaited
    have hleft := (ihf.append neutral_space).append op.neutral_sign
    exact .append (.append (.append (hleft _) (turns_ofList rfl rfl rfl)) (neutral_comma.intercalate ihp _))
      (turns_ofList rfl rfl rfl)
  | someOf _ _ ihr ihc =>
    intro awaited
    exact .append (.append (.append (.append (turns_ofList rfl rfl rfl) (ihr _)) (turns_ofList rfl rfl rfl)) (ihc _))
      (turns_ofList rfl rfl rfl)
  | conjunction _ _ ih =>
    intro awaited
    exact .append (.append (turns_ofList rfl rfl rfl) (neutral_and.intercalate ih _)) (turns_ofList rfl rfl rfl)
  | disjunction _ _ ih =>
    intro awaited
    exact .append (.append (turns_ofList rfl rfl rfl) (neutral_or.intercalate ih _)) (turns_ofList rfl rfl rfl)
  | recordsOf _ _ _ _ _ _ ihc ihf ihw iho ihl ihs =>
    intro awaited
    exact .append (.append (.append (.append (.append (.append (.append (.append (turns_ofList rfl rfl rfl) (ihc _))
      (turns_ofList rfl rfl rfl)) (ihf _)) (ihw _)) (iho _)) (ihl _)) (ihs _)) (turns_ofList rfl rfl rfl)
  | valueOrKey _ ih =>
    intro awaited
    exact .append (.append (.append (.append (.append (.append (turns_ofList rfl rfl rfl) (ih _))
      (turns_ofList rfl rfl rfl)) (ih _)) (turns_ofList rfl rfl rfl)) (ih _)) (turns_ofList rfl rfl rfl)

end ThingQuery
