import Mathlib.Data.List.ProdSigma
import ThingQuery.Proofs.Binding
import ThingQuery.Proofs.NameReading
import ThingQuery.Statement.Condition

/-!
# Reading conditions

A reader for the conditions of statements.  It turns a text into a condition whose operands are the keys of parameters
(`Condition.read?`); with the values of the parameters the condition is a filter again (`Condition.filter`).  The reader
never has to guess: what comes next is decided by how the text starts and, after a field, by the operator.

This module has the reader and what it makes of the parts of a condition that hold no other condition: placeholders,
operators and lists of pointers.
-/

namespace ThingQuery

/-! ### The reader -/

/-- The text after a given beginning. -/
def after? (beginning text : List Char) : Option (List Char) :=
  if beginning.isPrefixOf text then some (text.drop beginning.length) else none

/-- The operators between a field and what it is compared with. -/
inductive Operator where
  | scalar (op : ScalarOp)
  | list (op : ListOp)
  | null (op : NullOp)

namespace Operator

/-- An operator with the spaces around it; nothing follows a test for absence. -/
def mark : Operator → List Char
  | .scalar op => ' ' :: (op.sign.toList ++ [' '])
  | .list op => ' ' :: (op.sign.toList ++ [' '])
  | .null op => ' ' :: op.sign.toList

def all : List Operator :=
  ScalarOp.all.map .scalar ++ ListOp.all.map .list ++ [.null .isNone, .null .isNotNone]

end Operator

def readOperator (text : List Char) : Option (Operator × List Char) :=
  Operator.all.findSome? fun op => (after? op.mark text).map (op, ·)

/-- Reads a placeholder and returns the key of its parameter. -/
def readKey : List Char → Option (String × List Char)
  | '$' :: rest => readName rest
  | _ => none

/-- Reads a pointer and returns the keys of its table and of its record. -/
def readPointer (text : List Char) : Option ((String × String) × List Char) := do
  let text ← after? "type::thing(".toList text
  let (table, text) ← readKey text
  let text ← after? ", ".toList text
  let (id, text) ← readKey text
  let text ← after? [')'] text
  some ((table, id), text)

/-- Reads fewer than `bound` pointers up to the bracket that closes their list. -/
def readPointers : Nat → List Char → Option (List (String × String) × List Char)
  | 0, _ => none
  | bound + 1, text =>
    match after? [']'] text with
    | some rest => some ([], rest)
    | none => do
      let (pointer, text) ← readPointer text
      let (others, rest) ← readPointers bound ((after? ", ".toList text).getD text)
      some (pointer :: others, rest)

/-- A condition as it stands in a statement, with the keys of parameters in place of values. -/
inductive Condition where
  | truth (value : Bool)
  | scalar (op : ScalarOp) (column key : String)
  | list (op : ListOp) (column key : String)
  /-- The keys of the records that are pointed to are compared with a list. -/
  | keys (op : ListOp) (path : String) (tunnel : Option String) (key : String)
  /-- The stored pointers are compared with the listed ones, each of which is a table and a key. -/
  | pointers (op : ListOp) (path : String) (tunnel : Option String) (listed : List (String × String))
  | null (op : NullOp) (path : String) (tunnel : Option String)
  | all (parts : List Condition)
  | any (parts : List Condition)
  | not (part : Condition)
  /-- Some record to which the path leads satisfies the inner condition. -/
  | related (cardinality : Cardinality) (path : String) (tunnel : Option String) (inner : Condition)

namespace Condition

/-- Reads a test of a field, after its name. -/
def readTest (path : String) (tunnel : Option String) (text : List Char) : Option (Condition × List Char) :=
  match readOperator text with
  | some (.scalar op, text) => (readKey text).map fun (key, rest) => (.scalar op path key, rest)
  | some (.list op, text) =>
    match after? ['['] text with
    | some text =>
      (readPointers (text.length + 1) text).map fun (listed, rest) => (.pointers op path tunnel listed, rest)
    | none => (readKey text).map fun (key, rest) => (.list op path key, rest)
  | some (.null op, text) => some (.null op path tunnel, text)
  | none =>
    if path = "true" then some (.truth true, text)
    else if path = "false" then some (.truth false, text)
    else none

/-- Reads a test of the key of a record, or of the key of the record that is pointed to. -/
def readIdTest (text : List Char) : Option (Condition × List Char) := do
  let (path, tunnel, text) ← readField text
  let text ← after? [')'] text
  let (op, text) ← readOperator text
  let (key, rest) ← readKey text
  match op with
  | .scalar op => some (.scalar op idColumn key, rest)
  | .list op =>
    if path = idColumn ∧ tunnel = none then some (.list op idColumn key, rest)
    else some (.keys op path tunnel key, rest)
  | .null _ => none

/-- Reads a test of the keys of all records that are pointed to. -/
def readKeysTest (text : List Char) : Option (Condition × List Char) := do
  let (path, tunnel, text) ← readField text
  let text ← after? ", |$v| meta::id($v))".toList text
  let (op, text) ← readOperator text
  let (key, rest) ← readKey text
  match op with
  | .list op => some (.keys op path tunnel key, rest)
  | _ => none

/-- Reads the records of a related condition: a field, in brackets when it holds one pointer. -/
def readRecords (text : List Char) : Option (Cardinality × String × Option String × List Char) :=
  match after? ['['] text with
  | some text => do
    let (path, tunnel, text) ← readField text
    let text ← after? [']'] text
    some (.one, path, tunnel, text)
  | none => do
    let (path, tunnel, text) ← readField text
    some (.many, path, tunnel, text)

mutual

/-- Reads a condition that is nested less than `bound` deep. -/
def readWith : Nat → List Char → Option (Condition × List Char)
  | 0, _ => none
  | bound + 1, text =>
    match after? "!(".toList text with
    | some text => do
      let (part, text) ← readWith bound text
      let rest ← after? [')'] text
      some (.not part, rest)
    | none =>
      match after? ['('] text with
      | some text => do
        let (isAll, parts, rest) ← readParts bound text
        some (if isAll then .all parts else .any parts, rest)
      | none => do
        let (path, tunnel, afterField) ← readField text
        match after? "::".toList afterField with
        | none => readTest path tunnel afterField
        | some _ =>
          match after? "meta::id(".toList text with
          | some text => readIdTest text
          | none =>
            match after? "array::map(".toList text with
            | some text => readKeysTest text
            | none => do
              let text ← after? "array::len(".toList text
              let (cardinality, path, tunnel, text) ← readRecords text
              let text ← after? "[WHERE ".toList text
              let (inner, text) ← readWith bound text
              let rest ← after? "]) > 0".toList text
              some (.related cardinality path tunnel inner, rest)

/-- Reads the parts of a condition in brackets up to the closing one, and whether they are joined by `AND`. -/
def readParts : Nat → List Char → Option (Bool × List Condition × List Char)
  | 0, _ => none
  | bound + 1, text =>
    match readWith bound text with
    | none => (after? [')'] text).map (false, [], ·)
    | some (part, text) =>
      match after? [')'] text with
      | some rest => some (false, [part], rest)
      | none =>
        match after? " AND ".toList text with
        | some text => (readParts bound text).map fun (_, others, rest) => (true, part :: others, rest)
        | none => do
          let text ← after? " OR ".toList text
          let (_, others, rest) ← readParts bound text
          some (false, part :: others, rest)

end

/-- The condition of a text. -/
def read? (text : String) : Option Condition :=
  match readWith text.length text.toList with
  | some (c, []) => some c
  | _ => none

end Condition

/-! ### Conditions as filters -/

namespace Params

/-- The value of a parameter. -/
def value (params : Params) (key : String) : Json := (params.get? key).getD .null

def items (params : Params) (key : String) : List Json := (params.value key).array?.getD []

def text (params : Params) (key : String) : String := (params.value key).string?.getD ""

end Params

namespace Condition

/-- The pointers that a list in a statement stands for. -/
def listedPointers (params : Params) (listed : List (String × String)) : List (String × String) :=
  listed.map fun (table, id) => (params.text table, params.text id)

mutual

/-- The filter that a condition stands for.  Listed pointers are looked for by their keys in their tables. -/
def filter (params : Params) : Condition → Filter
  | .truth true => .truthy
  | .truth false => .falsy
  | .scalar op column key => .scalar op column (params.value key)
  | .list op column key => .list op column (params.items key)
  | .keys op path tunnel key => .ref op path ((params.items key).filterMap Json.string?) none tunnel
  | .pointers op path tunnel listed =>
    .ref op path ((listedPointers params listed).map (·.2)) (some ((listedPointers params listed).map (·.1))) tunnel
  | .null op path tunnel => .null op path tunnel
  | .all parts => .and (filters params parts)
  | .any parts => .or (filters params parts)
  | .not part => .not (filter params part)
  | .related cardinality path tunnel inner => .nested path cardinality tunnel (filter params inner)

/-- The filters that a list of conditions stands for. -/
def filters (params : Params) : List Condition → List Filter
  | [] => []
  | c :: rest => filter params c :: filters params rest

end

end Condition

/-! ### Reading operators and placeholders -/

@[simp]
theorem after?_append (beginning rest : List Char) : after? beginning (beginning ++ rest) = some rest := by
  simp [after?]

@[simp]
theorem after?_singleton (c : Char) (rest : List Char) : after? [c] (c :: rest) = some rest :=
  after?_append [c] rest

theorem after?_cons_of_ne {c d : Char} (h : c ≠ d) (beginning text : List Char) :
    after? (c :: beginning) (d :: text) = none := by
  simp [after?, h]

theorem readOperator_append (op : Operator) (rest : List Char) : readOperator (op.mark ++ rest) = some (op, rest) := by
  rcases op with op | op | op <;> cases op <;> rfl

theorem isPlainName_key (n : Nat) : isPlainName (Params.key n) = true := by
  refine isPlainName_iff.2 ⟨'p', Nat.toDigits 10 n, by simp [Params.key], by decide, fun d hd => ?_⟩
  have hdigit := Nat.isDigit_of_mem_toDigits (by decide) (by decide) hd
  simp only [Char.isDigit, Bool.and_eq_true, decide_eq_true_eq] at hdigit
  have h0 : '0' ≤ d := hdigit.1
  have h9 : d ≤ '9' := hdigit.2
  simp [isNameChar, h0, h9]

theorem readKey_bind (params : Params) (v : Json) {rest : List Char}
    (hrest : ∀ c ∈ rest.head?, isNameChar c = false) :
    readKey ((params.bind v).1.toList ++ rest) = some (Params.key params.freeNumber, rest) := by
  have hplaceholder : (params.bind v).1.toList = '$' :: (nameText (Params.key params.freeNumber)).toList := by
    have hname : nameText (Params.key params.freeNumber) = Params.key params.freeNumber :=
      if_pos (isPlainName_key _)
    rw [hname]
    simp [Params.bind]
  rw [hplaceholder, List.cons_append, readKey, readName_nameText _ hrest]

/-! ### The texts of fragments -/

namespace Fragment

/-- The characters of a written fragment. -/
def chars (params : Params) (f : Fragment) : List Char := (write params f).1.toList

@[simp]
theorem chars_nil (params : Params) : chars params [] = [] := by
  simp [chars]

@[simp]
theorem chars_text (params : Params) (s : String) (rest : Fragment) :
    chars params (.text s :: rest) = s.toList ++ chars params rest := by
  simp [chars]

@[simp]
theorem chars_value (params : Params) (v : Json) (rest : Fragment) :
    chars params (.value v :: rest) = (params.bind v).1.toList ++ chars (params.bind v).2 rest := by
  simp [chars]

theorem chars_append (params : Params) (f g : Fragment) :
    chars params (f ++ g) = chars params f ++ chars (write params f).2 g := by
  simp [chars, write_append]

theorem chars_between (params : Params) (opening : String) (f : Fragment) (closing : String) :
    chars params (between opening f closing) = opening.toList ++ (chars params f ++ closing.toList) := by
  simp [between, chars_append]

theorem write_between (params : Params) (opening : String) (f : Fragment) (closing : String) :
    (write params (between opening f closing)).2 = (write params f).2 := by
  simp [between, write_append]

theorem chars_join_cons (params : Params) (separator : String) (f : Fragment) (fs : List Fragment) :
    chars params (join separator (f :: fs)) =
      chars params f ++ ((if fs.isEmpty then [] else separator.toList) ++
        chars (write params f).2 (join separator fs)) := by
  cases fs with
  | nil => simp [join]
  | cons g rest => simp [join, chars_append]

theorem write_join_cons (params : Params) (separator : String) (f : Fragment) (fs : List Fragment) :
    (write params (join separator (f :: fs))).2 = (write (write params f).2 (join separator fs)).2 := by
  cases fs with
  | nil => simp [join]
  | cons g rest => simp [join, write_append]

end Fragment

open Fragment (chars write join)

/-! ### Reading pointers -/

/-- The parameters hold a text after it has been bound. -/
theorem Params.text_of_extends_bind {params final : Params} {s : String}
    (h : final.Extends (params.bind (.string s)).2) : final.text (key params.freeNumber) = s := by
  have hget := h _ _ (params.get?_bind_self (.string s))
  simp [text, value, hget, Json.string?]

theorem readPointer_write (params : Params) (table id : String) :
    ∃ keys, (∀ rest, readPointer (chars params (pointerFragment table id) ++ rest) = some (keys, rest)) ∧
      ∀ final : Params, final.Extends (write params (pointerFragment table id)).2 →
        (final.text keys.1, final.text keys.2) = (table, id) := by
  have hcomma : ∀ (text : List Char), ∀ c ∈ (", ".toList ++ text).head?, isNameChar c = false :=
    fun text => forall_mem_head?_cons (by decide) _
  have hclosing : ∀ (text : List Char), ∀ c ∈ (')' :: text).head?, isNameChar c = false :=
    fun text => forall_mem_head?_cons (by decide) _
  refine ⟨(Params.key params.freeNumber, Params.key (params.bind (.string table)).2.freeNumber), ?_, ?_⟩
  · intro rest
    have hchars : chars params (pointerFragment table id) ++ rest =
        "type::thing(".toList ++ ((params.bind (.string table)).1.toList ++ (", ".toList ++
          (((params.bind (.string table)).2.bind (.string id)).1.toList ++ ([')'] ++ rest)))) := by
      simp [pointerFragment]
    simp only [readPointer, hchars, after?_append, Option.bind_eq_bind, Option.bind_some,
      readKey_bind _ _ (hcomma _), readKey_bind _ _ (hclosing rest), List.singleton_append, after?_singleton]
  · intro final hfinal
    have hid : final.Extends ((params.bind (.string table)).2.bind (.string id)).2 := hfinal
    have htable : final.Extends (params.bind (.string table)).2 := hid.trans (Params.extends_bind _ _)
    rw [Params.text_of_extends_bind htable, Params.text_of_extends_bind hid]

/-- A pointer to a record as it is written. -/
def pairFragment (pair : String × String) : Fragment := pointerFragment pair.1 pair.2

theorem pointerFragments_eq_map (tables ids : List String) :
    pointerFragments tables ids = (tables ×ˢ ids).map pairFragment := by
  induction tables with
  | nil => rfl
  | cons table tables ih =>
    rw [List.product_cons, List.map_append, ← ih]
    simp [pointerFragments, pairFragment, Function.comp_def]

theorem length_le_length_chars (params : Params) (pairs : List (String × String)) :
    pairs.length ≤ (chars params (join ", " (pairs.map pairFragment))).length := by
  induction pairs generalizing params with
  | nil => simp
  | cons pair pairs ih =>
    have hrest := ih (write params (pairFragment pair)).2
    have hpair : 1 ≤ (chars params (pairFragment pair)).length := by
      simp [pairFragment, pointerFragment]
    rw [List.map_cons, Fragment.chars_join_cons, List.length_append, List.length_append, List.length_cons]
    omega

/-- A list of pointers is read back, pointer by pointer. -/
theorem readPointers_write (params : Params) (pairs : List (String × String)) :
    ∃ listed, (∀ bound rest, pairs.length < bound →
        readPointers bound (chars params (join ", " (pairs.map pairFragment)) ++ ']' :: rest) = some (listed, rest)) ∧
      ∀ final : Params, final.Extends (write params (join ", " (pairs.map pairFragment))).2 →
        Condition.listedPointers final listed = pairs := by
  induction pairs generalizing params with
  | nil =>
    refine ⟨[], fun bound rest hbound => ?_, fun final _ => rfl⟩
    obtain ⟨bound, rfl⟩ : ∃ b, bound = b + 1 := ⟨bound - 1, by simp at hbound; omega⟩
    simp only [List.map_nil, join, Fragment.chars_nil, List.nil_append, readPointers, after?_singleton]
  | cons pair pairs ih =>
    obtain ⟨keys, hkeys, hpair⟩ := readPointer_write params pair.1 pair.2
    obtain ⟨listed, hlisted, hpairs⟩ := ih (write params (pairFragment pair)).2
    refine ⟨keys :: listed, fun bound rest hbound => ?_, fun final hfinal => ?_⟩
    · obtain ⟨bound, rfl⟩ : ∃ b, bound = b + 1 := ⟨bound - 1, by simp at hbound; omega⟩
      have hrest := hlisted bound rest (by simpa using hbound)
      rw [List.map_cons, Fragment.chars_join_cons, List.append_assoc, List.append_assoc, readPointers]
      -- a pointer does not start with the closing bracket
      have hopen : ∀ text, after? [']'] (chars params (pairFragment pair) ++ text) = none := by
        intro text
        simp only [pairFragment, pointerFragment, Fragment.chars_text, List.append_assoc]
        rfl
      rw [hopen]
      simp only [pairFragment, hkeys, Option.bind_eq_bind, Option.bind_some]
      cases pairs with
      | nil =>
        have hcomma : after? ", ".toList (']' :: rest) = none := rfl
        simp only [List.isEmpty_nil, if_true, List.nil_append, List.map_nil, join, Fragment.chars_nil] at hrest ⊢
        rw [hcomma, Option.getD_none, hrest]
        rfl
      | cons next others =>
        simp only [List.isEmpty_map, List.isEmpty_cons, Bool.false_eq_true, if_false, after?_append, Option.getD_some]
        rw [show pointerFragment pair.1 pair.2 = pairFragment pair from rfl, hrest]
        rfl
    · rw [List.map_cons, Fragment.write_join_cons] at hfinal
      have hfirst := hpair final (hfinal.trans (Fragment.extends_write _ _))
      have hothers := hpairs final hfinal
      simp only [Condition.listedPointers, List.map_cons] at hothers ⊢
      rw [hothers, hfirst]

end ThingQuery
