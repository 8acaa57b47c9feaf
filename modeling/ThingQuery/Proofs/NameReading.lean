import ThingQuery.Statement.Name

/-!
# Reading names

A written name tells where it ends.  A quoted name goes up to the first closing bracket that no backslash stands in
front of, where a backslash stands for the next character; a plain name is the longest run of its characters.  So a name
is read back from any text that does not go on with a character of a plain name (`readName_nameText`), and so is a field
with its role (`readField_fieldText`).
-/

namespace ThingQuery

/-- Reads the rest of a quoted name, up to its closing bracket. -/
def readQuoted : List Char → Option (List Char × List Char)
  | [] => none
  | '\\' :: c :: rest => (readQuoted rest).map fun (name, after) => (c :: name, after)
  | c :: rest =>
    if c = closeBracket then some ([], rest)
    else (readQuoted rest).map fun (name, after) => (c :: name, after)

/-- Reads a name and returns it with the text after it. -/
def readName (text : List Char) : Option (String × List Char) :=
  match text with
  | '⟨' :: quoted => (readQuoted quoted).map fun (name, after) => (String.ofList name, after)
  | _ => some (String.ofList (text.takeWhile isNameChar), text.dropWhile isNameChar)

/-- Reads the role to which a field leads on, if there is one. -/
def readTunnel : List Char → Option (Option String × List Char)
  | '.' :: rest => (readName rest).map fun (role, after) => (some role, after)
  | text => some (none, text)

/-- Reads a field with the role to which it leads on. -/
def readField (text : List Char) : Option (String × Option String × List Char) := do
  let (path, rest) ← readName text
  let (tunnel, after) ← readTunnel rest
  some (path, tunnel, after)

/-! ### Reading what is written -/

theorem readQuoted_append (name rest : List Char) :
    readQuoted (name.flatMap quoteNameChar ++ closeBracket :: rest) = some (name, rest) := by
  induction name with
  | nil => rfl
  | cons c name ih =>
    rw [List.flatMap_cons, List.append_assoc]
    by_cases hc : c = closeBracket ∨ c = '\\'
    · have hquote : quoteNameChar c = ['\\', c] := if_pos hc
      rw [hquote, List.cons_append, List.cons_append, List.nil_append, readQuoted, ih]
      rfl
    · have hquote : quoteNameChar c = [c] := if_neg hc
      obtain ⟨hclose, hslash⟩ := not_or.1 hc
      rw [hquote, List.cons_append, List.nil_append, readQuoted.eq_3 _ _ (fun d r h => by simp_all), if_neg hclose, ih]
      rfl

theorem takeWhile_append_of_head? {p : Char → Bool} {run rest : List Char} (hrun : ∀ c ∈ run, p c = true)
    (hrest : ∀ c ∈ rest.head?, p c = false) :
    (run ++ rest).takeWhile p = run ∧ (run ++ rest).dropWhile p = rest := by
  rw [List.takeWhile_append_of_pos hrun, List.dropWhile_append_of_pos hrun]
  cases rest with
  | nil => simp
  | cons c rest =>
    have hc := hrest c rfl
    simp [hc]

theorem forall_mem_head?_cons {p : Char → Prop} {c : Char} (hc : p c) (rest : List Char) :
    ∀ d ∈ (c :: rest).head?, p d := by
  rintro d ⟨⟩
  exact hc

/-- A plain name starts with a letter or an underscore and goes on with such characters and digits. -/
theorem isPlainName_iff {name : String} :
    isPlainName name = true ↔
      ∃ c rest, name.toList = c :: rest ∧ isNameStart c = true ∧ ∀ d ∈ rest, isNameChar d = true := by
  unfold isPlainName
  cases name.toList with
  | nil => simp
  | cons c rest =>
    rw [Bool.and_eq_true, List.all_eq_true]
    constructor
    · rintro ⟨hc, hrest⟩
      exact ⟨c, rest, rfl, hc, hrest⟩
    · rintro ⟨c', rest', heq, hc, hrest⟩
      obtain ⟨rfl, rfl⟩ := List.cons.inj heq
      exact ⟨hc, hrest⟩

theorem isNameChar_of_isNameStart {c : Char} (h : isNameStart c = true) : isNameChar c = true := by
  simp [isNameChar, h]

/-- How a written name starts. -/
theorem head_nameText (name : String) :
    ∃ c rest, (nameText name).toList = c :: rest ∧ (isNameStart c = true ∨ c = openBracket) := by
  unfold nameText
  by_cases hplain : isPlainName name = true
  · obtain ⟨c, rest, hname, hc, _⟩ := isPlainName_iff.1 hplain
    exact ⟨c, rest, by rw [if_pos hplain, hname], .inl hc⟩
  · rw [if_neg hplain, String.toList_ofList]
    exact ⟨_, _, rfl, .inr rfl⟩

theorem readName_nameText (name : String) {rest : List Char} (hrest : ∀ c ∈ rest.head?, isNameChar c = false) :
    readName ((nameText name).toList ++ rest) = some (name, rest) := by
  unfold nameText
  by_cases hplain : isPlainName name = true
  · rw [if_pos hplain]
    obtain ⟨c, run, hname, hc, hrun⟩ := isPlainName_iff.1 hplain
    have hall : ∀ d ∈ name.toList, isNameChar d = true := by
      rw [hname]
      exact List.forall_mem_cons.2 ⟨isNameChar_of_isNameStart hc, hrun⟩
    obtain ⟨htake, hdrop⟩ := takeWhile_append_of_head? hall hrest
    have hopen : c ≠ '⟨' := by
      rintro rfl
      revert hc
      decide
    unfold readName
    split
    · rename_i heq
      rw [hname, List.cons_append] at heq
      exact absurd (List.cons.inj heq).1 hopen
    · rw [htake, hdrop, String.ofList_toList]
  · rw [if_neg hplain, String.toList_ofList, List.cons_append, List.append_assoc, List.singleton_append]
    change (readQuoted (name.toList.flatMap quoteNameChar ++ closeBracket :: rest)).map _ = _
    rw [readQuoted_append]
    simp

theorem readField_fieldText (path : String) (tunnel : Option String) {rest : List Char}
    (hrest : ∀ c ∈ rest.head?, isNameChar c = false ∧ c ≠ '.') :
    readField ((fieldText path tunnel).toList ++ rest) = some (path, tunnel, rest) := by
  have hstop : ∀ c ∈ rest.head?, isNameChar c = false := fun c hc => (hrest c hc).1
  cases tunnel with
  | none =>
    have htunnel : readTunnel rest = some (none, rest) := by
      unfold readTunnel
      split
      · exact absurd rfl (hrest '.' rfl).2
      · rfl
    simp only [readField, fieldText, readName_nameText path hstop, Option.bind_eq_bind, Option.bind_some, htunnel]
  | some role =>
    have hdot : ∀ c ∈ ('.' :: ((nameText role).toList ++ rest)).head?, isNameChar c = false :=
      forall_mem_head?_cons (by decide) _
    have htext : (fieldText path (some role)).toList ++ rest =
        (nameText path).toList ++ '.' :: ((nameText role).toList ++ rest) := by
      simp [fieldText]
    simp only [readField, htext, readName_nameText path hdot, Option.bind_eq_bind, Option.bind_some, readTunnel,
      readName_nameText role hstop, Option.map_some]

/-! ### Names and fields are told apart -/

/-- A written name ends where it ends, whatever text follows that does not go on with it, and no two fields with their
roles are written alike. -/
theorem readName_append_and_fieldText_injective :
    (∀ (name : String) (rest : List Char), (∀ c ∈ rest.head?, isNameChar c = false) →
      readName ((nameText name).toList ++ rest) = some (name, rest)) ∧
    Function.Injective fun field : String × Option String => fieldText field.1 field.2 := by
  refine ⟨fun name _ hrest => readName_nameText name hrest, ?_⟩
  have hread : ∀ path tunnel, readField (fieldText path tunnel).toList = some (path, tunnel, []) := by
    intro path tunnel
    rw [← List.append_nil (fieldText path tunnel).toList]
    exact readField_fieldText path tunnel (by simp)
  rintro ⟨path, tunnel⟩ ⟨path', tunnel'⟩ heq
  have hboth : some (path, tunnel, ([] : List Char)) = some (path', tunnel', []) := by
    rw [← hread path tunnel, ← hread path' tunnel']
    exact congrArg (fun text => readField text.toList) heq
  cases hboth
  rfl

/-- A name with brackets, a backslash at its end and a look-alike of the text that follows. -/
theorem readName_append_hostile :
    readName ((nameText "⟨a⟩ = $\\").toList ++ [' ', '=', ' ', '$']) = some ("⟨a⟩ = $\\", [' ', '=', ' ', '$']) :=
  readName_append_and_fieldText_injective.1 _ _ (forall_mem_head?_cons (by decide) _)

end ThingQuery
