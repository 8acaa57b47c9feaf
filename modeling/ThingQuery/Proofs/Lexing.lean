import ThingQuery.Proofs.NameReading

/-!
# Inside and outside of quoted names

The characters of a statement either belong to a quoted name or stand outside of all quoted names (`lex`).  A quoted
name is opened by a bracket and goes up to the first closing bracket that no backslash stands in front of.  Only what
stands outside counts for the structure of a text: where it is split into statements (`splitStatements`) and whether its
brackets match (`Balanced`).

A text is read with the closing brackets that are awaited.  `Turns s before after` says that reading `s` ends outside of
quoted names, meets no semicolon there, and leaves `after` to be awaited instead of `before`; it composes along texts
(`Turns.append`).  What leaves the awaited brackets as they are is `Neutral`, and names are.
-/

namespace ThingQuery

/-! ### Lexemes -/

/-- Where a reader is with respect to quoted names. -/
inductive Mode where
  | outside
  | inside
  /-- Behind a backslash in a quoted name. -/
  | escaped
  deriving DecidableEq

/-- A character that stands outside of quoted names or belongs to one. -/
inductive Lexeme where
  | plain (c : Char)
  | quoted (c : Char)
  deriving DecidableEq

namespace Lexeme

def char : Lexeme → Char
  | plain c | quoted c => c

/-- Reads a character with the closing brackets that are awaited, the next one first. -/
def read (awaited : List Char) : Lexeme → Option (List Char)
  | quoted _ => some awaited
  | plain c =>
    if c = '(' then some (')' :: awaited)
    else if c = '[' then some (']' :: awaited)
    else if c = ')' ∨ c = ']' then
      if awaited.head? = some c then some awaited.tail else none
    else some awaited

end Lexeme

namespace Mode

/-- Where the reader is behind a character. -/
def next : Mode → Char → Mode
  | outside, c => if c = openBracket then inside else outside
  | inside, c => if c = closeBracket then outside else if c = '\\' then escaped else inside
  | escaped, _ => inside

def lexeme : Mode → Char → Lexeme
  | outside, c => if c = openBracket then .quoted c else .plain c
  | inside, c | escaped, c => .quoted c

end Mode

/-- The lexemes of a text that is read from some mode on. -/
def lexFrom : Mode → List Char → List Lexeme
  | _, [] => []
  | mode, c :: rest => mode.lexeme c :: lexFrom (mode.next c) rest

/-- The lexemes of a text. -/
def lex (text : String) : List Lexeme := lexFrom .outside text.toList

/-- The text between semicolons that stand outside of quoted names. -/
def splitStatements (text : String) : List String :=
  ((lex text).splitOnP (· == .plain ';')).map fun part => String.ofList (part.map Lexeme.char)

/-- The round and square brackets outside of quoted names match. -/
def Balanced (text : String) : Prop := (lex text).foldlM Lexeme.read [] = some []

theorem char_lexeme (mode : Mode) (c : Char) : (mode.lexeme c).char = c := by
  cases mode with
  | outside => by_cases h : c = openBracket <;> simp [Mode.lexeme, h, Lexeme.char]
  | inside => rfl
  | escaped => rfl

theorem map_char_lexFrom (mode : Mode) (text : List Char) : (lexFrom mode text).map Lexeme.char = text := by
  induction text generalizing mode with
  | nil => rfl
  | cons c rest ih => rw [lexFrom, List.map_cons, char_lexeme, ih]

theorem map_char_lex (text : String) : (lex text).map Lexeme.char = text.toList := map_char_lexFrom _ _

theorem lexFrom_append (mode : Mode) (a b : List Char) :
    lexFrom mode (a ++ b) = lexFrom mode a ++ lexFrom (a.foldl Mode.next mode) b := by
  induction a generalizing mode with
  | nil => rfl
  | cons c rest ih => simp only [List.cons_append, lexFrom, ih, List.foldl_cons]

theorem forall_mem_head?_append {p : Char → Prop} {s t : String} (hs : ∀ c ∈ s.toList.head?, p c)
    (ht : ∀ c ∈ t.toList.head?, p c) : ∀ c ∈ (s ++ t).toList.head?, p c := by
  rw [String.toList_append]
  cases hlist : s.toList with
  | nil => simpa using ht
  | cons c rest =>
    rw [hlist] at hs
    exact hs

/-! ### Closed texts -/

/-- Reading the text ends outside of quoted names. -/
def Closed (text : String) : Prop := text.toList.foldl Mode.next .outside = .outside

theorem lex_append {a : String} (h : Closed a) (b : String) : lex (a ++ b) = lex a ++ lex b := by
  have hmode : a.toList.foldl Mode.next .outside = .outside := h
  rw [lex, String.toList_append, lexFrom_append, hmode]
  rfl

theorem Closed.append {a b : String} (ha : Closed a) (hb : Closed b) : Closed (a ++ b) := by
  unfold Closed at *
  rw [String.toList_append, List.foldl_append, ha, hb]

/-- Without an opening bracket all characters stand outside of quoted names. -/
theorem lex_of_not_mem {text : String} (h : openBracket ∉ text.toList) :
    Closed text ∧ lex text = text.toList.map .plain := by
  unfold Closed lex
  generalize text.toList = chars at h ⊢
  induction chars with
  | nil => exact ⟨rfl, rfl⟩
  | cons c rest ih =>
    obtain ⟨hc, hrest⟩ := List.ne_and_not_mem_of_not_mem_cons h
    obtain ⟨hmode, hlex⟩ := ih hrest
    have hnext : Mode.next .outside c = .outside := if_neg hc.symm
    have hlexeme : Mode.lexeme .outside c = .plain c := if_neg hc.symm
    rw [List.foldl_cons, lexFrom, hnext, hlexeme, hlex, List.map_cons]
    exact ⟨hmode, rfl⟩

/-- Up to its closing bracket all characters belong to a quoted name. -/
theorem lexFrom_of_readQuoted {content name after : List Char} (h : readQuoted content = some (name, after)) :
    ∃ quoted, content = quoted ++ after ∧ quoted.foldl Mode.next .inside = .outside ∧
      lexFrom .inside quoted = quoted.map .quoted := by
  induction content using readQuoted.induct generalizing name with
  | case1 => cases h
  | case2 c rest ih =>
    rw [readQuoted] at h
    obtain ⟨⟨name', after'⟩, hrest, he⟩ := Option.map_eq_some_iff.1 h
    cases he
    obtain ⟨quoted, rfl, hmode, hlex⟩ := ih hrest
    refine ⟨'\\' :: c :: quoted, rfl, hmode, ?_⟩
    simp only [List.map_cons, lexFrom]
    exact congrArg (fun lexemes => Lexeme.quoted '\\' :: Lexeme.quoted c :: lexemes) hlex
  | case3 rest hslash =>
    rw [readQuoted.eq_3 _ _ (fun d r => hslash d r), if_pos rfl] at h
    cases h
    exact ⟨[closeBracket], rfl, rfl, rfl⟩
  | case4 c rest hslash hclose ih =>
    rw [readQuoted.eq_3 _ _ (fun d r => hslash d r), if_neg hclose] at h
    obtain ⟨⟨name', after'⟩, hrest, he⟩ := Option.map_eq_some_iff.1 h
    cases he
    obtain ⟨quoted, rfl, hmode, hlex⟩ := ih hrest
    -- a backslash in front of nothing closes no name
    have hne : c ≠ '\\' := by
      rintro rfl
      cases hcontent : quoted ++ after with
      | nil =>
        rw [hcontent] at hrest
        cases hrest
      | cons d others => exact hslash d others rfl hcontent
    have hnext : Mode.next .inside c = .inside := by
      simp [Mode.next, hclose, hne]
    refine ⟨c :: quoted, rfl, ?_, ?_⟩
    · rw [List.foldl_cons, hnext, hmode]
    · rw [lexFrom, hnext, hlex]
      rfl

theorem lex_of_readQuoted {content name : List Char} (h : readQuoted content = some (name, [])) :
    Closed (String.ofList (openBracket :: content)) ∧
      lex (String.ofList (openBracket :: content)) = (openBracket :: content).map .quoted := by
  obtain ⟨quoted, rfl, hmode, hlex⟩ := lexFrom_of_readQuoted h
  rw [List.append_nil]
  unfold Closed lex
  rw [String.toList_ofList]
  exact ⟨hmode, congrArg (Lexeme.quoted openBracket :: ·) hlex⟩

/-! ### Reading with awaited brackets -/

/-- Reading the text ends outside of quoted names, meets no semicolon there, and turns the awaited brackets into
others. -/
structure Turns (s : String) (before after : List Char) : Prop where
  closed : Closed s
  unbroken : (lex s).all (· != .plain ';') = true
  reads : (lex s).foldlM Lexeme.read before = some after

-- for literals: the characters of a literal are known without decoding it
theorem turns_ofList {chars before after : List Char} (hclosed : chars.foldl Mode.next .outside = .outside)
    (hunbroken : (lexFrom .outside chars).all (· != .plain ';') = true)
    (hreads : (lexFrom .outside chars).foldlM Lexeme.read before = some after) :
    Turns (String.ofList chars) before after := by
  constructor
  · rwa [Closed, String.toList_ofList]
  · rwa [lex, String.toList_ofList]
  · rwa [lex, String.toList_ofList]

theorem Turns.append {s t : String} {before between after : List Char} (hs : Turns s before between)
    (ht : Turns t between after) : Turns (s ++ t) before after where
  closed := hs.closed.append ht.closed
  unbroken := by rw [lex_append hs.closed, List.all_append, hs.unbroken, ht.unbroken, Bool.and_self]
  reads := by
    rw [lex_append hs.closed, List.foldlM_append, hs.reads]
    exact ht.reads

/-- The text does not change which brackets are awaited. -/
def Neutral (s : String) : Prop := ∀ awaited, Turns s awaited awaited

namespace Neutral

theorem balanced {s : String} (h : Neutral s) : Balanced s := (h []).reads

theorem closed {s : String} (h : Neutral s) : Closed s := (h []).closed

theorem append {s t : String} (hs : Neutral s) (ht : Neutral t) : Neutral (s ++ t) :=
  fun awaited => (hs awaited).append (ht awaited)

theorem intercalate {separator : String} (hseparator : Neutral separator) {parts : List String}
    (h : ∀ s ∈ parts, Neutral s) : Neutral (separator.intercalate parts) := by
  induction parts with
  | nil => exact fun _ => ⟨rfl, rfl, rfl⟩
  | cons s rest ih =>
    rw [List.forall_mem_cons] at h
    cases rest with
    | nil => simpa using h.1
    | cons t others =>
      rw [String.intercalate_cons_cons]
      exact (h.1.append hseparator).append (ih h.2)

end Neutral

/-- Whether a character outside of quoted names has no part in the structure of a text. -/
def isOrdinary (c : Char) : Bool := !(['(', ')', '[', ']', ';', openBracket].contains c)

theorem isOrdinary_of_isNameChar {c : Char} (h : isNameChar c = true) : isOrdinary c = true := by
  unfold isOrdinary
  rw [Bool.not_eq_true', List.contains_eq_mem, decide_eq_false_iff_not]
  intro hmem
  simp only [List.mem_cons, List.not_mem_nil, or_false] at hmem
  rcases hmem with rfl | rfl | rfl | rfl | rfl | rfl <;> revert h <;> decide

theorem foldlM_read_plain {chars : List Char} (h : ∀ c ∈ chars, isOrdinary c = true) (awaited : List Char) :
    (chars.map Lexeme.plain).foldlM Lexeme.read awaited = some awaited := by
  induction chars with
  | nil => rfl
  | cons c rest ih =>
    rw [List.forall_mem_cons] at h
    have hread : (Lexeme.plain c).read awaited = some awaited := by
      have hc := h.1
      simp only [isOrdinary, List.contains_eq_mem, List.mem_cons, List.not_mem_nil, or_false, not_or,
        Bool.not_eq_true', decide_eq_false_iff_not] at hc
      simp [Lexeme.read, hc]
    rw [List.map_cons, List.foldlM_cons, hread]
    exact ih h.2

theorem neutral_of_isOrdinary {s : String} (h : ∀ c ∈ s.toList, isOrdinary c = true) : Neutral s := by
  intro awaited
  obtain ⟨hclosed, hlex⟩ := lex_of_not_mem fun hmem => absurd (h _ hmem) (by decide)
  refine ⟨hclosed, ?_, ?_⟩
  · rw [hlex, List.all_map, List.all_eq_true]
    intro c hc
    have hne : c ≠ ';' := by
      rintro rfl
      exact absurd (h _ hc) (by decide)
    simpa using hne
  · rw [hlex]
    exact foldlM_read_plain h awaited

theorem foldlM_read_quoted (chars awaited : List Char) :
    (chars.map Lexeme.quoted).foldlM Lexeme.read awaited = some awaited := by
  induction chars with
  | nil => rfl
  | cons c rest ih =>
    rw [List.map_cons, List.foldlM_cons]
    exact ih

/-- A quoted name is neutral, whatever is in it. -/
theorem neutral_of_readQuoted {content name : List Char} (h : readQuoted content = some (name, [])) :
    Neutral (String.ofList (openBracket :: content)) := by
  intro awaited
  obtain ⟨hclosed, hlex⟩ := lex_of_readQuoted h
  refine ⟨hclosed, ?_, ?_⟩
  · rw [hlex, List.all_map, List.all_eq_true]
    exact fun c _ => rfl
  · rw [hlex]
    exact foldlM_read_quoted _ awaited

end ThingQuery
