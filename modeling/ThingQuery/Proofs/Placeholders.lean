import ThingQuery.Proofs.Answered
import ThingQuery.Proofs.Grammar
import ThingQuery.Proofs.Numbering

/-!
# Placeholders and parameters

Outside of quoted names a text is read as placeholders, which are `$p` with the digits after it, and other characters
(`tokens`).  In the text of a fragment no placeholder comes from anything but a value, since its texts are quiet
(`Plan.isQuiet_fragment`): they hold no placeholder, start none and go on with none.  So the placeholders of a written
fragment are those of its values in their order (`Fragment.tokens_write`).
-/

namespace ThingQuery

/-! ### Tokens -/

/-- A placeholder or another character of a text. -/
inductive Token where
  | char (c : Char)
  /-- The digits stand after `$p`. -/
  | placeholder (digits : List Char)
  deriving DecidableEq

namespace Token

def text : Token → List Char
  | char c => [c]
  | placeholder digits => '$' :: 'p' :: digits

/-- The key to which a placeholder refers. -/
def key? : Token → Option String
  | char _ => none
  | placeholder digits => some ("p" ++ String.ofList digits)

/-- A placeholder with a greater number; other characters stay as they are. -/
def shift (k : Nat) : Token → Token
  | char c => char c
  | placeholder digits => placeholder (toString (Nat.ofDigitChars 10 digits 0 + k)).toList

end Token

/-- Whether it is a digit outside of quoted names. -/
def Lexeme.isDigit : Lexeme → Bool
  | plain c => c.isDigit
  | quoted _ => false

/-- The digits of a placeholder whose first character was read. -/
def placeholderDigits : List Lexeme → List Char
  | .plain c :: rest => if c = 'p' then (rest.takeWhile Lexeme.isDigit).map Lexeme.char else []
  | _ => []

/-- The tokens behind some number of lexemes that are skipped. -/
def tokensFrom : Nat → List Lexeme → List Token
  | _, [] => []
  | skipped + 1, _ :: rest => tokensFrom skipped rest
  | 0, lexeme :: rest =>
    if lexeme = .plain '$' ∧ placeholderDigits rest ≠ [] then
      .placeholder (placeholderDigits rest) :: tokensFrom ((placeholderDigits rest).length + 1) rest
    else .char lexeme.char :: tokensFrom 0 rest

/-- The tokens of a text. -/
def tokens (text : String) : List Token := tokensFrom 0 (lex text)

/-- The keys to which the placeholders of a text refer, from left to right. -/
def placeholders (text : String) : List String := (tokens text).filterMap Token.key?

/-- The text with all placeholders renamed to those with numbers that are greater by `k`. -/
def renamePlaceholders (k : Nat) (text : String) : String :=
  String.ofList ((tokens text).flatMap fun token => (token.shift k).text)

example : placeholders "a = $p0 AND ⟨$p7⟩ = $p12 AND $parent.$v" = ["p0", "p12"] := by decide +kernel

example : renamePlaceholders 9 "a = $p0 AND ⟨$p7⟩ = $p1" = "a = $p9 AND ⟨$p7⟩ = $p10" := by decide +kernel

theorem tokensFrom_append_skipped (front rest : List Lexeme) :
    tokensFrom front.length (front ++ rest) = tokensFrom 0 rest := by
  induction front with
  | nil => rfl
  | cons lexeme front ih => exact ih

/-! ### Quiet texts -/

/-- Whether a `$` in front of the lexemes is no placeholder, whatever follows them. -/
def refutesPlaceholder : List Lexeme → Bool
  | [] => false
  | [lexeme] => lexeme != .plain 'p'
  | lexeme :: next :: _ => lexeme != .plain 'p' || !next.isDigit

/-- Whether there is no placeholder in the lexemes and none starts in them, whatever follows them. -/
def isSettled : List Lexeme → Bool
  | [] => true
  | lexeme :: rest => (lexeme != .plain '$' || refutesPlaceholder rest) && isSettled rest

theorem placeholderDigits_of_ne {lexeme : Lexeme} (h : lexeme ≠ .plain 'p') (rest : List Lexeme) :
    placeholderDigits (lexeme :: rest) = [] := by
  cases lexeme with
  | plain c => exact if_neg fun hc => h (congrArg Lexeme.plain hc)
  | quoted c => rfl

theorem placeholderDigits_append {lexemes : List Lexeme} (h : refutesPlaceholder lexemes = true)
    (rest : List Lexeme) : placeholderDigits (lexemes ++ rest) = [] := by
  match lexemes with
  | [] => cases h
  | [lexeme] => exact placeholderDigits_of_ne (by simpa [refutesPlaceholder] using h) rest
  | lexeme :: next :: others =>
    by_cases hp : lexeme = .plain 'p'
    · have hdigit : next.isDigit = false := by simpa [refutesPlaceholder, hp] using h
      rw [hp, List.cons_append, List.cons_append, placeholderDigits, if_pos rfl, List.takeWhile_cons, hdigit]
      rfl
    · exact placeholderDigits_of_ne hp _

theorem refutesPlaceholder_append {lexemes : List Lexeme} (h : refutesPlaceholder lexemes = true)
    (rest : List Lexeme) : refutesPlaceholder (lexemes ++ rest) = true := by
  match lexemes with
  | [] => cases h
  | [lexeme] =>
    have hne : (lexeme != .plain 'p') = true := h
    cases rest with
    | nil => exact hne
    | cons next others => simp [refutesPlaceholder, hne]
  | lexeme :: next :: others => exact h

theorem isSettled_append {front rest : List Lexeme} (hfront : isSettled front = true) (hrest : isSettled rest = true) :
    isSettled (front ++ rest) = true := by
  induction front with
  | nil => exact hrest
  | cons lexeme front ih =>
    rw [isSettled, Bool.and_eq_true, Bool.or_eq_true] at hfront
    rw [List.cons_append, isSettled, Bool.and_eq_true, Bool.or_eq_true]
    exact ⟨hfront.1.imp_right fun h => refutesPlaceholder_append h rest, ih hfront.2⟩

theorem isSettled_of_not_mem {lexemes : List Lexeme} (h : .plain '$' ∉ lexemes) : isSettled lexemes = true := by
  induction lexemes with
  | nil => rfl
  | cons lexeme lexemes ih =>
    obtain ⟨hne, hrest⟩ := List.ne_and_not_mem_of_not_mem_cons h
    rw [isSettled, ih hrest, Bool.and_true, Bool.or_eq_true, bne_iff_ne]
    exact .inl hne.symm

/-- Settled lexemes are read as characters. -/
theorem tokensFrom_append_of_isSettled {lexemes : List Lexeme} (h : isSettled lexemes = true) (rest : List Lexeme) :
    tokensFrom 0 (lexemes ++ rest) = lexemes.map (fun lexeme => .char lexeme.char) ++ tokensFrom 0 rest := by
  induction lexemes with
  | nil => rfl
  | cons lexeme lexemes ih =>
    rw [isSettled, Bool.and_eq_true, Bool.or_eq_true, bne_iff_ne] at h
    have hchar : ¬(lexeme = .plain '$' ∧ placeholderDigits (lexemes ++ rest) ≠ []) := by
      rintro ⟨hdollar, hdigits⟩
      rcases h.1 with hne | hrefutes
      · exact hne hdollar
      · exact hdigits (placeholderDigits_append hrefutes rest)
    rw [List.cons_append, tokensFrom, if_neg hchar, ih h.2]
    rfl

/-- The text holds no placeholder and starts none. -/
structure Silent (s : String) : Prop where
  closed : Closed s
  settled : isSettled (lex s) = true

/-- The text holds no placeholder, starts none and goes on with none. -/
structure Quiet (s : String) : Prop extends Silent s where
  start : ∀ c ∈ s.toList.head?, c.isDigit = false

theorem Silent.tokensFrom_append {s : String} (hs : Silent s) (rest : List Lexeme) :
    tokensFrom 0 (lex s ++ rest) = s.toList.map .char ++ tokensFrom 0 rest := by
  rw [tokensFrom_append_of_isSettled hs.settled, ← map_char_lex, List.map_map]
  rfl

theorem Silent.append {s t : String} (hs : Silent s) (ht : Silent t) : Silent (s ++ t) where
  closed := hs.closed.append ht.closed
  settled := by
    rw [lex_append hs.closed]
    exact isSettled_append hs.settled ht.settled

theorem Quiet.append {s t : String} (hs : Quiet s) (ht : Quiet t) : Quiet (s ++ t) where
  toSilent := hs.toSilent.append ht.toSilent
  start := forall_mem_head?_append hs.start ht.start

/-- Whether what is asked of a quiet text holds of the characters. -/
def isQuietWord (chars : List Char) : Bool :=
  chars.foldl Mode.next .outside == .outside && isSettled (lexFrom .outside chars) && chars.head?.all (!·.isDigit)

-- stated for lists of characters, so that it is computed for a literal without decoding the literal
theorem quiet_ofList {chars : List Char} (h : isQuietWord chars = true) : Quiet (String.ofList chars) := by
  rw [isQuietWord, Bool.and_eq_true, Bool.and_eq_true, beq_iff_eq, Option.all_eq_true] at h
  obtain ⟨⟨hclosed, hsettled⟩, hstart⟩ := h
  refine ⟨⟨?_, ?_⟩, ?_⟩
  · rwa [Closed, String.toList_ofList]
  · rwa [lex, String.toList_ofList]
  · rw [String.toList_ofList]
    exact fun c hc => by simpa using hstart c hc

/-- Behind another character a silent text may start with a digit. -/
theorem Quiet.append_silent {c : Char} {chars : List Char} (hs : Quiet (String.ofList (c :: chars))) {t : String}
    (ht : Silent t) : Quiet (String.ofList (c :: chars) ++ t) where
  toSilent := hs.toSilent.append ht
  start := by
    have hstart := hs.start
    rw [String.toList_ofList] at hstart
    rw [String.toList_append, String.toList_ofList]
    exact hstart

theorem Quiet.intercalate {separator : String} (hseparator : Quiet separator) {parts : List String}
    (h : ∀ s ∈ parts, Quiet s) : Quiet (separator.intercalate parts) := by
  induction parts with
  | nil => exact quiet_ofList rfl
  | cons s rest ih =>
    rw [List.forall_mem_cons] at h
    cases rest with
    | nil => simpa using h.1
    | cons t others =>
      rw [String.intercalate_cons_cons]
      exact (h.1.append hseparator).append (ih h.2)

theorem silent_of_isNameChar {s : String} (h : ∀ c ∈ s.toList, isNameChar c = true) : Silent s := by
  have hne : ∀ d, isNameChar d = false → d ∉ s.toList := by
    intro d hd hmem
    rw [h d hmem] at hd
    cases hd
  obtain ⟨hclosed, hlex⟩ := lex_of_not_mem (hne openBracket (by decide))
  refine ⟨hclosed, isSettled_of_not_mem ?_⟩
  rw [hlex]
  simpa using hne '$' (by decide)

theorem silent_of_readQuoted {content name : List Char} (h : readQuoted content = some (name, [])) :
    Silent (String.ofList (openBracket :: content)) := by
  obtain ⟨hclosed, hlex⟩ := lex_of_readQuoted h
  refine ⟨hclosed, isSettled_of_not_mem ?_⟩
  rw [hlex]
  simp

/-! ### Names and words -/

theorem isDigit_of_isNameStart {c : Char} (h : isNameStart c = true) : c.isDigit = false := by
  have hup : ∀ d : Char, ¬d ≤ '9' → d ≤ c → c.isDigit = false := by
    intro d hd hle
    have hc : ¬c ≤ '9' := fun hc => hd (Char.le_trans hle hc)
    unfold Char.isDigit
    rw [Bool.and_eq_false_iff]
    exact .inr (decide_eq_false hc)
  unfold isNameStart at h
  simp only [Bool.or_eq_true, Bool.and_eq_true, decide_eq_true_eq, beq_iff_eq] at h
  rcases h with (h | h) | rfl
  · exact hup 'A' (by decide) h.1
  · exact hup 'a' (by decide) h.1
  · rfl

theorem quiet_nameText (name : String) : Quiet (nameText name) where
  toSilent := by
    unfold nameText
    by_cases hplain : isPlainName name = true
    · rw [if_pos hplain]
      obtain ⟨c, rest, hname, hc, hrest⟩ := isPlainName_iff.1 hplain
      refine silent_of_isNameChar ?_
      rw [hname]
      exact List.forall_mem_cons.2 ⟨isNameChar_of_isNameStart hc, hrest⟩
    · rw [if_neg hplain]
      exact silent_of_readQuoted (readQuoted_append name.toList [])
  start := by
    obtain ⟨c, rest, hname, hc⟩ := head_nameText name
    rw [hname]
    rintro d ⟨⟩
    rcases hc with hc | rfl
    · exact isDigit_of_isNameStart hc
    · rfl

theorem quiet_fieldText (path : String) (tunnel : Option String) : Quiet (fieldText path tunnel) := by
  cases tunnel with
  | none => exact quiet_nameText path
  | some role => exact .append (.append (quiet_nameText path) (quiet_ofList rfl)) (quiet_nameText role)

theorem silent_toString (n : Nat) : Silent (toString n) := silent_of_isNameChar fun _ => isNameChar_of_mem_toString

theorem quiet_space : Quiet " " := quiet_ofList rfl

theorem quiet_comma : Quiet ", " := quiet_ofList rfl

theorem quiet_and : Quiet " AND " := quiet_ofList rfl

theorem quiet_close : Quiet ")" := quiet_ofList rfl

theorem quiet_as : Quiet " AS " := quiet_ofList rfl

theorem ScalarOp.quiet_sign (op : ScalarOp) : Quiet op.sign := by
  cases op <;> exact quiet_ofList rfl

theorem ListOp.quiet_sign (op : ListOp) : Quiet op.sign := by
  cases op <;> exact quiet_ofList rfl

theorem NullOp.quiet_sign (op : NullOp) : Quiet op.sign := by
  cases op <;> exact quiet_ofList rfl

theorem Direction.quiet_word (direction : Direction) : Quiet direction.word := by
  cases direction <;> exact quiet_ofList rfl

theorem quiet_columnText (left : String) : Quiet (columnText left) := by
  unfold columnText
  split
  · exact quiet_ofList rfl
  · exact quiet_nameText left

theorem quiet_boundsText (sort : List SortKey) (columns : List Column) (limit offset : Option Nat) :
    Quiet (boundsText sort columns limit offset) := by
  unfold boundsText
  refine .append (.append ?_ ?_) ?_
  · split
    · exact quiet_ofList rfl
    · refine .append (quiet_ofList rfl) (quiet_comma.intercalate (List.forall_mem_map.2 fun key _ => ?_))
      exact ((quiet_nameText _).append quiet_space).append key.direction.quiet_word
  · cases limit with
    | none => exact quiet_ofList rfl
    | some n => exact (quiet_ofList rfl).append_silent (silent_toString n)
  · cases offset with
    | none => exact quiet_ofList rfl
    | some n => exact (quiet_ofList rfl).append_silent (silent_toString n)

/-! ### Quiet fragments -/

namespace Fragment

/-- All texts of the fragment are quiet. -/
def IsQuiet (f : Fragment) : Prop := ∀ s, Piece.text s ∈ f → Quiet s

theorem isQuiet_nil : IsQuiet [] := by
  intro s hs
  cases hs

theorem isQuiet_text {s : String} {f : Fragment} (hs : Quiet s) (hf : IsQuiet f) : IsQuiet (.text s :: f) := by
  intro t ht
  rcases List.mem_cons.1 ht with he | ht
  · cases he
    exact hs
  · exact hf t ht

theorem isQuiet_value {v : Json} {f : Fragment} (hf : IsQuiet f) : IsQuiet (.value v :: f) := by
  intro t ht
  rcases List.mem_cons.1 ht with he | ht
  · cases he
  · exact hf t ht

theorem IsQuiet.append {f g : Fragment} (hf : IsQuiet f) (hg : IsQuiet g) : IsQuiet (f ++ g) := by
  intro s hs
  exact (List.mem_append.1 hs).elim (hf s) (hg s)

theorem isQuiet_ofText {s : String} (hs : Quiet s) : IsQuiet (ofText s) := isQuiet_text hs isQuiet_nil

theorem IsQuiet.between {f : Fragment} (hf : IsQuiet f) {opening closing : String} (hopening : Quiet opening)
    (hclosing : Quiet closing) : IsQuiet (between opening f closing) :=
  isQuiet_text hopening (hf.append (isQuiet_ofText hclosing))

theorem isQuiet_join {separator : String} (hseparator : Quiet separator) {fs : List Fragment}
    (h : ∀ f ∈ fs, IsQuiet f) : IsQuiet (join separator fs) := by
  induction fs using join.induct with
  | case1 => exact isQuiet_nil
  | case2 f => exact h f List.mem_cons_self
  | case3 f g rest ih =>
    rw [List.forall_mem_cons] at h
    exact h.1.append (isQuiet_text hseparator (ih h.2))

end Fragment

open Fragment (IsQuiet isQuiet_nil isQuiet_text isQuiet_value isQuiet_ofText isQuiet_join)

theorem isQuiet_of_mem_pointerFragments (tables ids : List String) : ∀ f ∈ pointerFragments tables ids, IsQuiet f := by
  intro f hf
  obtain ⟨table, _, hf⟩ := List.mem_flatMap.1 hf
  obtain ⟨id, _, rfl⟩ := List.mem_map.1 hf
  refine isQuiet_text (quiet_ofList rfl) (isQuiet_value (isQuiet_text quiet_comma ?_))
  exact isQuiet_value (isQuiet_text quiet_close isQuiet_nil)

theorem isQuiet_refFragment (op : ListOp) (left : String) (ids : List String) (tables : Option (List String))
    (tunnel : Option String) : IsQuiet (refFragment op left ids tables tunnel) := by
  have hfield := quiet_fieldText left tunnel
  have hsign := op.quiet_sign
  cases tables with
  | some tables =>
    have hopen : Quiet (fieldText left tunnel ++ " " ++ op.sign ++ " [") :=
      .append (.append (.append hfield quiet_space) hsign) (quiet_ofList rfl)
    have hpointers := isQuiet_join quiet_comma (isQuiet_of_mem_pointerFragments tables ids)
    exact hpointers.between hopen (quiet_ofList rfl)
  | none =>
    have hids : IsQuiet (Fragment.ofTexts ids) := isQuiet_value isQuiet_nil
    have hkey : Quiet ("meta::id(" ++ fieldText left tunnel ++ ") " ++ op.sign ++ " ") :=
      .append (.append (.append (.append (quiet_ofList rfl) hfield) (quiet_ofList rfl)) hsign) quiet_space
    have hkeys : Quiet ("array::map(" ++ fieldText left tunnel ++ ", |$v| meta::id($v)) " ++ op.sign ++ " ") :=
      .append (.append (.append (.append (quiet_ofList rfl) hfield) (quiet_ofList rfl)) hsign) quiet_space
    cases op with
    | isIn | notIn => exact isQuiet_text hkey hids
    | containsAll | containsAny | containsNone => exact isQuiet_text hkeys hids

namespace Filter

mutual

theorem isQuiet_fragment (filter : Filter) : IsQuiet filter.fragment := by
  match filter with
  | .scalar op left right =>
    have hword := ((quiet_columnText left).append quiet_space).append op.quiet_sign
    exact isQuiet_text (hword.append quiet_space) (isQuiet_value isQuiet_nil)
  | .list op left right =>
    have hword := ((quiet_columnText left).append quiet_space).append op.quiet_sign
    exact isQuiet_text (hword.append quiet_space) (isQuiet_value isQuiet_nil)
  | .ref op left ids tables tunnel => exact isQuiet_refFragment op left ids tables tunnel
  | .null op left tunnel =>
    exact isQuiet_ofText (((quiet_fieldText left tunnel).append quiet_space).append op.quiet_sign)
  | .and [] => exact isQuiet_ofText (quiet_ofList rfl)
  | .and (child :: rest) =>
    have hparts := List.forall_mem_cons.2 ⟨isQuiet_fragment child, isQuiet_of_mem_fragments rest⟩
    exact (isQuiet_join quiet_and hparts).between (quiet_ofList rfl) (quiet_ofList rfl)
  | .or children =>
    have hor : Quiet " OR " := quiet_ofList rfl
    exact (isQuiet_join hor (isQuiet_of_mem_fragments children)).between (quiet_ofList rfl) (quiet_ofList rfl)
  | .not child => exact (isQuiet_fragment child).between (quiet_ofList rfl) (quiet_ofList rfl)
  | .nested path cardinality tunnel inner =>
    have hfield := quiet_fieldText path tunnel
    have hrecords : Quiet
        (if cardinality.isMany then fieldText path tunnel else "[" ++ fieldText path tunnel ++ "]") := by
      split
      · exact hfield
      · exact .append (.append (quiet_ofList rfl) hfield) (quiet_ofList rfl)
    have hopen := ((quiet_ofList rfl : Quiet "array::len(").append hrecords).append (quiet_ofList rfl : Quiet "[WHERE ")
    exact (isQuiet_fragment inner).between hopen (quiet_ofList rfl)
  | .falsy => exact isQuiet_ofText (quiet_ofList rfl)

theorem isQuiet_of_mem_fragments (filters : List Filter) : ∀ f ∈ fragments filters, IsQuiet f := by
  match filters with
  | [] => simp [fragments]
  | f :: rest => exact List.forall_mem_cons.2 ⟨isQuiet_fragment f, isQuiet_of_mem_fragments rest⟩

end

theorem isQuiet_condition (filter : Filter) : IsQuiet filter.condition := by
  unfold condition
  split
  · exact isQuiet_join quiet_and (isQuiet_of_mem_fragments _)
  · exact filter.isQuiet_fragment

end Filter

theorem isQuiet_whereFragment {conditions : List Fragment} (h : ∀ c ∈ conditions, IsQuiet c) :
    IsQuiet (whereFragment conditions) := by
  cases conditions with
  | nil => exact isQuiet_nil
  | cons c rest => exact isQuiet_text (quiet_ofList rfl) (isQuiet_join quiet_and h)

theorem isQuiet_whereFragment_filter (filter : Option Filter) :
    IsQuiet (whereFragment (filter.toList.map Filter.condition)) :=
  isQuiet_whereFragment (List.forall_mem_map.2 fun f _ => f.isQuiet_condition)

theorem Source.isQuiet_fragment (source : Source) : IsQuiet source.fragment := by
  induction source with
  | scan tables =>
    exact isQuiet_ofText (quiet_comma.intercalate (List.forall_mem_map.2 fun table _ => quiet_nameText table))
  | pointer tables ids => exact isQuiet_join quiet_comma (isQuiet_of_mem_pointerFragments tables ids)
  | subquery source path filter cardinality ih =>
    have hwords : Quiet ("SELECT VALUE " ++ nameText path ++ " FROM ") :=
      .append (.append (quiet_ofList rfl) (quiet_nameText path)) (quiet_ofList rfl)
    have hselect := isQuiet_text hwords (ih.append (isQuiet_whereFragment_filter filter))
    cases cardinality with
    | one => exact hselect.between (quiet_ofList rfl) (quiet_ofList rfl)
    | many => exact hselect.between (quiet_ofList rfl) (quiet_ofList rfl)

theorem isQuiet_collapse (cardinality : Cardinality) {f : Fragment} (hf : IsQuiet f) :
    IsQuiet (cardinality.collapse f) := by
  cases cardinality with
  | one => exact hf.between (quiet_ofList rfl) (quiet_ofList rfl)
  | many => exact hf

theorem NestedScope.isQuiet_conditions (scope : NestedScope) : ∀ c ∈ scope.conditions, IsQuiet c := by
  refine List.forall_mem_append.2 ⟨?_, ?_⟩
  · refine List.forall_mem_map.2 fun ids _ => ?_
    exact isQuiet_text (quiet_ofList rfl) (isQuiet_value isQuiet_nil)
  · exact List.forall_mem_map.2 fun f _ => f.isQuiet_condition

namespace Column

mutual

theorem isQuiet_fragment (column : Column) : IsQuiet column.fragment := by
  have hkey := quiet_as.append (quiet_nameText column.outputKey)
  match column with
  | .metadata .thing label => exact isQuiet_ofText (.append (quiet_ofList rfl) (quiet_nameText _))
  | .metadata .id label => exact isQuiet_ofText (.append (quiet_ofList rfl) (quiet_nameText _))
  | .data path label =>
    unfold fragment
    dsimp only
    split
    · exact isQuiet_ofText (.append (quiet_ofList rfl) (quiet_nameText _))
    · split
      · exact isQuiet_ofText (quiet_nameText path)
      · exact isQuiet_ofText (((quiet_nameText path).append quiet_as).append (quiet_nameText _))
  | .reference path label cardinality tunnel =>
    have hkeys : Quiet ("(SELECT VALUE meta::id(id) FROM $parent." ++ fieldText path tunnel ++ ")") :=
      .append (.append (quiet_ofList rfl) (quiet_fieldText path tunnel)) quiet_close
    exact (isQuiet_collapse cardinality (isQuiet_ofText hkeys)).append (isQuiet_ofText hkey)
  | .flex path label cardinality =>
    have hname := quiet_nameText path
    cases cardinality with
    | one =>
      exact isQuiet_ofText (.append (.append (.append (.append (.append (.append (.append (quiet_ofList rfl) hname)
        (quiet_ofList rfl)) hname) (quiet_ofList rfl)) hname) (quiet_ofList rfl)) (quiet_nameText _))
    | many =>
      exact isQuiet_ofText (.append (.append (.append (quiet_ofList rfl) hname) (quiet_ofList rfl)) (quiet_nameText _))
  | .nested scope columns =>
    have hfrom : Quiet (" FROM $parent." ++ fieldText scope.path scope.tunnel) :=
      .append (quiet_ofList rfl) (quiet_fieldText scope.path scope.tunnel)
    have hbounds := (quiet_boundsText scope.sort columns scope.limit scope.offset).append quiet_close
    have hwhere := (isQuiet_whereFragment scope.isQuiet_conditions).append (isQuiet_ofText hbounds)
    have hlist := (isQuiet_listFragment columns).append (isQuiet_text hfrom hwhere)
    exact (isQuiet_collapse scope.cardinality (isQuiet_text (quiet_ofList rfl) hlist)).append (isQuiet_ofText hkey)

theorem isQuiet_listFragment (columns : List Column) : IsQuiet (listFragment columns) := by
  match columns with
  | [] => exact isQuiet_ofText (quiet_ofList rfl)
  | c :: rest => exact (isQuiet_fragment c).append (isQuiet_restFragment rest)

theorem isQuiet_restFragment (columns : List Column) : IsQuiet (restFragment columns) := by
  match columns with
  | [] => exact isQuiet_nil
  | c :: rest => exact isQuiet_text quiet_comma ((isQuiet_fragment c).append (isQuiet_restFragment rest))

end

end Column

theorem Plan.isQuiet_fragment (plan : Plan) : IsQuiet plan.fragment := by
  have hwhere := plan.source.isQuiet_fragment.append (isQuiet_whereFragment_filter plan.filter)
  have hbounds := isQuiet_ofText (quiet_boundsText plan.sort plan.columns plan.limit plan.offset)
  have hfrom := isQuiet_text (quiet_ofList rfl : Quiet " FROM ") (hwhere.append hbounds)
  exact isQuiet_collapse plan.cardinality
    (isQuiet_text (quiet_ofList rfl) ((Column.isQuiet_listFragment plan.columns).append hfrom))

/-! ### Tokens of what is written -/

namespace Fragment

open Params (ofValues)

/-- The tokens of a fragment whose values are numbered from `k` on. -/
def tokens (k : Nat) : Fragment → List Token
  | [] => []
  | .text s :: rest => s.toList.map .char ++ tokens k rest
  | .value _ :: rest => .placeholder (toString k).toList :: tokens (k + 1) rest

theorem head?_write_of_isQuiet {f : Fragment} (hf : IsQuiet f) (params : Params) :
    ∀ c ∈ (write params f).1.toList.head?, c.isDigit = false := by
  induction f generalizing params with
  | nil => simp
  | cons piece rest ih =>
    have hrest : IsQuiet rest := fun s hs => hf s (List.mem_cons_of_mem _ hs)
    cases piece with
    | text s => exact forall_mem_head?_append (hf s List.mem_cons_self).start (ih hrest params)
    | value v =>
      have hhead : (write params (.value v :: rest)).1.toList.head? = some '$' := by
        simp [Params.bind]
      rw [hhead]
      rintro c ⟨⟩
      rfl

theorem head?_lex {s : String} (h : ∀ c ∈ s.toList.head?, c.isDigit = false) :
    ∀ lexeme ∈ (lex s).head?, lexeme.isDigit = false := by
  unfold lex
  cases hlist : s.toList with
  | nil => simp [lexFrom]
  | cons c rest =>
    rw [hlist] at h
    rintro lexeme ⟨⟩
    by_cases hc : c = openBracket
    · rw [Mode.lexeme, if_pos hc]
      rfl
    · rw [Mode.lexeme, if_neg hc]
      exact h c rfl

theorem isDigit_of_mem_toString {n : Nat} {c : Char} (h : c ∈ (toString n).toList) : c.isDigit = true := by
  have hmem : c ∈ Nat.toDigits 10 n := by simpa using h
  exact Nat.isDigit_of_mem_toDigits (by decide) (by decide) hmem

theorem lex_placeholder (n : Nat) :
    Closed ("$" ++ Params.key n) ∧
      lex ("$" ++ Params.key n) = .plain '$' :: .plain 'p' :: (toString n).toList.map .plain := by
  have hchars : ("$" ++ Params.key n).toList = '$' :: 'p' :: (toString n).toList := by simp [Params.key]
  have hopen : openBracket ∉ ("$" ++ Params.key n).toList := by
    rw [hchars]
    intro hmem
    rcases List.mem_cons.1 hmem with he | hmem
    · exact absurd he (by decide)
    · rcases List.mem_cons.1 hmem with he | hmem
      · exact absurd he (by decide)
      · exact absurd (isDigit_of_mem_toString hmem) (by decide)
  obtain ⟨hclosed, hlex⟩ := lex_of_not_mem hopen
  exact ⟨hclosed, by rw [hlex, hchars]; rfl⟩

/-- A placeholder is read up to its last digit. -/
theorem tokensFrom_placeholder (n : Nat) {rest : List Lexeme} (hrest : ∀ lexeme ∈ rest.head?, lexeme.isDigit = false) :
    tokensFrom 0 (lex ("$" ++ Params.key n) ++ rest) = .placeholder (toString n).toList :: tokensFrom 0 rest := by
  rw [(lex_placeholder n).2]
  generalize hdigits : (toString n).toList = digits
  have hall : ∀ lexeme ∈ digits.map Lexeme.plain, lexeme.isDigit = true := by
    refine List.forall_mem_map.2 fun c hc => ?_
    exact isDigit_of_mem_toString (hdigits ▸ hc)
  have hstop : rest.takeWhile Lexeme.isDigit = [] := by
    cases rest with
    | nil => rfl
    | cons lexeme others => simp [hrest lexeme rfl]
  have hread : placeholderDigits (.plain 'p' :: (digits.map .plain ++ rest)) = digits := by
    rw [placeholderDigits, if_pos rfl, List.takeWhile_append_of_pos hall, hstop, List.append_nil, List.map_map]
    exact List.map_id _
  have hne : digits ≠ [] := by
    rw [← hdigits]
    simp
  rw [List.cons_append, List.cons_append, tokensFrom, hread, if_pos ⟨rfl, hne⟩, tokensFrom]
  have hskipped := tokensFrom_append_skipped (digits.map .plain) rest
  rw [List.length_map] at hskipped
  rw [hskipped]

/-- What is written is read as the texts and one placeholder for each value, numbered in their order. -/
theorem tokens_write {f : Fragment} (hf : IsQuiet f) (values : List Json) :
    ThingQuery.tokens (write (ofValues values) f).1 = f.tokens values.length := by
  induction f generalizing values with
  | nil => rfl
  | cons piece rest ih =>
    have hrest : IsQuiet rest := fun s hs => hf s (List.mem_cons_of_mem _ hs)
    cases piece with
    | text s =>
      have hs := hf s List.mem_cons_self
      rw [write_text, ThingQuery.tokens, lex_append hs.closed, hs.tokensFrom_append, tokens]
      exact congrArg _ (ih hrest values)
    | value v =>
      have hhead := head?_lex (head?_write_of_isQuiet hrest (ofValues (values ++ [v])))
      rw [write_value, Params.bind_ofValues, ThingQuery.tokens, lex_append (lex_placeholder _).1,
        tokensFrom_placeholder _ hhead, tokens]
      refine congrArg _ ((ih hrest (values ++ [v])).trans ?_)
      rw [List.length_append, List.length_singleton]

/-- The placeholders are numbered from `k` on. -/
theorem filterMap_key?_tokens (k : Nat) (f : Fragment) :
    (f.tokens k).filterMap Token.key? = (List.range' k f.values.length).map Params.key := by
  induction f generalizing k with
  | nil => rfl
  | cons piece rest ih =>
    cases piece with
    | text s =>
      have hchars : (s.toList.map Token.char).filterMap Token.key? = [] := by
        simp [List.filterMap_map, Token.key?]
      rw [tokens, List.filterMap_append, hchars, List.nil_append, ih, values_text]
    | value v =>
      have hkey : (Token.placeholder (toString k).toList).key? = some (Params.key k) := by
        rw [Token.key?, String.ofList_toList]
        rfl
      rw [tokens, List.filterMap_cons_some hkey, ih, values_value, List.length_cons, List.range'_succ, List.map_cons]

end Fragment

theorem Plan.placeholders_statement (values : List Json) (plan : Plan) :
    placeholders (plan.statement (.ofValues values)).1 =
      (List.range' values.length plan.literals.length).map Params.key := by
  rw [placeholders, Plan.statement, Fragment.tokens_write plan.isQuiet_fragment, Fragment.filterMap_key?_tokens,
    plan.values_fragment]

/-- The placeholders of all statements are numbered in one row. -/
theorem Plan.placeholders_statements (values : List Json) (plans : List Plan) :
    (Plan.statements (.ofValues values) plans).1.flatMap placeholders =
      (List.range' values.length (plans.flatMap Plan.literals).length).map Params.key := by
  induction plans generalizing values with
  | nil => rfl
  | cons plan rest ih =>
    rw [Plan.statements_cons, List.flatMap_cons, plan.placeholders_statement, ih, ← List.map_append, List.length_append,
      List.range'_append_1, List.flatMap_cons, List.length_append]

/-! ### Batches -/

namespace Schema

/-- In a batch of accepted queries, reading the statements from left to right outside of quoted names, the placeholders
are `$p0`, `$p1`, … up to the number of parameters, the keys of the parameters are just these, and the values under them
are the literals of the plans in the order in which they are written. -/
theorem placeholders_of_accepts {schema : Schema} {config : Config} {queries : List Query}
    (h : ∀ q ∈ queries, schema.Accepts config q) :
    ∃ batch plans, (schema.compile config queries).result = .ok batch ∧
      List.Forall₂ (fun q plan => (schema.plan config q).result = .ok plan) queries plans ∧
      batch.statements.flatMap placeholders = (List.range batch.params.size).map Params.key ∧
      batch.params.values.keys.Perm ((List.range batch.params.size).map Params.key) ∧
      (List.range batch.params.size).map (fun i => batch.params.get? (Params.key i)) =
        (plans.flatMap Plan.literals).map some := by
  obtain ⟨plans, hplans⟩ := forall₂_plan_of_accepts h
  have hnumbers := Params.numbers_ofValues (plans.flatMap Plan.literals)
  refine ⟨_, plans, compile_of_forall₂ hplans, hplans, ?_, ?_, ?_⟩ <;> rw [Batch.params_ofPlans, Params.size_ofValues]
  · rw [List.range_eq_range']
    exact Plan.placeholders_statements [] plans
  · exact hnumbers.keys
  · simp only [hnumbers.get?]
    refine List.ext_getElem? fun i => ?_
    rw [List.getElem?_map, List.getElem?_map]
    by_cases hi : i < (plans.flatMap Plan.literals).length
    · rw [List.getElem?_range hi, Option.map_some, List.getElem?_eq_getElem hi, Option.map_some]
    · rw [List.getElem?_eq_none (by simpa using hi), List.getElem?_eq_none (Nat.le_of_not_lt hi)]
      rfl

/-- The users of some name with one membership, where the name and the label look like placeholders. -/
def lookalikeQuery : Query where
  thing := "User"
  options := { filter := some (.object [("name", .string "$p9")]) }
  selection := .only
    [.field "name", .nested "members" (some "a $p5⟩") { id := some (.many ["m1"]) } (.only [.field "level"])]

theorem placeholders_of_accepts_lookalike :
    memberSchema.Accepts { metadata := false } lookalikeQuery ∧
      ∃ batch, (memberSchema.compile { metadata := false } [lookalikeQuery]).result = .ok batch ∧
        batch.statements.flatMap placeholders = ["p0", "p1"] ∧
        batch.params.get? "p0" = some (.array [.string "m1"]) ∧ batch.params.get? "p1" = some (.string "$p9") := by
  have haccepts : memberSchema.Accepts { metadata := false } lookalikeQuery := ⟨_, rfl⟩
  obtain ⟨batch, plans, hcompile, hplans, hplaceholders, _, hvalues⟩ :=
    placeholders_of_accepts (List.forall_mem_singleton.2 haccepts)
  refine ⟨haccepts, batch, hcompile, ?_⟩
  obtain ⟨plan, _, hplan, hnil, rfl⟩ := List.forall₂_cons_left_iff.1 hplans
  cases List.forall₂_nil_left_iff.1 hnil
  cases hplan
  change (List.range batch.params.size).map (fun i => batch.params.get? (Params.key i)) =
    [some (.array [.string "m1"]), some (.string "$p9")] at hvalues
  have hsize : batch.params.size = 2 := by simpa using congrArg List.length hvalues
  rw [hsize] at hplaceholders hvalues
  obtain ⟨hfirst, hrest⟩ := List.cons.inj hvalues
  exact ⟨hplaceholders, hfirst, (List.cons.inj hrest).1⟩

end Schema

end ThingQuery
