import Mathlib.Data.List.Basic
import ThingQuery.Json.Document
import ThingQuery.Json.Printer

/-!
# Objects of texts are read back

Between quotes a text is written without characters below U+0020 (`Json.printable_quote`), and reading the quoted text
gives the text back, whatever follows it (`Json.lexes_quote`).  So an object whose members are texts is read back from
its compact text, as long as no name is repeated (`Json.ofText?_textObject`).
-/

namespace ThingQuery

namespace Json

/-! ### Characters inside a string -/

theorem hexDigit?_hexDigit : ∀ n < 16, hexDigit? (hexDigit n) = some n := by decide

theorem le_toNat_hexDigit : ∀ n < 16, 32 ≤ (hexDigit n).toNat := by decide

/-- A character is written by a short escape, by its code or as itself. -/
theorem escapeChar_cases (c : Char) :
    (∃ e, escapeChar c = ['\\', e] ∧ shortEscape? e = some c ∧ 32 ≤ e.toNat) ∨
    (c.toNat < 32 ∧ escapeChar c = ['\\', 'u', '0', '0', hexDigit (c.toNat / 16), hexDigit (c.toNat % 16)]) ∨
    (escapeChar c = [c] ∧ c ≠ '"' ∧ c ≠ '\\' ∧ 32 ≤ c.toNat) := by
  by_cases hquote : c = '"'
  · subst hquote
    exact .inl ⟨'"', rfl, rfl, by decide⟩
  by_cases hslash : c = '\\'
  · subst hslash
    exact .inl ⟨'\\', rfl, rfl, by decide⟩
  by_cases hn : c = '\n'
  · subst hn
    exact .inl ⟨'n', rfl, rfl, by decide⟩
  by_cases hr : c = '\r'
  · subst hr
    exact .inl ⟨'r', rfl, rfl, by decide⟩
  by_cases ht : c = '\t'
  · subst ht
    exact .inl ⟨'t', rfl, rfl, by decide⟩
  by_cases hb : c = '\x08'
  · subst hb
    exact .inl ⟨'b', rfl, rfl, by decide⟩
  by_cases hf : c = '\x0c'
  · subst hf
    exact .inl ⟨'f', rfl, rfl, by decide⟩
  have hescape : escapeChar c =
      if c.toNat < 32 then ['\\', 'u', '0', '0', hexDigit (c.toNat / 16), hexDigit (c.toNat % 16)] else [c] := by
    simp only [escapeChar, hquote, hslash, hn, hr, ht, hb, hf, if_false]
  by_cases hlow : c.toNat < 32
  · exact .inr (.inl ⟨hlow, hescape.trans (if_pos hlow)⟩)
  · exact .inr (.inr ⟨hescape.trans (if_neg hlow), hquote, hslash, by omega⟩)

/-- Whether a text has no characters below U+0020. -/
def Printable (text : String) : Prop := ∀ c ∈ text.toList, 32 ≤ c.toNat

theorem printable_of_toList_eq {text : String} {c : Char} (htext : text.toList = [c]) (hc : 32 ≤ c.toNat) :
    Printable text := by
  intro d hd
  rw [htext, List.mem_singleton] at hd
  rw [hd]
  exact hc

theorem printable_colon : Printable ":" := printable_of_toList_eq rfl (by decide)

theorem printable_comma : Printable "," := printable_of_toList_eq rfl (by decide)

theorem printable_openObject : Printable "\x7b" := printable_of_toList_eq rfl (by decide)

theorem printable_closeObject : Printable "\x7d" := printable_of_toList_eq rfl (by decide)

theorem Printable.append {s t : String} (hs : Printable s) (ht : Printable t) : Printable (s ++ t) := by
  intro c hc
  rw [String.toList_append] at hc
  exact (List.mem_append.1 hc).elim (hs c) (ht c)

theorem Printable.newline_notMem {text : String} (h : Printable text) : '\n' ∉ text.toList := by
  intro hmem
  exact absurd (h '\n' hmem) (by decide)

theorem le_toNat_of_mem_escapeChar {c d : Char} (h : d ∈ escapeChar c) : 32 ≤ d.toNat := by
  rcases escapeChar_cases c with ⟨e, heq, _, he⟩ | ⟨hlow, heq⟩ | ⟨heq, _, _, hc⟩ <;> rw [heq] at h
  · rcases List.mem_pair.1 h with rfl | rfl
    · decide
    · exact he
  · have hhigh := le_toNat_hexDigit (c.toNat / 16) (by omega)
    have hlast := le_toNat_hexDigit (c.toNat % 16) (by omega)
    simp only [List.mem_cons, List.not_mem_nil, or_false] at h
    rcases h with rfl | rfl | rfl | rfl | rfl | rfl
    · decide
    · decide
    · decide
    · decide
    · exact hhigh
    · exact hlast
  · rw [List.mem_singleton.1 h]
    exact hc

theorem toList_quote (s : String) : (quote s).toList = '"' :: (s.toList.flatMap escapeChar ++ ['"']) :=
  String.toList_ofList

theorem printable_quote (s : String) : Printable (quote s) := by
  intro c hc
  rw [toList_quote, List.mem_cons, List.mem_append, List.mem_singleton] at hc
  rcases hc with rfl | hc | rfl
  · decide
  · obtain ⟨d, _, hd⟩ := List.mem_flatMap.1 hc
    exact le_toNat_of_mem_escapeChar hd
  · decide

/-! ### Strings are read back -/

/-- The parts of a string token for a text. -/
def partsOf (s : String) : List StringPart := s.toList.map .char

theorem textOf?_partsOf (s : String) : textOf? (partsOf s) = some s := by
  have hchars : ∀ cs : List Char, charsOf? (cs.map .char) = some cs := by
    intro cs
    induction cs with
    | nil => rfl
    | cons c cs ih => rw [List.map_cons, charsOf?, ih, Option.map_some]
  rw [textOf?, partsOf, hchars, Option.map_some, String.ofList_toList]

/-- The code of a character below U+0020 stands for it. -/
theorem hexCode?_of_lt {c : Char} (h : c.toNat < 32) :
    hexCode? '0' '0' (hexDigit (c.toNat / 16)) (hexDigit (c.toNat % 16)) = some c.toNat := by
  have hzero : hexDigit? '0' = some 0 := rfl
  have hvalue : ((0 * 16 + 0) * 16 + c.toNat / 16) * 16 + c.toNat % 16 = c.toNat := by omega
  simp only [hexCode?, hzero, hexDigit?_hexDigit _ (show c.toNat / 16 < 16 by omega),
    hexDigit?_hexDigit _ (show c.toNat % 16 < 16 by omega), Option.bind_eq_bind, Option.bind_some, hvalue]

theorem partOfCode_toNat {c : Char} (h : c.toNat < 32) : partOfCode c.toNat = .char c := by
  have hlow : ¬(0xD800 ≤ c.toNat ∧ c.toNat ≤ 0xDFFF) := by omega
  rw [partOfCode, if_neg hlow, Char.ofNat_toNat]

/-- What an escaped character gives in front of a string that is read. -/
theorem scanString_escapeChar (c : Char) {rest after : List Char} {parts : List StringPart}
    (h : scanString rest = some (parts, after)) :
    scanString (escapeChar c ++ rest) = some (.char c :: parts, after) := by
  rcases escapeChar_cases c with ⟨e, heq, he, _⟩ | ⟨hlow, heq⟩ | ⟨heq, hquote, hslash, hc⟩
  · have hu : e ≠ 'u' := by
      rintro rfl
      cases he
    rw [heq, List.cons_append, List.cons_append, List.nil_append,
      scanString.eq_4 e rest fun _ _ _ _ _ hmark _ => hu hmark, he, h]
  · rw [heq]
    simp only [List.cons_append, List.nil_append]
    rw [scanString.eq_3, hexCode?_of_lt hlow, h]
    simp only [partOfCode_toNat hlow]
  · rw [heq, List.cons_append, List.nil_append, scanString.eq_5 c rest hquote (fun _ _ _ _ _ hmark _ => hslash hmark)
      (fun _ _ hmark _ => hslash hmark), if_neg (by omega), h]

theorem scanString_escaped (cs rest : List Char) :
    scanString (cs.flatMap escapeChar ++ '"' :: rest) = some (cs.map .char, rest) := by
  induction cs with
  | nil => rfl
  | cons c cs ih =>
    rw [List.flatMap_cons, List.append_assoc]
    exact scanString_escapeChar c ih

/-! ### Texts and their tokens -/

/-- Whether a text is cut into these tokens, whatever follows it. -/
def Lexes (text : String) (tokens : List Token) : Prop :=
  ∀ rest, tokenize (text.toList ++ rest) = (tokenize rest).map (tokens ++ ·)

theorem Lexes.append {s t : String} {us vs : List Token} (hs : Lexes s us) (ht : Lexes t vs) :
    Lexes (s ++ t) (us ++ vs) := by
  intro rest
  rw [String.toList_append, List.append_assoc, hs, ht, Option.map_map]
  exact congrArg (fun f => (tokenize rest).map f) (funext fun ts => (List.append_assoc us vs ts).symm)

theorem tokenize_cons {c : Char} {rest after : List Char} {token : Token} (hblank : isBlank c = false)
    (hscan : scanToken c rest = some (token, after)) :
    tokenize (c :: rest) = (tokenize after).map (token :: ·) := by
  rw [tokenize.eq_2, if_neg (by rw [hblank]; exact Bool.false_ne_true)]
  split
  · rename_i hnone
    rw [hscan] at hnone
    cases hnone
  · rename_i hsome
    rw [hscan] at hsome
    cases hsome
    rfl

theorem lexes_punctuation {text : String} {c : Char} {token : Token} (htext : text.toList = [c])
    (hblank : isBlank c = false) (h : punctuation? c = some token) : Lexes text [token] := by
  intro rest
  have hscan : scanToken c rest = some (token, rest) := by
    simp only [scanToken, h]
  rw [htext]
  exact tokenize_cons hblank hscan

theorem lexes_openObject : Lexes "\x7b" [.openObject] := lexes_punctuation rfl rfl rfl

theorem lexes_closeObject : Lexes "\x7d" [.closeObject] := lexes_punctuation rfl rfl rfl

theorem lexes_colon : Lexes ":" [.colon] := lexes_punctuation rfl rfl rfl

theorem lexes_comma : Lexes "," [.comma] := lexes_punctuation rfl rfl rfl

theorem lexes_quote (s : String) : Lexes (quote s) [.string (partsOf s)] := by
  intro rest
  have hscan : scanToken '"' (s.toList.flatMap escapeChar ++ '"' :: rest) = some (.string (partsOf s), rest) := by
    change (scanString _).map _ = _
    rw [scanString_escaped]
    rfl
  rw [toList_quote, List.cons_append, List.append_assoc]
  exact tokenize_cons rfl hscan

/-- Characters between tokens end the text. -/
theorem tokenize_of_isBlank {cs : List Char} (h : ∀ c ∈ cs, isBlank c = true) : tokenize cs = some [] := by
  induction cs with
  | nil => rw [tokenize]
  | cons c cs ih =>
    obtain ⟨hc, hcs⟩ := List.forall_mem_cons.1 h
    rw [tokenize.eq_2, if_pos hc]
    exact ih hcs

/-! ### Objects whose members are texts -/

/-- The members with these names and texts. -/
def textMembers (fields : List (String × String)) : List (String × Json) := fields.map (Prod.map id .string)

/-- The compact text of the object with these names and texts. -/
def textObject (fields : List (String × String)) : String := toText (.object (textMembers fields))

/-- The text of one member. -/
def memberText (field : String × String) : String := quote field.1 ++ ":" ++ quote field.2

theorem memberTexts_textMembers (fields : List (String × String)) :
    memberTexts (textMembers fields) = fields.map memberText := by
  induction fields with
  | nil => rfl
  | cons field rest ih =>
    rw [List.map_cons, ← ih]
    rfl

theorem textObject_cons (first : String × String) (rest : List (String × String)) :
    textObject (first :: rest) =
      "\x7b" ++ memberText first ++ String.join (rest.map fun field => "," ++ memberText field) ++ "\x7d" := by
  have hjoin : ",".intercalate ((first :: rest).map memberText) =
      memberText first ++ String.join (rest.map fun field => "," ++ memberText field) := by
    induction rest generalizing first with
    | nil => simp
    | cons second rest ih =>
      rw [List.map_cons, List.map_cons, String.intercalate_cons_cons, ← List.map_cons, ih, List.map_cons,
        String.join_cons]
      simp only [String.append_assoc]
  rw [textObject, toText, memberTexts_textMembers, hjoin, ← String.append_assoc]

theorem printable_memberText (field : String × String) : Printable (memberText field) :=
  ((printable_quote field.1).append printable_colon).append (printable_quote field.2)

theorem printable_join {texts : List String} (h : ∀ text ∈ texts, Printable text) : Printable (String.join texts) := by
  intro c hc
  rw [String.toList_join] at hc
  obtain ⟨text, htext, hmem⟩ := List.mem_flatMap.1 hc
  exact h text htext c hmem

theorem printable_textObject (first : String × String) (rest : List (String × String)) :
    Printable (textObject (first :: rest)) := by
  have hrest : Printable (String.join (rest.map fun field => "," ++ memberText field)) := by
    refine printable_join fun text htext => ?_
    obtain ⟨field, _, rfl⟩ := List.mem_map.1 htext
    exact printable_comma.append (printable_memberText field)
  rw [textObject_cons]
  exact ((printable_openObject.append (printable_memberText first)).append hrest).append printable_closeObject

/-- The tokens of one member. -/
def memberTokens (field : String × String) : List Token := [.string (partsOf field.1), .colon, .string (partsOf field.2)]

theorem lexes_memberText (field : String × String) : Lexes (memberText field) (memberTokens field) :=
  ((lexes_quote field.1).append lexes_colon).append (lexes_quote field.2)

theorem lexes_join (fields : List (String × String)) :
    Lexes (String.join (fields.map fun field => "," ++ memberText field))
      (fields.flatMap fun field => .comma :: memberTokens field) := by
  induction fields with
  | nil => exact fun rest => by simp
  | cons field rest ih =>
    rw [List.map_cons, String.join_cons, List.flatMap_cons]
    exact (lexes_comma.append (lexes_memberText field)).append ih

/-- The tokens of an object with at least one member. -/
def objectTokens (first : String × String) (rest : List (String × String)) : List Token :=
  .openObject :: (memberTokens first ++ ((rest.flatMap fun field => .comma :: memberTokens field) ++ [.closeObject]))

theorem lexes_textObject (first : String × String) (rest : List (String × String)) :
    Lexes (textObject (first :: rest)) (objectTokens first rest) := by
  rw [textObject_cons, String.append_assoc, String.append_assoc]
  exact lexes_openObject.append ((lexes_memberText first).append ((lexes_join rest).append lexes_closeObject))

/-- The document of one member. -/
def memberDocument (field : String × String) : List StringPart × Document :=
  (partsOf field.1, .string (partsOf field.2))

/-- Reading the remaining members and the end of an object. -/
theorem foldlM_step_members (fields : List (String × String)) (done : List (List StringPart × Document))
    (name : List StringPart) (last : Document) (opened : List Opened) :
    ((fields.flatMap fun field => Token.comma :: memberTokens field) ++ [Token.closeObject]).foldlM Reader.step
        (.next last (.object done name) opened) =
      some (Reader.complete (.object (((name, last) :: done).reverse ++ fields.map memberDocument)) opened) := by
  induction fields generalizing done name last with
  | nil =>
    rw [List.map_nil, List.append_nil]
    rfl
  | cons field rest ih =>
    have hrest := ih ((name, last) :: done) (partsOf field.1) (.string (partsOf field.2))
    rw [List.reverse_cons, List.append_assoc] at hrest
    exact hrest

theorem foldlM_step_object (first : String × String) (rest : List (String × String)) (opened : List Opened) :
    (objectTokens first rest).foldlM Reader.step (.value opened) =
      some (Reader.complete (.object ((first :: rest).map memberDocument)) opened) :=
  -- after the first member the reader waits for a comma or the end
  foldlM_step_members rest [] (partsOf first.1) (.string (partsOf first.2)) opened

theorem plainMembers?_memberDocument (room : Nat) (fields : List (String × String)) :
    Document.plainMembers? room (fields.map memberDocument) = some (textMembers fields) := by
  induction fields with
  | nil => rw [List.map_nil, Document.plainMembers?]; rfl
  | cons field rest ih =>
    rw [List.map_cons, memberDocument, Document.plainMembers?, Document.plain?, textOf?_partsOf, textOf?_partsOf, ih]
    rfl

theorem map_fst_textMembers (fields : List (String × String)) : (textMembers fields).map (·.1) = fields.map (·.1) := by
  simp [textMembers]

theorem textMembers_injective : Function.Injective textMembers := by
  refine List.map_injective_iff.2 ?_
  rintro ⟨key, text⟩ ⟨key', text'⟩ h
  cases h
  rfl

theorem mergedMembers_textMembers {fields : List (String × String)} (hnodup : (fields.map (·.1)).Nodup) :
    mergedMembers (textMembers fields) = textMembers fields := by
  induction fields with
  | nil => rw [textMembers, List.map_nil, mergedMembers]
  | cons field rest ih =>
    rw [List.map_cons, List.nodup_cons, ← map_fst_textMembers] at hnodup
    have hrest := ih (map_fst_textMembers rest ▸ hnodup.2)
    change mergeMember field.1 (merged (.string field.2)) (mergedMembers (textMembers rest)) = _
    rw [hrest, mergeMember, lookup_eq_none_of_notMem hnodup.1, merged]
    rfl

/-- An object of texts is read back, also where blanks follow it. -/
theorem ofText?_textObject {first : String × String} {rest : List (String × String)}
    (hnodup : ((first :: rest).map (·.1)).Nodup) {blank : String} (hblank : ∀ c ∈ blank.toList, isBlank c = true) :
    ofText? (textObject (first :: rest) ++ blank) = some (.object (textMembers (first :: rest))) := by
  have htokens : tokenize (textObject (first :: rest) ++ blank).toList = some (objectTokens first rest) := by
    rw [String.toList_append, lexes_textObject, tokenize_of_isBlank hblank, Option.map_some, List.append_nil]
  have hdocument : Document.ofText? (textObject (first :: rest) ++ blank) =
      some (.object ((first :: rest).map memberDocument)) := by
    rw [Document.ofText?, htokens, Option.bind_some, foldlM_step_object]
    rfl
  have hplain : Document.plain? Document.maxDepth (.object ((first :: rest).map memberDocument)) =
      some (.object (textMembers (first :: rest))) := by
    rw [Document.maxDepth, Document.plain?, plainMembers?_memberDocument, Option.map_some]
  rw [ofText?, hdocument, Option.bind_some, hplain, Option.map_some, merged, mergedMembers_textMembers hnodup]

end Json

end ThingQuery
