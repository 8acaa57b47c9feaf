import ThingQuery.Json.Basic

/-!
# Tokens of JSON text

A text is cut into tokens from left to right (`tokenize`).  A string token may hold halves of surrogate pairs; whether
they make a text is asked later (`textOf?`), because a reader may pass over a string without looking into it.  In the
same way a number token keeps its digits (`Numeral`), and whether its value is in range is asked later (`number?`).
-/

namespace ThingQuery

namespace Json

/-- A number as it is written. -/
structure Numeral where
  /-- Whether a minus sign stands in front. -/
  negative : Bool
  whole : List Nat
  /-- The digits after the point; empty when there is no point. -/
  fraction : List Nat
  exponent : Option Int
  deriving DecidableEq

/-- A part of a string: a character, or a half of a surrogate pair from a `\u` escape. -/
inductive StringPart where
  /-- A character that is written as itself or by an escape. -/
  | char (c : Char)
  /-- The escape of a code from D800 to DFFF. -/
  | surrogate (code : Nat)
  deriving DecidableEq

/-- A token. -/
inductive Token where
  | openObject
  | closeObject
  | openArray
  | closeArray
  | colon
  | comma
  | null
  | bool (b : Bool)
  | numeral (n : Numeral)
  | string (parts : List StringPart)
  deriving DecidableEq

/-- The value of a decimal digit. -/
def digit? (c : Char) : Option Nat :=
  if '0' ≤ c ∧ c ≤ '9' then some (c.toNat - 48) else none

/-- The value of a hexadecimal digit of either case. -/
def hexDigit? (c : Char) : Option Nat :=
  if '0' ≤ c ∧ c ≤ '9' then some (c.toNat - 48)
  else if 'a' ≤ c ∧ c ≤ 'f' then some (c.toNat - 87)
  else if 'A' ≤ c ∧ c ≤ 'F' then some (c.toNat - 55)
  else none

/-- The code that four hexadecimal digits stand for. -/
def hexCode? (a b c d : Char) : Option Nat := do
  let w ← hexDigit? a
  let x ← hexDigit? b
  let y ← hexDigit? c
  let z ← hexDigit? d
  some (((w * 16 + x) * 16 + y) * 16 + z)

/-- The part that a four-digit code stands for. -/
def partOfCode (code : Nat) : StringPart :=
  if 0xD800 ≤ code ∧ code ≤ 0xDFFF then .surrogate code else .char (Char.ofNat code)

/-- The character that a short escape stands for. -/
def shortEscape? (c : Char) : Option Char :=
  if c = '"' then some '"'
  else if c = '\\' then some '\\'
  else if c = '/' then some '/'
  else if c = 'b' then some '\x08'
  else if c = 'f' then some '\x0c'
  else if c = 'n' then some '\n'
  else if c = 'r' then some '\r'
  else if c = 't' then some '\t'
  else none

/-- Reads a string up to its closing quote and returns what follows it. -/
def scanString : List Char → Option (List StringPart × List Char)
  | [] => none
  | '"' :: rest => some ([], rest)
  | '\\' :: 'u' :: a :: b :: c :: d :: rest =>
    match hexCode? a b c d, scanString rest with
    | some code, some (parts, after) => some (partOfCode code :: parts, after)
    | _, _ => none
  | '\\' :: c :: rest =>
    match shortEscape? c, scanString rest with
    | some e, some (parts, after) => some (.char e :: parts, after)
    | _, _ => none
  | c :: rest =>
    if c.toNat < 32 then none
    else
      match scanString rest with
      | some (parts, after) => some (.char c :: parts, after)
      | none => none

theorem length_lt_of_scanString {cs : List Char} {parts : List StringPart} {after : List Char}
    (h : scanString cs = some (parts, after)) : after.length < cs.length := by
  fun_induction scanString cs generalizing parts after with
  | case1 => cases h
  | case2 rest => cases h; simp
  | case3 a b c d rest code parts' after' hs hc ih =>
    cases h
    have := ih hs
    simp only [List.length_cons]
    omega
  | case4 => cases h
  | case5 c rest hu e parts' after' hs hc ih =>
    cases h
    have := ih hs
    simp only [List.length_cons]
    omega
  | case6 => cases h
  | case7 => cases h
  | case8 c rest _ _ _ _ parts' after' hs ih =>
    cases h
    have := ih hs
    simp only [List.length_cons]
    omega
  | case9 => cases h

/-- Reads as many decimal digits as there are and returns what follows them. -/
def scanDigits : List Char → List Nat × List Char
  | [] => ([], [])
  | c :: rest =>
    match digit? c with
    | some d => (d :: (scanDigits rest).1, (scanDigits rest).2)
    | none => ([], c :: rest)

theorem length_scanDigits_le (cs : List Char) : (scanDigits cs).2.length ≤ cs.length := by
  induction cs with
  | nil => simp [scanDigits]
  | cons c rest ih =>
    unfold scanDigits
    split
    · simp only [List.length_cons]
      omega
    · simp

/-- The number that a list of decimal digits stands for. -/
def digitsValue (digits : List Nat) : Nat := digits.foldl (fun n d => n * 10 + d) 0

/-- Reads the part of a number from its point on, if it has one. -/
def scanFraction : List Char → Option (List Nat × List Char)
  | '.' :: rest =>
    if (scanDigits rest).1.isEmpty then none else some (scanDigits rest)
  | cs => some ([], cs)

theorem length_le_of_scanFraction {cs : List Char} {digits : List Nat} {after : List Char}
    (h : scanFraction cs = some (digits, after)) : after.length ≤ cs.length := by
  unfold scanFraction at h
  split at h
  · rename_i rest
    have := length_scanDigits_le rest
    split at h
    · cases h
    · simp only [Option.some.injEq] at h
      rw [h] at this
      simp only [List.length_cons] at this ⊢
      omega
  · cases h
    exact Nat.le_refl _

/-- Reads the sign of an exponent, which may be absent. -/
def scanSign : List Char → Bool × List Char
  | '+' :: rest => (false, rest)
  | '-' :: rest => (true, rest)
  | cs => (false, cs)

theorem length_scanSign_le (cs : List Char) : (scanSign cs).2.length ≤ cs.length := by
  unfold scanSign
  split <;> simp

/-- Reads the exponent of a number, if it has one. -/
def scanExponent : List Char → Option (Option Int × List Char)
  | [] => some (none, [])
  | c :: rest =>
    if c = 'e' ∨ c = 'E' then
      let (negative, unsigned) := scanSign rest
      let (digits, after) := scanDigits unsigned
      if digits.isEmpty then none
      else
        let n : Int := digitsValue digits
        some (some (if negative then -n else n), after)
    else
      some (none, c :: rest)

theorem length_le_of_scanExponent {cs : List Char} {exponent : Option Int} {after : List Char}
    (h : scanExponent cs = some (exponent, after)) : after.length ≤ cs.length := by
  unfold scanExponent at h
  split at h
  · cases h
    exact Nat.le_refl _
  · rename_i c rest
    have hs := length_scanSign_le rest
    have hd := length_scanDigits_le (scanSign rest).2
    split at h
    · dsimp only at h
      split at h
      · cases h
      · cases h
        simp only [List.length_cons]
        omega
    · cases h
      exact Nat.le_refl _

/-- Reads the digits before the point: a single zero, or digits that do not start with a zero. -/
def scanWhole : List Char → Option (List Nat × List Char)
  | [] => none
  | c :: rest =>
    match digit? c with
    | none => none
    | some 0 => some ([0], rest)
    | some d => some (d :: (scanDigits rest).1, (scanDigits rest).2)

theorem length_lt_of_scanWhole {cs : List Char} {digits : List Nat} {after : List Char}
    (h : scanWhole cs = some (digits, after)) : after.length < cs.length := by
  unfold scanWhole at h
  split at h
  · cases h
  · rename_i c rest
    have := length_scanDigits_le rest
    split at h
    · cases h
    · cases h
      simp
    · cases h
      simp only [List.length_cons]
      omega

/-- Reads a number without its sign. -/
def scanUnsigned (negative : Bool) (cs : List Char) : Option (Numeral × List Char) :=
  match scanWhole cs with
  | none => none
  | some (whole, afterWhole) =>
    match scanFraction afterWhole with
    | none => none
    | some (fraction, afterFraction) =>
      match scanExponent afterFraction with
      | none => none
      | some (exponent, after) => some (⟨negative, whole, fraction, exponent⟩, after)

theorem length_lt_of_scanUnsigned {negative : Bool} {cs : List Char} {n : Numeral} {after : List Char}
    (h : scanUnsigned negative cs = some (n, after)) : after.length < cs.length := by
  unfold scanUnsigned at h
  split at h
  · cases h
  · rename_i hw
    have := length_lt_of_scanWhole hw
    split at h
    · cases h
    · rename_i hf
      have := length_le_of_scanFraction hf
      split at h
      · cases h
      · rename_i he
        have := length_le_of_scanExponent he
        cases h
        omega

/-- Reads a word and returns what follows it. -/
def scanWord : List Char → List Char → Option (List Char)
  | [], rest => some rest
  | w :: ws, c :: cs => if w = c then scanWord ws cs else none
  | _ :: _, [] => none

theorem length_le_of_scanWord {word cs after : List Char} (h : scanWord word cs = some after) :
    after.length ≤ cs.length := by
  fun_induction scanWord word cs with
  | case1 => cases h; exact Nat.le_refl _
  | case2 w ws cs ih =>
    have := ih h
    simp only [List.length_cons]
    omega
  | case3 => cases h
  | case4 => cases h

/-- Whether a character may stand between tokens. -/
def isBlank (c : Char) : Bool := c = ' ' || c = '\t' || c = '\n' || c = '\r'

/-- The token of a punctuation character. -/
def punctuation? (c : Char) : Option Token :=
  if c = '\x7b' then some .openObject
  else if c = '\x7d' then some .closeObject
  else if c = '[' then some .openArray
  else if c = ']' then some .closeArray
  else if c = ':' then some .colon
  else if c = ',' then some .comma
  else none

/-- Reads the word that starts with the character `c` and returns its token and what follows it. -/
def scanLiteral (c : Char) (rest : List Char) : Option (Token × List Char) :=
  if c = 'n' then (scanWord ['u', 'l', 'l'] rest).map (Token.null, ·)
  else if c = 't' then (scanWord ['r', 'u', 'e'] rest).map (Token.bool true, ·)
  else if c = 'f' then (scanWord ['a', 'l', 's', 'e'] rest).map (Token.bool false, ·)
  else none

theorem length_le_of_scanLiteral {c : Char} {rest : List Char} {t : Token} {after : List Char}
    (h : scanLiteral c rest = some (t, after)) : after.length ≤ rest.length := by
  have key : ∀ (word : List Char) (u : Token), (scanWord word rest).map (u, ·) = some (t, after) →
      after.length ≤ rest.length := by
    intro word u hw
    obtain ⟨a, hs, he⟩ := Option.map_eq_some_iff.1 hw
    cases he
    exact length_le_of_scanWord hs
  unfold scanLiteral at h
  split at h
  · exact key _ _ h
  · split at h
    · exact key _ _ h
    · split at h
      · exact key _ _ h
      · cases h

/-- Reads the token that starts with the character `c` and returns what follows it. -/
def scanToken (c : Char) (rest : List Char) : Option (Token × List Char) :=
  match punctuation? c with
  | some t => some (t, rest)
  | none =>
    if c = '"' then (scanString rest).map (Prod.map Token.string id)
    else if c = '-' then (scanUnsigned true rest).map (Prod.map Token.numeral id)
    else
      match scanLiteral c rest with
      | some found => some found
      | none => (scanUnsigned false (c :: rest)).map (Prod.map Token.numeral id)

theorem length_le_of_scanToken {c : Char} {rest : List Char} {t : Token} {after : List Char}
    (h : scanToken c rest = some (t, after)) : after.length ≤ rest.length := by
  unfold scanToken at h
  split at h
  · cases h
    exact Nat.le_refl _
  · split at h
    · obtain ⟨⟨p, a⟩, hs, he⟩ := Option.map_eq_some_iff.1 h
      cases he
      exact Nat.le_of_lt (length_lt_of_scanString hs)
    · split at h
      · obtain ⟨⟨n, a⟩, hs, he⟩ := Option.map_eq_some_iff.1 h
        cases he
        exact Nat.le_of_lt (length_lt_of_scanUnsigned hs)
      · split at h
        · rename_i hs
          cases h
          exact length_le_of_scanLiteral hs
        · obtain ⟨⟨n, a⟩, hs, he⟩ := Option.map_eq_some_iff.1 h
          cases he
          exact Nat.le_of_lt_succ (length_lt_of_scanUnsigned hs)

/-- Cuts a text into tokens, or fails where no token starts. -/
def tokenize (cs : List Char) : Option (List Token) :=
  match cs with
  | [] => some []
  | c :: rest =>
    if isBlank c then tokenize rest
    else
      match _h : scanToken c rest with
      | none => none
      | some (t, after) => (tokenize after).map (t :: ·)
termination_by cs.length
decreasing_by
  · simp
  · have := length_le_of_scanToken _h
    simp only [List.length_cons]
    omega

/-- The characters of a string, where every surrogate has to be part of a pair. -/
def charsOf? : List StringPart → Option (List Char)
  | [] => some []
  | .char c :: rest => (charsOf? rest).map (c :: ·)
  | .surrogate high :: .surrogate low :: rest =>
    if high < 0xDC00 ∧ 0xDC00 ≤ low then
      (charsOf? rest).map (Char.ofNat (0x10000 + (high - 0xD800) * 0x400 + (low - 0xDC00)) :: ·)
    else
      none
  | .surrogate _ :: _ => none

/-- The text of a string token. -/
def textOf? (parts : List StringPart) : Option String := (charsOf? parts).map String.ofList

namespace Numeral

/-- The leading digits that together are below `2 ^ 64`, as one number, and how many digits follow them. -/
def leading (start : Nat) : List Nat → Nat × Nat
  | [] => (start, 0)
  | d :: rest =>
    if start * 10 + d < twoPow 64 then leading (start * 10 + d) rest
    else (start, rest.length + 1)

/-- The number as digits below `2 ^ 64` and a power of ten; digits after the point that do not fit are dropped. -/
def decimal (n : Numeral) : Decimal :=
  let (whole, dropped) := leading 0 n.whole
  let (digits, unread) := leading whole n.fraction
  { digits := digits
    exponent := n.exponent.getD 0 + dropped - (n.fraction.length - unread : Nat) }

/-- The value of a number: an integer that fits when there is neither point nor exponent, and otherwise a
floating-point number; `none` when that is too large. -/
def number? (n : Numeral) : Option JsonNumber :=
  let float := (Magnitude.ofDecimal? n.decimal).map fun m => JsonNumber.float ⟨n.negative, m⟩
  if n.fraction.isEmpty && n.exponent.isNone then
    let value := digitsValue n.whole
    if n.negative && value == 0 then float
    else
      match JsonInt.ofInt? (if n.negative then -value else value) with
      | some i => some (.int i)
      | none => float
  else
    float

end Numeral

end Json

end ThingQuery
