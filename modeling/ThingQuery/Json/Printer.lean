import ThingQuery.Json.Basic

/-!
# Compact JSON text

Values are written without blanks and object members in their own order.  Inside strings only the quote, the backslash
and the characters below U+0020 are escaped.
-/

namespace ThingQuery

namespace Json

/-- The lower-case hexadecimal digit of a number below sixteen. -/
def hexDigit (n : Nat) : Char := Nat.digitChar n

/-- The form of a character inside a string. -/
def escapeChar (c : Char) : List Char :=
  if c = '"' then ['\\', '"']
  else if c = '\\' then ['\\', '\\']
  else if c = '\n' then ['\\', 'n']
  else if c = '\r' then ['\\', 'r']
  else if c = '\t' then ['\\', 't']
  else if c = '\x08' then ['\\', 'b']
  else if c = '\x0c' then ['\\', 'f']
  else if c.toNat < 32 then ['\\', 'u', '0', '0', hexDigit (c.toNat / 16), hexDigit (c.toNat % 16)]
  else [c]

/-- A text between quotes. -/
def quote (s : String) : String :=
  String.ofList ('"' :: (s.toList.flatMap escapeChar ++ ['"']))

mutual

/-- The compact text of a value. -/
def toText : Json → String
  | .null => "null"
  | .bool true => "true"
  | .bool false => "false"
  | .number n => n.toText
  | .string s => quote s
  | .array items => "[" ++ ",".intercalate (itemTexts items) ++ "]"
  | .object members => "\x7b" ++ ",".intercalate (memberTexts members) ++ "\x7d"

/-- The texts of the items of a list. -/
def itemTexts : List Json → List String
  | [] => []
  | v :: rest => toText v :: itemTexts rest

/-- The texts of the members of an object. -/
def memberTexts : List (String × Json) → List String
  | [] => []
  | (k, v) :: rest => (quote k ++ ":" ++ toText v) :: memberTexts rest

end

end Json

end ThingQuery
