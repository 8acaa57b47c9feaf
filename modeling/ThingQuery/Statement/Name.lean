/-!
# Names in statements

A plain name, made of ASCII letters, digits and underscores and not starting with a digit, is written as it is.  Any
other name is written between angle brackets, with a backslash in front of a closing bracket and of a backslash in it.
-/

namespace ThingQuery

/-- Whether a character may start a plain name. -/
def isNameStart (c : Char) : Bool := ('A' ≤ c && c ≤ 'Z') || ('a' ≤ c && c ≤ 'z') || c == '_'

/-- Whether a character may stand in a plain name. -/
def isNameChar (c : Char) : Bool := isNameStart c || ('0' ≤ c && c ≤ '9')

/-- Whether a name is plain. -/
def isPlainName (name : String) : Bool :=
  match name.toList with
  | [] => false
  | c :: rest => isNameStart c && rest.all isNameChar

/-- The opening bracket of a quoted name. -/
def openBracket : Char := '⟨'

/-- The closing bracket of a quoted name. -/
def closeBracket : Char := '⟩'

/-- The form of a character in a quoted name. -/
def quoteNameChar (c : Char) : List Char :=
  if c = closeBracket ∨ c = '\\' then ['\\', c] else [c]

/-- A name as it is written in a statement. -/
def nameText (name : String) : String :=
  if isPlainName name then name
  else String.ofList (openBracket :: (name.toList.flatMap quoteNameChar ++ [closeBracket]))

/-- A field as it is written in a statement, with the role to which it leads on. -/
def fieldText (path : String) (tunnel : Option String) : String :=
  match tunnel with
  | some role => nameText path ++ "." ++ nameText role
  | none => nameText path

end ThingQuery
