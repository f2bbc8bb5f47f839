import ByteSplice.Decimal.Shortest

/-!
# JSON values and how they are written

A value keeps the members of an object as a list, in the order in which they were given or are to
be written. Two written forms are in use: compact, on one line without blanks, and indented, with
two spaces for each level and one element or member on a line.

In a string the quote, the backslash and the controls are escaped: five controls have a short
escape, the others are written by their code with four lower-case hexadecimal digits. Everything
else stands for itself.

## Main definitions

* `Json`.
* `Json.compact` and `Json.indented`.
-/

namespace ByteSplice

/-- A JSON value. -/
inductive Json
  | null
  | boolean (value : Bool)
  | integer (value : Int)
  | float (value : Binary64)
  | string (value : String)
  | array (items : List Json)
  | object (members : List (String × Json))

namespace Json

/-- How one character is written inside a string. -/
def escape (c : Char) : List Char :=
  if c = '"' then ['\\', '"']
  else if c = '\\' then ['\\', '\\']
  else if c = '\x08' then ['\\', 'b']
  else if c = '\t' then ['\\', 't']
  else if c = '\n' then ['\\', 'n']
  else if c = '\x0c' then ['\\', 'f']
  else if c = '\r' then ['\\', 'r']
  else if c < ' ' then
    ['\\', 'u', '0', '0', (Nat.digitChar (c.toNat / 16)), (Nat.digitChar (c.toNat % 16))]
  else [c]

/-- A string with its quotes. -/
def quoted (s : String) : List Char :=
  '"' :: (s.toList.flatMap escape ++ ['"'])

/-- A value that has no parts. -/
def atom : Json → List Char
  | null => "null".toList
  | boolean value => (toString value).toList
  | integer value => (toString value).toList
  | float value => (value.text .compact).toList
  | string value => quoted value
  | array _ => ['[', ']']
  | object _ => ['\x7b', '\x7d']

/-! ### On one line -/

mutual

/-- The compact form of a value, as characters. -/
def compactChars : Json → List Char
  | array items => '[' :: (compactItems items ++ [']'])
  | object members => '\x7b' :: (compactMembers members ++ ['\x7d'])
  | other => other.atom

/-- The elements of an array, with commas between them. -/
def compactItems : List Json → List Char
  | [] => []
  | [item] => compactChars item
  | item :: rest => compactChars item ++ ',' :: compactItems rest

/-- The members of an object, with commas between them. -/
def compactMembers : List (String × Json) → List Char
  | [] => []
  | [(key, value)] => quoted key ++ ':' :: compactChars value
  | (key, value) :: rest => quoted key ++ ':' :: (compactChars value ++ ',' :: compactMembers rest)

end

/-- The compact form of a value. -/
def compact (j : Json) : String :=
  String.ofList j.compactChars

/-! ### Indented -/

/-- A new line at the given depth. -/
def newLine (depth : Nat) : List Char :=
  '\n' :: List.replicate (2 * depth) ' '

mutual

/-- The indented form of a value that starts on a line of the given depth. -/
def indentedChars (depth : Nat) : Json → List Char
  | array (item :: rest) =>
    '[' :: (newLine (depth + 1) ++ indentedItems (depth + 1) (item :: rest) ++
      newLine depth ++ [']'])
  | object (member :: rest) =>
    '\x7b' :: (newLine (depth + 1) ++ indentedMembers (depth + 1) (member :: rest) ++
      newLine depth ++ ['\x7d'])
  | other => other.atom

/-- The elements of an array, each on a line of the given depth. -/
def indentedItems (depth : Nat) : List Json → List Char
  | [] => []
  | [item] => indentedChars depth item
  | item :: rest => indentedChars depth item ++ ',' :: (newLine depth ++ indentedItems depth rest)

/-- The members of an object, each on a line of the given depth. -/
def indentedMembers (depth : Nat) : List (String × Json) → List Char
  | [] => []
  | [(key, value)] => quoted key ++ ':' :: ' ' :: indentedChars depth value
  | (key, value) :: rest =>
    quoted key ++ ':' :: ' ' :: (indentedChars depth value ++
      ',' :: (newLine depth ++ indentedMembers depth rest))

end

/-- The indented form of a value. -/
def indented (j : Json) : String :=
  String.ofList (j.indentedChars 0)

end Json

end ByteSplice
