import ByteSplice.Text.Graphic

/-!
# Quoted characters and texts

Messages quote the characters and paths they speak of. A quoted form is unambiguous: the quote
that encloses it and the backslash are escaped, the common controls have short escapes, and
whatever is not graphic is written as `\u` with its code point between braces.

## Main definitions

* `Quoted.character` encloses in single quotes, `Quoted.text` in double quotes. Each leaves the
  other's quote alone.
-/

namespace ByteSplice.Text.Quoted

/-- The form of one character inside the given quote. -/
def escape (quote c : Char) : List Char :=
  if c = '\x00' then ['\\', '0']
  else if c = '\t' then ['\\', 't']
  else if c = '\r' then ['\\', 'r']
  else if c = '\n' then ['\\', 'n']
  else if c = '\\' ∨ c = quote then ['\\', c]
  else if isGraphic c then [c]
  else ['\\', 'u', '\x7b'] ++ Nat.toDigits 16 c.toNat ++ ['\x7d']

/-- A character between single quotes. -/
def character (c : Char) : String :=
  String.ofList ('\x27' :: (escape '\x27' c ++ ['\x27']))

/-- A text between double quotes. -/
def text (s : String) : String :=
  String.ofList ('"' :: (s.toList.flatMap (escape '"') ++ ['"']))

end ByteSplice.Text.Quoted
