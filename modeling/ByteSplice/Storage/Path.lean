/-!
# Paths

A path is written as names between slashes. An empty piece and a piece `.` stay where they are and
are left out of the names; a piece `..` is a name of its own, because what it means depends on the
tree. The text of a path is kept, since messages and reports show it as it was given.

The backup of `dir/file` is `dir/file.bak`. It is the same path with another last name, so the two
lie side by side whatever the tree is. Its text is built from the text of the directory, from
which slashes and pieces `.` at the end are dropped: the backup of `sub//a` is `sub/a.bak`.

A path leads to a place. Which one depends on the tree, so a place is a list of names without a
meaning of its own here.

## Main definitions

* `Path` and `Path.ofText`.
* `Path.backup`.
* `Place`.
-/

namespace ByteSplice

/-- A path, read. -/
structure Path where
  /-- The path as it was given. -/
  text : String
  /-- Whether the path starts at the root of the system and not at the current directory. -/
  absolute : Bool
  /-- The names on the way, without empty ones and `.`; `..` is one of them. -/
  names : List String
  /-- Whether the path ends in a slash or in `.`, and so can only mean a directory. -/
  directoryOnly : Bool
  /-- Whether the last piece that is not empty is `.`, so that the last name is gone into. -/
  endsInDot : Bool
  deriving DecidableEq, Repr

namespace Path

/-- The pieces of a text between slashes; there is one more of them than there are slashes. -/
def pieces : List Char → List (List Char)
  | [] => [[]]
  | c :: rest =>
    if c = '/' then [] :: pieces rest
    else
      match pieces rest with
      | [] => [[c]]
      | piece :: more => (c :: piece) :: more

/-- Whether a piece means the directory it stands in. -/
def staysPut (piece : List Char) : Bool :=
  piece.isEmpty || piece = ['.']

/-- Reads a path. -/
def ofText (text : String) : Path :=
  let parts := pieces text.toList
  { text
    absolute := text.toList.head? = some '/'
    names := (parts.filter fun piece => !staysPut piece).map String.ofList
    directoryOnly := (parts.getLast?.map staysPut).getD false
    endsInDot := (parts.filter fun piece => !piece.isEmpty).getLast? = some ['.'] }

/-- Drops pieces that stay put from the end, but never the first piece: alone it is the current
directory or, if it is empty, the root. -/
def dropIdle (parts : List (List Char)) : List (List Char) :=
  match parts with
  | [] => []
  | head :: rest => head :: (rest.reverse.dropWhile staysPut).reverse

/-- The text of pieces, with slashes between them. -/
def joined (parts : List (List Char)) : String :=
  String.ofList (List.intercalate ['/'] parts)

/-- The text of the directory that a path lies in, with the slash behind it; nothing for the
current directory. -/
def directoryText (text : String) : String :=
  match dropIdle ((dropIdle (pieces text.toList)).dropLast) with
  | [] => ""
  | parts => joined parts ++ "/"

/-- The path with `.bak` added to its last name. -/
def backup (p : Path) : Path :=
  let name := p.names.getLast?.getD "" ++ ".bak"
  { text := directoryText p.text ++ name
    absolute := p.absolute
    names := p.names.dropLast ++ [name]
    directoryOnly := false
    endsInDot := false }

end Path

/-- A place, as the names that lead to it. -/
abbrev Place := List String

end ByteSplice
