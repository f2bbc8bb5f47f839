import ByteSplice.Toml.Scalar

/-!
# Reading TOML documents

A document is a list of sections. The first has no header; each of the others starts at a header.
A section holds pairs of a key and a value, each on a line of its own. Reading has two stages: the
text is taken apart into sections (`sections`), and the sections are put together into one table
(`Section.add`). A fault in either makes the whole document unreadable, and nothing more is said
about it.

Arrays may run over several lines and hold comments; inline tables may not. Both may be nested, but
no more than 79 deep, and a dotted key has no more than 79 parts.

## Main definitions

* `Pair`, `Header` and `Section`.
* `value`, which reads any value.
* `parse`.
-/

namespace ByteSplice.Toml

/-- A key and its value; the path is the dotted part in front of the last key. -/
structure Pair where
  path : List String
  key : String
  value : Value

/-- The header of a section. -/
structure Header where
  /-- Whether the header stands in double brackets. -/
  isArray : Bool
  path : List String
  key : String

/-- What stands below one header, or above the first. -/
structure Section where
  header : Option Header
  pairs : List Pair

/-! ### Putting tables together -/

/-- Adds pairs to the entries of a table. -/
def Entries.addPairs (pairs : List Pair) (entries : Entries) : Option Entries :=
  pairs.foldlM (fun entries p => Entries.insert p.key p.value p.path entries) entries

/-- Adds a section to a document. -/
def Section.add (document : Entries) (s : Section) : Option Entries :=
  match s.header with
  | none => document.addPairs s.pairs
  | some header =>
    let place := if header.isArray then Entries.extend else Entries.define
    document.under (place (Entries.addPairs s.pairs) header.key) header.path

/-- The document that sections make up. -/
def ofSections (parts : List Section) : Option Entries :=
  parts.foldlM Section.add []

/-! ### Lines and keys -/

/-- The text without the blanks in front. -/
def skipBlanks (s : List Char) : List Char :=
  s.dropWhile isBlank

/-- The text without a comment in front. -/
def skipComment (s : List Char) : List Char :=
  match s with
  | '#' :: rest => rest.dropWhile isPlain
  | _ => s

/-- Goes over the rest of a line on which nothing more may stand. -/
def endLine (s : List Char) : Option (List Char) :=
  match skipComment (skipBlanks s) with
  | [] => some []
  | s => newline? s

/-- Goes over blanks, comments and line ends; the lines are counted by the characters of `fuel`. -/
def skipSpaceFrom : (fuel : List Char) → List Char → List Char
  | [], s => s
  | _ :: fuel, s =>
    let s := skipBlanks s
    match newline? (skipComment s) with
    | some rest => skipSpaceFrom fuel rest
    | none => s

/-- Goes over blanks, comments and line ends. -/
def skipSpace (s : List Char) : List Char :=
  skipSpaceFrom s s

/-- Characters of keys that need no quotes. -/
def isBare (c : Char) : Bool :=
  c.isAlphanum || c = '-' || c = '_'

/-- Reads one part of a key. -/
def simpleKey : Reader String
  | '"' :: s => basicString s
  | '\x27' :: s => literalString s
  | s =>
    let key := s.takeWhile isBare
    if key.isEmpty then none else some (String.ofList key, s.dropWhile isBare)

/-- The largest number of parts of a key, and the largest depth of nesting. -/
def depthLimit : Nat := 79

/-- Reads a dotted key of at most `limit` parts and puts `path`, which is in reverse, in front. -/
def dottedKeyOnto : (limit : Nat) → (path : List String) → Reader (List String × String)
  | 0, _, _ => none
  | limit + 1, path, s =>
    (simpleKey (skipBlanks s)).bind fun (key, s) =>
      match skipBlanks s with
      | '.' :: s => dottedKeyOnto limit (key :: path) s
      | s => some ((path.reverse, key), s)

/-- Reads a dotted key, with the blanks behind it. -/
def dottedKey : Reader (List String × String) :=
  dottedKeyOnto depthLimit []

/-! ### Values -/

/-- Reads a pair, whose value `item` reads. -/
def pair (item : Reader Value) : Reader Pair := fun s => do
  let ((path, key), s) ← dottedKey s
  let s ← mark '=' s
  let (value, s) ← item (skipBlanks s)
  some (⟨path, key, value⟩, s)

/-- Reads the rest of an array and puts `read`, which is in reverse, in front. The items are counted
by the characters of `fuel`, of which there are at least as many as of the text. -/
def itemsOnto (item : Reader Value) :
    (fuel : List Char) → (read : List Value) → Reader (List Value)
  | [], _, _ => none
  | _ :: fuel, read, s =>
    match skipSpace s with
    | ']' :: s => some (read.reverse, s)
    | s =>
      (item s).bind fun (value, s) =>
        match skipSpace s with
        | ',' :: s => itemsOnto item fuel (value :: read) s
        | ']' :: s => some ((value :: read).reverse, s)
        | _ => none

/-- Reads one or more pairs of an inline table, up to and with the brace that ends it, and puts
`read`, which is in reverse, in front. The pairs are counted by the characters of `fuel`, of which
there are at least as many as of the text. -/
def pairsOnto (item : Reader Value) :
    (fuel : List Char) → (read : List Pair) → Reader (List Pair)
  | [], _, _ => none
  | _ :: fuel, read, s =>
    (pair item s).bind fun (p, s) =>
      match skipBlanks s with
      | ',' :: s => pairsOnto item fuel (p :: read) s
      | '\x7d' :: s => some ((p :: read).reverse, s)
      | _ => none

/-- Reads an inline table, after its brace. -/
def inlineTable (item : Reader Value) : Reader Value := fun s =>
  match skipBlanks s with
  | '\x7d' :: s => some (.table .inline [], s)
  | s =>
    (pairsOnto item s [] s).bind fun (pairs, s) =>
      (Entries.addPairs pairs []).map fun entries => (.table .inline entries, s)

/-- Reads a value in which arrays and inline tables are nested at most `depth` deep. -/
def value : (depth : Nat) → Reader Value
  | 0, s =>
    match s with
    | '[' :: _ | '\x7b' :: _ => none
    | s => scalar s
  | depth + 1, s =>
    match s with
    | '[' :: s =>
      (itemsOnto (value depth) s [] s).map fun (items, s) => (.array items, s)
    | '\x7b' :: s => inlineTable (value depth) s
    | s => scalar s

/-! ### Sections -/

/-- Reads a header, after its first bracket. -/
def header : Reader Header := fun s =>
  let (isArray, s) :=
    match s with
    | '[' :: s => (true, s)
    | s => (false, s)
  do
    let ((path, key), s) ← dottedKey s
    let s ← mark ']' s
    let s ← if isArray then mark ']' s else some s
    some (⟨isArray, path, key⟩, s)

/-- Reads the lines of a document. The section under way comes first, its pairs in reverse, and
then the sections in front of it, the last one first. -/
def sectionsOnto : (fuel : Nat) → (current : Section) → (closed : List Section) → List Char →
    Option (List Section)
  | 0, _, _, _ => none
  | fuel + 1, current, closed, s =>
    let finished : Section := { current with pairs := current.pairs.reverse }
    match skipBlanks s with
    | [] => some (finished :: closed).reverse
    | '[' :: s => do
      let (h, s) ← header s
      let s ← endLine s
      sectionsOnto fuel ⟨some h, []⟩ (finished :: closed) s
    | c :: s =>
      if c = '#' ∨ c = '\n' ∨ c = '\r' then do
        let s ← endLine (c :: s)
        sectionsOnto fuel current closed s
      else do
        let (p, s) ← pair (value depthLimit) (c :: s)
        let s ← endLine s
        sectionsOnto fuel { current with pairs := p :: current.pairs } closed s

/-- The sections of a text. -/
def sections (s : List Char) : Option (List Section) :=
  sectionsOnto (s.length + 1) ⟨none, []⟩ [] s

/-- The text without a byte order mark in front. -/
def skipByteOrderMark (s : List Char) : List Char :=
  match s with
  | '\ufeff' :: rest => rest
  | _ => s

/-- The table that a text describes. -/
def parse (text : String) : Option Entries :=
  (sections (skipByteOrderMark text.toList)).bind ofSections

end ByteSplice.Toml
