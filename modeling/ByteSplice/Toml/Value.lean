import ByteSplice.Decimal.Binary64

/-!
# TOML tables

A TOML document is a table of named values. Tables come about in four ways: under a header, on the
way to a table under a header, on the way to a value with a dotted key, and inline. The way matters
while a document is put together, since no table may be defined twice; it means nothing to whoever
looks up a value. So every table carries its `Origin`.

A document is put together from its parts in order. Entries keep the order in which they came, and a
table whose header comes after tables inside it moves to the end of the table it lies in.

## The rules

* A key is given once.
* A dotted key adds to tables that dotted keys made, and to no others. On the way there it may pass
  through tables that headers passed through, and through the last table of an array of tables.
* A header defines a table that does not exist, or one that headers have passed through.
* A header in double brackets adds a table to an array that such headers made.

## Main definitions

* `Value` and `Origin`.
* `Entries.insert`, for dotted keys, and `Entries.define` and `Entries.extend`, for headers.
-/

namespace ByteSplice.Toml

/-- How a table has come about. -/
inductive Origin
  /-- It has a header. -/
  | header
  /-- Only the header of a table inside it has been seen. -/
  | implied
  /-- A dotted key leads through it. -/
  | dotted
  /-- It stands between braces. -/
  | inline
  deriving DecidableEq, Repr

/-- A value. Dates and times are told from other values, but not from each other. -/
inductive Value
  | string (value : String)
  | integer (value : Int)
  | float (value : Binary64)
  | boolean (value : Bool)
  | datetime
  | array (items : List Value)
  | table (origin : Origin) (entries : List (String × Value))
  /-- The tables under headers in double brackets. -/
  | tables (items : List Value)

/-- The entries of a table, in order. -/
abbrev Entries := List (String × Value)

namespace Entries

/-- Gives a key that is there another value, in its place. -/
def set (key : String) (value : Value) (entries : Entries) : Entries :=
  entries.map fun entry => if entry.1 = key then (key, value) else entry

/-- The entries without a key. -/
def without (key : String) (entries : Entries) : Entries :=
  entries.filter fun entry => entry.1 ≠ key

/-- Changes the entries of the last table of an array. -/
def inLast (f : Entries → Option Entries) (items : List Value) : Option (List Value) :=
  match items.getLast? with
  | some (.table origin entries) =>
    (f entries).map fun entries => items.dropLast ++ [.table origin entries]
  | _ => none

/-- Adds a value under a dotted key: a path, and the last key. -/
def insert (key : String) (value : Value) : (path : List String) → Entries → Option Entries
  | [], entries =>
    match entries.lookup key with
    | some _ => none
    | none => some (entries ++ [(key, value)])
  | name :: path, entries =>
    match entries.lookup name with
    | none =>
      (insert key value path []).map fun inner => entries ++ [(name, .table .dotted inner)]
    | some (.table .dotted inner) =>
      (insert key value path inner).map fun inner => entries.set name (.table .dotted inner)
    | some (.table .implied inner) =>
      if path.isEmpty then none
      else (insert key value path inner).map fun inner => entries.set name (.table .implied inner)
    | some (.tables items) =>
      if path.isEmpty then none
      else (inLast (insert key value path) items).map fun items => entries.set name (.tables items)
    | some _ => none

/-- Changes the entries of the table that a header names as the one it lies in. -/
def under (f : Entries → Option Entries) : (path : List String) → Entries → Option Entries
  | [], entries => f entries
  | name :: path, entries =>
    match entries.lookup name with
    | none => (under f path []).map fun inner => entries ++ [(name, .table .implied inner)]
    | some (.table .inline _) => none
    | some (.table origin inner) =>
      (under f path inner).map fun inner => entries.set name (.table origin inner)
    | some (.tables items) =>
      (inLast (under f path) items).map fun items => entries.set name (.tables items)
    | some _ => none

/-- Defines the table of a header; `body` adds what stands below the header. -/
def define (body : Entries → Option Entries) (key : String) (entries : Entries) :
    Option Entries :=
  let add (inner : Entries) : Option Entries :=
    (body inner).map fun inner => entries.without key ++ [(key, .table .header inner)]
  match entries.lookup key with
  | none => add []
  | some (.table .implied inner) => add inner
  | some _ => none

/-- Adds a table to the array of a header in double brackets. -/
def extend (body : Entries → Option Entries) (key : String) (entries : Entries) :
    Option Entries :=
  match entries.lookup key with
  | none => (body []).map fun inner => entries ++ [(key, .tables [.table .header inner])]
  | some (.tables items) =>
    (body []).map fun inner => entries.set key (.tables (items ++ [.table .header inner]))
  | some _ => none

end Entries

end ByteSplice.Toml
