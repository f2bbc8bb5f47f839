import ByteSplice.Mismatch
import ByteSplice.Toml.Document

/-!
# Taking records out of TOML values

A record is read from a table: every key has to be the name of a field, and every field sets one
part of the record. Fields that are not given leave their part as it is, so a record starts out as
its defaults. A record may also be an array, whose items are for the fields in order; items beyond
the last field mean nothing.

A name from a fixed list is a string, or a table with that name as its only key and nothing behind
it.

The entries of a table are taken in the order of the document, and the first that does not fit
decides.

## Main definitions

* `Value.found`, what a value is called in messages.
* `Value.asFlag` and `Value.asName`.
* `Field`, `addEntries` and `Value.asRecord`.
-/

namespace ByteSplice.Toml

/-- The key under which a date stands when it is taken for a table. -/
def datetimeKey : String := "$__toml_private_datetime"

namespace Value

/-- What a value is called where something else is expected. -/
def found : Value → Found
  | string value => .text value
  | integer value => .integer value
  | float value => .float value
  | boolean value => .boolean value
  | datetime => .map
  | table _ _ => .map
  | array _ => .sequence
  | tables _ => .sequence

/-- The flag that a value is. -/
def asFlag : Value → Except Mismatch Bool
  | boolean value => .ok value
  | other => .error (.invalidType other.found "a boolean")

/-! ### Names -/

/-- Checks that there is nothing behind a name. -/
def asNothing : Value → Except Mismatch Unit
  | table _ [] => .ok ()
  | table _ _ => .error (.payload "empty table")
  | array [] => .ok ()
  | array _ => .error (.payload "empty table")
  | tables _ => .error (.payload "empty array")
  | string _ => .error (.payload "table, found string")
  | integer _ => .error (.payload "table, found integer")
  | float _ => .error (.payload "table, found float")
  | boolean _ => .error (.payload "table, found boolean")
  | datetime => .error (.payload "table, found datetime")

/-- What a name stands for. -/
def lookupName {α : Type} (names : List (String × α)) (name : String) : Except Mismatch α :=
  match names.lookup name with
  | some x => .ok x
  | none => .error (.unknownVariant name (names.map Prod.fst))

/-- What the name that a value gives stands for. -/
def asName {α : Type} (names : List (String × α)) : Value → Except Mismatch α
  | string name => lookupName names name
  | table _ [] => .error .noEntry
  | table _ [(name, value)] =>
    match lookupName names name with
    | .error e => .error e
    | .ok x => value.asNothing.map fun _ => x
  | table _ (_ :: _ :: _) => .error .severalEntries
  | _ => .error .notNameOrTable

end Value

/-! ### Records -/

/-- A field of a record: its name, and what a value for it makes of the record. -/
structure Field (α : Type) where
  name : String
  set : Value → α → Except Mismatch α

/-- Takes one entry of a table into a record. -/
def addEntry {α : Type} (fields : List (Field α)) (record : α) (entry : String × Value) :
    Except Mismatch α :=
  match fields.find? fun field => field.name = entry.1 with
  | some field => field.set entry.2 record
  | none => .error (.unknownField entry.1 (fields.map Field.name))

/-- Takes the entries of a table into a record. -/
def addEntries {α : Type} (fields : List (Field α)) (entries : Entries) (record : α) :
    Except Mismatch α :=
  entries.foldlM (addEntry fields) record

/-- Takes the items of an array into a record, each for the field in its place. -/
def addItems {α : Type} : List (Field α) → List Value → α → Except Mismatch α
  | field :: fields, item :: items, record =>
    match field.set item record with
    | .error e => .error e
    | .ok record => addItems fields items record
  | _, _, record => .ok record

/-- Takes a value into a record; `shapeName` is what the record is called in messages. -/
def Value.asRecord {α : Type} (shapeName : String) (fields : List (Field α)) :
    Value → α → Except Mismatch α
  | table _ entries, record => addEntries fields entries record
  | array items, record => addItems fields items record
  | tables items, record => addItems fields items record
  | datetime, _ => .error (.unknownField datetimeKey (fields.map Field.name))
  | other, _ => .error (.invalidType other.found ("struct " ++ shapeName))

end ByteSplice.Toml
