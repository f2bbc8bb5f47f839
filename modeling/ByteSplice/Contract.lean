import ByteSplice.Json.Shape
import ByteSplice.Json.Value
import ByteSplice.Patch

/-!
# The public contract in JSON

Requests come in as JSON, and outcomes, reports and errors go out as JSON. This module fixes the
shape of each: the names of its fields, their order when they are written, and which of them may be
left out when they are read.

A request is read either from text, by `Request.parse`, or from a JSON value that is already there,
by `Request.ofJson`. Fields that are not known mean nothing in both. The two differ where only the
text can be at fault, and in what they say of an array with too many elements: in a text the bracket
that should end the array is missing, and a value just has the wrong length.

## Main definitions

* `Request.parse`, `Request.ofJson` and `Request.toJson`.
* `ErrorReport.parse` and `ErrorReport.toJson`.
* `Encoding.parse`, `ZeroMatch.parse` and `ErrorKind.parse`.
* `Outcome.toJson` and `PlanReport.toJson`.
-/

namespace ByteSplice

open Json

/-! ### Names -/

/-- Reads the name of an encoding. -/
def Encoding.parse (text : String) : Except Fault Encoding :=
  parseWith (readName Encoding.named) text

/-- Reads the name of a policy. -/
def ZeroMatch.parse (text : String) : Except Fault ZeroMatch :=
  parseWith (readName ZeroMatch.named) text

/-- Reads the name of a kind of error. -/
def ErrorKind.parse (text : String) : Except Fault ErrorKind :=
  parseWith (readName ErrorKind.named) text

/-! ### Requests -/

namespace Request

/-- What a request is called in messages. -/
def shapeName : String := "FindReplaceRequest"

/-- The fields of a request that have been given so far. -/
structure Draft where
  findText : Option String := none
  replaceText : Option String := none
  nullTerminate : Option Bool := none
  allowOverflow : Option Bool := none
  deriving DecidableEq, Repr

/-- The request with the default of every field that is not given. -/
def Draft.complete (d : Draft) : Option Request :=
  d.findText.map fun findText =>
    { findText
      replaceText := d.replaceText.getD ""
      nullTerminate := d.nullTerminate.getD true
      allowOverflow := d.allowOverflow.getD false }

/-- Reads one member of a request. -/
def readMember (key : String) (d : Draft) : Reader Draft := fun s =>
  if key = "findText" then
    (readOnce key d.findText readText s).map fun (x, s) => ({ d with findText := some x }, s)
  else if key = "replaceText" then
    (readOnce key d.replaceText readText s).map fun (x, s) => ({ d with replaceText := some x }, s)
  else if key = "nullTerminate" then
    (readOnce key d.nullTerminate readFlag s).map fun (x, s) =>
      ({ d with nullTerminate := some x }, s)
  else if key = "allowOverflow" then
    (readOnce key d.allowOverflow readFlag s).map fun (x, s) =>
      ({ d with allowOverflow := some x }, s)
  else (passMember s).map fun s => (d, s)

/-- Reads a request that is an object, after its brace. -/
def readObject : Reader Request := fun s =>
  match readMembers readMember s true {} s with
  | .error fault => .error fault
  | .ok (d, s) =>
    match d.complete with
    | none => .error (.mismatch (.missingField "findText"))
    | some request => .ok (request, s)

/-- What is expected of a request that is an array. -/
def arrayShape : String :=
  "struct " ++ shapeName ++ " with 4 elements"

/-- Reads a request that is an array, after its bracket. -/
def readArray : Reader Request := fun s => do
  let (findText, s) ← readItem true readText s
  match findText with
  | none => .error (.mismatch (.invalidLength 0 arrayShape))
  | some findText =>
    let (replaceText, s) ← readItem false readText s
    let (nullTerminate, s) ← readItem false readFlag s
    let (allowOverflow, s) ← readItem false readFlag s
    .ok ({ findText
           replaceText := replaceText.getD ""
           nullTerminate := nullTerminate.getD true
           allowOverflow := allowOverflow.getD false }, s)

/-- Reads a request from the front of a text. -/
def read : Reader Request :=
  readRecord shapeName readObject readArray

/-- Reads a request from a text. -/
def parse (text : String) : Except Fault Request :=
  parseWith read text

/-- A request as JSON. -/
def toJson (r : Request) : Json :=
  .object [("findText", .string r.findText), ("replaceText", .string r.replaceText),
    ("nullTerminate", .boolean r.nullTerminate), ("allowOverflow", .boolean r.allowOverflow)]

end Request

/-! ### Requests from values -/

namespace Json

/-- What a value is called in messages. -/
def found : Json → Found
  | null => .null
  | boolean value => .boolean value
  | integer value => .integer value
  | float value => .float value
  | string value => .text value
  | array _ => .sequence
  | object _ => .map

/-- The string that a value is. -/
def asText : Json → Except Mismatch String
  | string value => .ok value
  | other => .error (.invalidType other.found "a string")

/-- The flag that a value is. -/
def asFlag : Json → Except Mismatch Bool
  | boolean value => .ok value
  | other => .error (.invalidType other.found "a boolean")

end Json

namespace Request

/-- Takes one member of an object into a draft. -/
def Draft.add (d : Draft) (key : String) (value : Json) : Except Mismatch Draft :=
  if key = "findText" then value.asText.map fun x => { d with findText := some x }
  else if key = "replaceText" then value.asText.map fun x => { d with replaceText := some x }
  else if key = "nullTerminate" then value.asFlag.map fun x => { d with nullTerminate := some x }
  else if key = "allowOverflow" then value.asFlag.map fun x => { d with allowOverflow := some x }
  else .ok d

/-- The draft of the elements of an array, in the order of the fields. -/
def Draft.ofItems (items : List Json) : Except Mismatch Draft := do
  let findText ← items[0]?.mapM Json.asText
  let replaceText ← items[1]?.mapM Json.asText
  let nullTerminate ← items[2]?.mapM Json.asFlag
  let allowOverflow ← items[3]?.mapM Json.asFlag
  .ok { findText, replaceText, nullTerminate, allowOverflow }

/-- The request that a value is. -/
def ofJson : Json → Except Mismatch Request
  | .object members => do
    let d ← members.foldlM (fun d member => Draft.add d member.1 member.2) {}
    match d.complete with
    | none => .error (.missingField "findText")
    | some request => .ok request
  | .array items => do
    let d ← Draft.ofItems items
    match d.complete with
    | none => .error (.invalidLength 0 arrayShape)
    | some request =>
      if items.length ≤ 4 then .ok request
      else .error (.invalidLength items.length "fewer elements in array")
  | other => .error (.invalidType other.found ("struct " ++ shapeName))

end Request

/-! ### Errors -/

namespace ErrorReport

/-- What an error is called in messages. -/
def shapeName : String := "ErrorResponse"

/-- The fields of an error that have been given so far. -/
structure Draft where
  kind : Option ErrorKind := none
  message : Option String := none
  deriving DecidableEq, Repr

/-- Reads one member of an error. -/
def readMember (key : String) (d : Draft) : Reader Draft := fun s =>
  if key = "kind" then
    (readOnce key d.kind (readName ErrorKind.named) s).map fun (x, s) =>
      ({ d with kind := some x }, s)
  else if key = "message" then
    (readOnce key d.message readText s).map fun (x, s) => ({ d with message := some x }, s)
  else (passMember s).map fun s => (d, s)

/-- Reads an error that is an object, after its brace. -/
def readObject : Reader ErrorReport := fun s =>
  match readMembers readMember s true {} s with
  | .error fault => .error fault
  | .ok (⟨none, _⟩, _) => .error (.mismatch (.missingField "kind"))
  | .ok (⟨_, none⟩, _) => .error (.mismatch (.missingField "message"))
  | .ok (⟨some kind, some message⟩, s) => .ok (⟨kind, message⟩, s)

/-- What is expected of an error that is an array. -/
def arrayShape : String :=
  "struct " ++ shapeName ++ " with 2 elements"

/-- Reads an error that is an array, after its bracket. -/
def readArray : Reader ErrorReport := fun s => do
  let (kind, s) ← readItem true (readName ErrorKind.named) s
  match kind with
  | none => .error (.mismatch (.invalidLength 0 arrayShape))
  | some kind =>
    let (message, s) ← readItem false readText s
    match message with
    | none => .error (.mismatch (.invalidLength 1 arrayShape))
    | some message => .ok (⟨kind, message⟩, s)

/-- Reads an error from the front of a text. -/
def read : Reader ErrorReport :=
  readRecord shapeName readObject readArray

/-- Reads an error from a text. -/
def parse (text : String) : Except Fault ErrorReport :=
  parseWith read text

/-- An error as JSON. -/
def toJson (e : ErrorReport) : Json :=
  .object [("kind", .string e.kind.name), ("message", .string e.message)]

end ErrorReport

/-! ### Outcomes and reports -/

/-- An outcome as JSON. -/
def Outcome.toJson (o : Outcome) : Json :=
  .object [("resource_id", .string o.resourceId), ("occurrences", .integer o.occurrences),
    ("changed", .boolean o.changed), ("old_len", .integer o.oldLength),
    ("new_len", .integer o.newLength)]

/-- The word for a verdict. -/
def PlanReport.verdict (r : PlanReport) : String :=
  if r.reason.isSome then "denied" else "allowed"

/-- A report as JSON; without a denial there is no reason. -/
def PlanReport.toJson (r : PlanReport) : Json :=
  .object <|
    [("offsets", .array (r.offsets.map fun n : Nat => .integer n)),
      ("search_len", .integer r.searchLength), ("replacement_len", .integer r.replacementLength),
      ("source_len", .integer r.sourceLength), ("output_len", .integer r.outputLength),
      ("source_md5", .string r.sourceMd5), ("verdict", .string r.verdict)] ++
    (r.reason.map fun reason => ("reason", .string reason)).toList

/-- A change as JSON. -/
def Change.toJson (c : Change) : Json :=
  .object [("resource_id", .string c.resourceId), ("occurrences", .integer c.occurrences),
    ("old_len", .integer c.oldLength), ("new_len", .integer c.newLength),
    ("old_md5", .string c.oldMd5), ("new_md5", .string c.newMd5)]

end ByteSplice
