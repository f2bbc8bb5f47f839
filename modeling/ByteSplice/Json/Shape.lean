import ByteSplice.Json.Pass

/-!
# Reading what is asked for

Whoever reads JSON knows what to expect: a text, a flag, one of several names, a record of fields.
The readers here take exactly that and turn anything else into a fault. Since the text is read from
left to right, a value of the wrong kind is looked at only as far as a message needs it: a number or
a string is read to its end, of an array or an object the first character is enough.

A name may be given as a string, or as an object that has the name as its only key and nothing
(`null`) behind it. A record may be given as an object or as an array of its fields in order.

## Main definitions

* `readText`, `readFlag` and `readName`.
* `readMembers` and `nextItem`, the steps of objects and arrays.
* `parseWith`, which reads a whole text.
-/

namespace ByteSplice.Json

/-- The fault of a value that is of another kind than expected. -/
def refuse (expected : String) (s : List Char) : Fault :=
  let found (f : Found) : Fault := .mismatch (.invalidType f expected)
  let after (r : Except Fault (List Char)) (f : Found) : Fault :=
    match r with
    | .error fault => fault
    | .ok _ => found f
  let number (r : Except Fault Found) : Fault :=
    match r with
    | .error fault => fault
    | .ok f => found f
  match s with
  | [] => .endOfText
  | c :: rest =>
    if c = 'n' then after (literal ['u', 'l', 'l'] rest) .null
    else if c = 't' then after (literal ['r', 'u', 'e'] rest) (.boolean true)
    else if c = 'f' then after (literal ['a', 'l', 's', 'e'] rest) (.boolean false)
    else if c = '-' then number (readNumber true rest)
    else if c.isDigit then number (readNumber false (c :: rest))
    else if c = '"' then
      match readString rest with
      | .error fault => fault
      | .ok (text, _) => found (.text text)
    else if c = '[' then found .sequence
    else if c = '\x7b' then found .map
    else .malformed

/-! ### Values without parts -/

/-- Reads a string. -/
def readText : Reader String := fun s =>
  match skipBlanks s with
  | [] => .error .endOfText
  | c :: rest => if c = '"' then readString rest else .error (refuse "a string" (c :: rest))

/-- Reads `true` or `false`. -/
def readFlag : Reader Bool := fun s =>
  match skipBlanks s with
  | [] => .error .endOfText
  | c :: rest =>
    if c = 't' then (literal ['r', 'u', 'e'] rest).map (true, ·)
    else if c = 'f' then (literal ['a', 'l', 's', 'e'] rest).map (false, ·)
    else .error (refuse "a boolean" (c :: rest))

/-- Reads `null`. -/
def readNothing (s : List Char) : Except Fault (List Char) :=
  match skipBlanks s with
  | [] => .error .endOfText
  | c :: rest =>
    if c = 'n' then literal ['u', 'l', 'l'] rest else .error (refuse "unit" (c :: rest))

variable {α σ : Type}

/-- What a name stands for. -/
def lookUp (known : List (String × α)) (name : String) : Except Fault α :=
  match known.lookup name with
  | some value => .ok value
  | none => .error (.mismatch (.unknownVariant name (known.map Prod.fst)))

/-- Reads a name after its opening quote. -/
def readKnown (known : List (String × α)) : Reader α := fun s =>
  match readString s with
  | .error fault => .error fault
  | .ok (name, rest) => (lookUp known name).map (·, rest)

/-- Reads a name that is a key, after the brace in front of it. A key that is not a string is a
fault of syntax, whatever it is. -/
def readKeyedName (known : List (String × α)) : Reader α := fun s =>
  match skipBlanks s with
  | [] => .error .endOfText
  | c :: rest =>
    if c = '"' then
      match readKnown known rest with
      | .error fault => .error fault
      | .ok (value, rest) =>
        match (passColon rest).bind readNothing with
        | .error fault => .error fault
        | .ok rest =>
          match skipBlanks rest with
          | [] => .error .endOfText
          | d :: rest => if d = '\x7d' then .ok (value, rest) else .error .malformed
    else .error .malformed

/-- Reads one of several names. -/
def readName (known : List (String × α)) : Reader α := fun s =>
  match skipBlanks s with
  | [] => .error .endOfText
  | c :: rest =>
    if c = '"' then readKnown known rest
    else if c = '\x7b' then readKeyedName known rest
    else .error .malformed

/-! ### Objects -/

/-- Reads a value for a field that must not have one yet. -/
def readOnce (name : String) (given : Option α) (read : Reader α) : Reader α := fun s =>
  match given with
  | some _ => .error (.mismatch (.duplicateField name))
  | none => (passColon s).bind read

/-- Goes over the value of a member that means nothing. -/
def passMember (s : List Char) : Except Fault (List Char) :=
  (passColon s).bind passValue

/-- Goes to the key of the next member: behind its quote, or behind the brace that ends the
object. -/
def nextMember (first : Bool) (s : List Char) : Except Fault (Bool × List Char) :=
  match skipBlanks s with
  | [] => .error .endOfText
  | c :: rest =>
    if c = '\x7d' then .ok (false, rest)
    else if first then if c = '"' then .ok (true, rest) else .error .malformed
    else if c = ',' then
      match skipBlanks rest with
      | [] => .error .endOfText
      | d :: rest => if d = '"' then .ok (true, rest) else .error .malformed
    else .error .malformed

/-- Reads members until the object ends. Each member is handed to `member` with what has been
gathered so far; it reads the colon and the value. The members are counted by the characters of
`fuel`, of which there are at least as many as of the text. -/
def readMembers (member : String → σ → Reader σ) :
    (fuel : List Char) → (first : Bool) → σ → Reader σ
  | [], _, _, _ => .error .endOfText
  | _ :: fuel, first, gathered, s =>
    match nextMember first s with
    | .error fault => .error fault
    | .ok (false, rest) => .ok (gathered, rest)
    | .ok (true, rest) =>
      match readString rest with
      | .error fault => .error fault
      | .ok (key, rest) =>
        match member key gathered rest with
        | .error fault => .error fault
        | .ok (gathered, rest) => readMembers member fuel false gathered rest

/-! ### Arrays -/

/-- Goes to the next element of an array; there is none in front of the bracket that ends it, and
that bracket is left. -/
def nextItem (first : Bool) (s : List Char) : Except Fault (Option (List Char)) :=
  match skipBlanks s with
  | [] => .error .endOfText
  | c :: rest =>
    if c = ']' then .ok none
    else if first then .ok (some (c :: rest))
    else if c = ',' then
      match skipBlanks rest with
      | [] => .error .endOfText
      | d :: rest => if d = ']' then .error .malformed else .ok (some (d :: rest))
    else .error .malformed

/-- Reads the next element, if there is one. -/
def readItem (first : Bool) (read : Reader α) : Reader (Option α) := fun s =>
  match nextItem first s with
  | .error fault => .error fault
  | .ok none => .ok (none, s)
  | .ok (some rest) => (read rest).map fun (value, rest) => (some value, rest)

/-- Ends an array: nothing may follow the last element that is asked for. -/
def endItems (s : List Char) : Except Fault (List Char) :=
  match skipBlanks s with
  | [] => .error .endOfText
  | c :: rest => if c = ']' then .ok rest else .error .malformed

/-! ### Records and whole texts -/

/-- Reads a record, as an object or as an array. -/
def readRecord (name : String) (object array : Reader α) : Reader α := fun s =>
  match skipBlanks s with
  | [] => .error .endOfText
  | c :: rest =>
    if c = '[' then
      match array rest with
      | .error fault => .error fault
      | .ok (value, rest) => (endItems rest).map (value, ·)
    else if c = '\x7b' then object rest
    else .error (refuse ("struct " ++ name) (c :: rest))

/-- Reads a whole text, with nothing but blanks behind the value. -/
def parseWith (read : Reader α) (text : String) : Except Fault α :=
  match read text.toList with
  | .error fault => .error fault
  | .ok (value, rest) => if (skipBlanks rest).isEmpty then .ok value else .error .malformed

end ByteSplice.Json
