import ByteSplice.Json.Shape
import ByteSplice.Json.Value

/-!
# Reading any JSON value

Where nothing is known of a text but that it is JSON, it is read as a value, with the members of
objects in the order in which they stand. Arrays and objects may be nested 127 deep.

## Main definitions

* `Json.parse`.
-/

namespace ByteSplice.Json

/-- How deep arrays and objects may be nested. -/
def depthLimit : Nat := 127

/-- The value that a number in a message stands for. -/
def ofFound : Found → Json
  | .integer value => integer value
  | .float value => float value
  | _ => null

/-- Reads a number after its sign; `s` starts with its digits. -/
def readNumberValue (negative : Bool) : Reader Json := fun s =>
  match readNumber negative s, passNumber s with
  | .error fault, _ => .error fault
  | .ok _, .error fault => .error fault
  | .ok found, .ok rest => .ok (ofFound found, rest)

/-- Reads a value without parts. -/
def readAtom : Reader Json
  | [] => .error .endOfText
  | c :: s =>
    if c = 'n' then (literal ['u', 'l', 'l'] s).map (null, ·)
    else if c = 't' then (literal ['r', 'u', 'e'] s).map (boolean true, ·)
    else if c = 'f' then (literal ['a', 'l', 's', 'e'] s).map (boolean false, ·)
    else if c = '"' then (readString s).map fun (text, rest) => (string text, rest)
    else if c = '-' then readNumberValue true s
    else if c.isDigit then readNumberValue false (c :: s)
    else .error .malformed

/-- Reads the rest of an array and puts `read`, which is in reverse, in front. The items are counted
by the characters of `fuel`, of which there are at least as many as of the text. -/
def itemsOnto (item : Reader Json) :
    (fuel : List Char) → (read : List Json) → Reader (List Json)
  | [], _, _ => .error .endOfText
  | _ :: fuel, read, s =>
    match nextItem read.isEmpty s with
    | .error fault => .error fault
    | .ok none => (endItems s).map (read.reverse, ·)
    | .ok (some rest) =>
      match item rest with
      | .error fault => .error fault
      | .ok (value, rest) => itemsOnto item fuel (value :: read) rest

/-- Reads one member of an object, behind its key, and puts it in front of those before it. -/
def addMember (item : Reader Json) (key : String) (read : List (String × Json)) :
    Reader (List (String × Json)) := fun s =>
  match (passColon s).bind item with
  | .error fault => .error fault
  | .ok (value, rest) => .ok ((key, value) :: read, rest)

/-- Reads a value with arrays and objects nested at most `depth` deep. -/
def readValue : (depth : Nat) → Reader Json
  | 0, s =>
    match skipBlanks s with
    | '[' :: _ | '\x7b' :: _ => .error .malformed
    | s => readAtom s
  | depth + 1, s =>
    match skipBlanks s with
    | '[' :: s =>
      (itemsOnto (readValue depth) s [] s).map fun (items, rest) =>
        (array items, rest)
    | '\x7b' :: s =>
      (readMembers (addMember (readValue depth)) s true [] s).map
        fun (members, rest) => (object members.reverse, rest)
    | s => readAtom s

/-- The value that a text describes. -/
def parse (text : String) : Except Fault Json :=
  parseWith (readValue depthLimit) text

end ByteSplice.Json
