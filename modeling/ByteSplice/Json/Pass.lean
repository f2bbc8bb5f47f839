import ByteSplice.Json.Number

/-!
# Going over values that nobody asked for

An object may have members that mean nothing to whoever reads it. Their values still have to be
good JSON, and exactly one value has to be passed over before the next member is read. Values may
be nested to any depth, so the arrays and objects that are open are kept on a stack of their own.

## Main definitions

* `passValue`.
-/

namespace ByteSplice.Json

/-- What has been opened and not yet closed. -/
inductive Frame
  | array
  | object
  deriving DecidableEq, Repr

/-- What may come next. -/
inductive Next
  /-- A value. -/
  | value
  /-- A value, or the end of the array that has just been opened. -/
  | firstItem
  /-- A member, or the end of the object that has just been opened. -/
  | firstMember
  /-- A member. -/
  | member
  /-- A comma, or the end of what is open. -/
  | separator
  deriving DecidableEq, Repr

/-- Goes over a value without parts. -/
def passAtom : List Char → Except Fault (List Char)
  | [] => .error .endOfText
  | c :: s =>
    if c = 'n' then literal ['u', 'l', 'l'] s
    else if c = 't' then literal ['r', 'u', 'e'] s
    else if c = 'f' then literal ['a', 'l', 's', 'e'] s
    else if c = '-' then passNumber s
    else if c.isDigit then passNumber (c :: s)
    else if c = '"' then passString s
    else .error .malformed

/-- Goes over a colon. -/
def passColon (s : List Char) : Except Fault (List Char) :=
  match skipBlanks s with
  | [] => .error .endOfText
  | c :: rest => if c = ':' then .ok rest else .error .malformed

/-- Goes over the key of a member, after its opening quote, and the colon behind it. -/
def passKey (s : List Char) : Except Fault (List Char) :=
  match passString s with
  | .error fault => .error fault
  | .ok rest => passColon rest

/-- What comes of one step: what may come next, what is open, and the characters that are left. -/
structure Place where
  next : Next
  frames : List Frame
  rest : List Char

/-- Goes over the first character of a value that has parts, or over the whole of one that has
none; `s` starts with the value. -/
def passStart (frames : List Frame) : List Char → Except Fault Place
  | '[' :: rest => .ok ⟨.firstItem, .array :: frames, rest⟩
  | '\x7b' :: rest => .ok ⟨.firstMember, .object :: frames, rest⟩
  | s => (passAtom s).map fun rest => ⟨.separator, frames, rest⟩

/-- Goes over the key of a member; `s` starts with its opening quote. -/
def passMemberStart (frames : List Frame) : List Char → Except Fault Place
  | '"' :: rest => (passKey rest).map fun rest => ⟨.value, frames, rest⟩
  | _ => .error .malformed

/-- Goes over what stands behind a value in the innermost of what is open. -/
def passSeparator (frames : List Frame) (c : Char) (rest : List Char) : Except Fault Place :=
  match frames with
  | [] => .error .malformed
  | .array :: outer =>
    if c = ',' then .ok ⟨.value, frames, rest⟩
    else if c = ']' then .ok ⟨.separator, outer, rest⟩
    else .error .malformed
  | .object :: outer =>
    if c = ',' then .ok ⟨.member, frames, rest⟩
    else if c = '\x7d' then .ok ⟨.separator, outer, rest⟩
    else .error .malformed

/-- Takes one step, from a character that is not a blank. Every step takes at least one. -/
def passStep (next : Next) (frames : List Frame) (c : Char) (rest : List Char) :
    Except Fault Place :=
  match next with
  | .value => passStart frames (c :: rest)
  | .firstItem =>
    if c = ']' then .ok ⟨.separator, frames.drop 1, rest⟩ else passStart frames (c :: rest)
  | .firstMember =>
    if c = '\x7d' then .ok ⟨.separator, frames.drop 1, rest⟩
    else passMemberStart frames (c :: rest)
  | .member => passMemberStart frames (c :: rest)
  | .separator => passSeparator frames c rest

/-- Goes on until everything that is open is closed. The steps are counted by the characters of
`fuel`, of which there are at least as many as of the text. -/
def passFrom : (fuel : List Char) → Next → List Frame → List Char → Except Fault (List Char)
  | _, .separator, [], s => .ok s
  | [], _, _, _ => .error .endOfText
  | _ :: fuel, next, frames, s =>
    match skipBlanks s with
    | [] => .error .endOfText
    | c :: rest =>
      match passStep next frames c rest with
      | .error fault => .error fault
      | .ok place => passFrom fuel place.next place.frames place.rest

/-- Goes over one value. -/
def passValue (s : List Char) : Except Fault (List Char) :=
  passFrom s .value [] s

end ByteSplice.Json
