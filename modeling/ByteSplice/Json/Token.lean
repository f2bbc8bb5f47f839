import ByteSplice.Bytes
import ByteSplice.Mismatch

/-!
# Reading JSON from left to right

JSON is read in one go, and the first thing that is wrong decides how reading ends. There are three
endings: the text breaks a rule of the grammar, it stops too early, or it is good so far and says
something that is not asked for (`Fault`).

This module reads the parts that a value is made of: blanks, fixed words, and strings. A reader
takes the characters that are left and returns what it has read with the characters left after it.

## Strings

An escape `\u` gives a UTF-16 unit. Units outside the surrogate range are characters; a high
surrogate has to be followed by the escape of a low one, and the two make one character. Whether
four digits follow `\u` is asked of the next four *bytes*: if there are fewer in the whole text, it
stops too early, whatever they are.

## Main definitions

* `Json.Fault` and `Json.Reader`.
* `skipBlanks`, `literal` and `readString`.
* `passString`, which goes over a string that nobody asked for. Its escapes need not pair up.
-/

namespace ByteSplice.Json

/-- How reading ends when it does not end well. -/
inductive Fault
  /-- The text breaks a rule of the grammar. -/
  | malformed
  /-- The text stops too early. -/
  | endOfText
  /-- The text says something that is not asked for. -/
  | mismatch (cause : Mismatch)
  deriving DecidableEq, Repr

/-- Reads something from the front of a text and returns it with what is left. -/
abbrev Reader (α : Type) := List Char → Except Fault (α × List Char)

/-! ### Blanks and words -/

/-- Space, tab, line feed and carriage return. -/
def isBlank (c : Char) : Bool :=
  c = ' ' || c = '\t' || c = '\n' || c = '\r'

/-- The text without the blanks in front. -/
def skipBlanks (s : List Char) : List Char :=
  s.dropWhile isBlank

/-- Reads exactly the given characters. -/
def literal : List Char → List Char → Except Fault (List Char)
  | [], s => .ok s
  | _ :: _, [] => .error .endOfText
  | c :: word, d :: s => if c = d then literal word s else .error .malformed

/-! ### Escapes -/

/-- The number of bytes of a text in UTF-8. -/
def byteSize (s : List Char) : Nat :=
  s.foldl (fun n c => n + c.utf8Size) 0

/-- Reads the four hexadecimal digits of a `\u` escape. -/
def readUnit : Reader Nat
  | a :: b :: c :: d :: rest =>
    match hexValue? a, hexValue? b, hexValue? c, hexValue? d with
    | some a, some b, some c, some d => .ok (((a * 16 + b) * 16 + c) * 16 + d, rest)
    | _, _, _, _ => .error .malformed
  | s => .error (if byteSize s < 4 then .endOfText else .malformed)

theorem readUnit_length {s : List Char} {n : Nat} {rest : List Char}
    (h : readUnit s = .ok (n, rest)) : rest.length < s.length := by
  unfold readUnit at h
  split at h
  · split at h
    · cases h; simp only [List.length_cons]; omega
    · cases h
  · cases h

/-- Whether a UTF-16 unit is the first of a pair. -/
def isHighSurrogate (n : Nat) : Bool :=
  0xd800 ≤ n && n ≤ 0xdbff

/-- Whether a UTF-16 unit is the second of a pair. -/
def isLowSurrogate (n : Nat) : Bool :=
  0xdc00 ≤ n && n ≤ 0xdfff

/-- Reads the second unit of a pair, after the first one. -/
def readPair (high : Nat) : Reader Char
  | '\\' :: 'u' :: s =>
    match readUnit s with
    | .error fault => .error fault
    | .ok (low, rest) =>
      if isLowSurrogate low then
        .ok (Char.ofNat (0x10000 + (high - 0xd800) * 0x400 + (low - 0xdc00)), rest)
      else .error .malformed
  | [] | ['\\'] => .error .endOfText
  | _ => .error .malformed

/-- Reads what follows `\u`. -/
def readUnicode : Reader Char := fun s =>
  match readUnit s with
  | .error fault => .error fault
  | .ok (n, rest) =>
    if isLowSurrogate n then .error .malformed
    else if isHighSurrogate n then readPair n rest
    else .ok (Char.ofNat n, rest)

/-- The character that a short escape stands for. -/
def shortEscape? (c : Char) : Option Char :=
  if c = '"' ∨ c = '\\' ∨ c = '/' then some c
  else if c = 'b' then some '\x08'
  else if c = 'f' then some '\x0c'
  else if c = 'n' then some '\n'
  else if c = 'r' then some '\r'
  else if c = 't' then some '\t'
  else none

/-- Reads what follows a backslash. -/
def readEscape : Reader Char
  | [] => .error .endOfText
  | c :: s =>
    match shortEscape? c with
    | some x => .ok (x, s)
    | none => if c = 'u' then readUnicode s else .error .malformed

theorem readPair_length {high : Nat} {s : List Char} {c : Char} {rest : List Char}
    (h : readPair high s = .ok (c, rest)) : rest.length < s.length := by
  unfold readPair at h
  split at h
  · split at h
    · cases h
    · next hu =>
      split at h
      · simp only [Except.ok.injEq, Prod.mk.injEq] at h
        obtain ⟨-, rfl⟩ := h
        exact Nat.lt_trans (readUnit_length hu) (by simp only [List.length_cons]; omega)
      · cases h
  all_goals cases h

theorem readEscape_length {s : List Char} {c : Char} {rest : List Char}
    (h : readEscape s = .ok (c, rest)) : rest.length < s.length := by
  unfold readEscape at h
  split at h
  · cases h
  · split at h
    · cases h; simp
    · split at h
      · unfold readUnicode at h
        split at h
        · cases h
        · next hu =>
          have := readUnit_length hu
          split at h
          · cases h
          · split at h
            · have := readPair_length h
              simp only [List.length_cons]; omega
            · cases h; simp only [List.length_cons]; omega
      · cases h

/-! ### Strings -/

/-- Reads the rest of a string, up to and with the quote that ends it, and puts `read`, which is
in reverse, in front. -/
def readStringOnto (read : List Char) (s : List Char) : Except Fault (List Char × List Char) :=
  match s with
  | [] => .error .endOfText
  | c :: rest =>
    if c = '"' then .ok (read.reverse, rest)
    else if c = '\\' then
      match h : readEscape rest with
      | .error fault => .error fault
      | .ok (x, rest') =>
        have : rest'.length < rest.length := readEscape_length h
        readStringOnto (x :: read) rest'
    else if c < ' ' then .error .malformed
    else readStringOnto (c :: read) rest
termination_by s.length
decreasing_by
  · simp only [List.length_cons]; omega
  · simp

/-- Reads the rest of a string, after its opening quote. -/
def readString : Reader String := fun s =>
  match readStringOnto [] s with
  | .error fault => .error fault
  | .ok (chars, rest) => .ok (String.ofList chars, rest)

/-- Goes over what follows a backslash. -/
def passEscape : List Char → Except Fault (List Char)
  | [] => .error .endOfText
  | c :: s =>
    match shortEscape? c with
    | some _ => .ok s
    | none =>
      if c = 'u' then
        match readUnit s with
        | .error fault => .error fault
        | .ok (_, rest) => .ok rest
      else .error .malformed

theorem passEscape_length {s rest : List Char} (h : passEscape s = .ok rest) :
    rest.length < s.length := by
  unfold passEscape at h
  split at h
  · cases h
  · split at h
    · cases h; simp
    · split at h
      · split at h
        · cases h
        · next hu =>
          have := readUnit_length hu
          cases h; simp only [List.length_cons]; omega
      · cases h

/-- Goes over the rest of a string, up to and with the quote that ends it. -/
def passString (s : List Char) : Except Fault (List Char) :=
  match s with
  | [] => .error .endOfText
  | c :: rest =>
    if c = '"' then .ok rest
    else if c = '\\' then
      match h : passEscape rest with
      | .error fault => .error fault
      | .ok rest' =>
        have : rest'.length < rest.length := passEscape_length h
        passString rest'
    else if c < ' ' then .error .malformed
    else passString rest
termination_by s.length
decreasing_by
  · simp only [List.length_cons]; omega
  · simp

end ByteSplice.Json
