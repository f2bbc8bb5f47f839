import ByteSplice.Bytes
import ByteSplice.Toml.Value

/-!
# TOML values without parts

Strings, numbers, dates and the two truth values, read from the front of a text. A reader returns
the value with what is left, or nothing: every fault in a document is the same fault.

A string stands between double quotes, where a backslash escapes, or between single quotes, where
it does not. Three quotes enclose a string of several lines; a line end just behind them does not
count, and every other line end counts as a line feed. Up to two quotes may stand in front of the
three that end it.

A number may have underscores between digits. An integer has to fit 64 bits with a sign. A
floating-point number above the range is refused; one below it is minus infinity.

## Main definitions

* `isBlank`, `isPlain` and `newline?`.
* `basicString`, `literalString` and `stringValue`.
* `dateTime?` and `number?`.
* `scalar`.
-/

namespace ByteSplice.Toml

/-- Reads something from the front of a text and returns it with what is left. -/
abbrev Reader (α : Type) := List Char → Option (α × List Char)

/-- Space and tab. -/
def isBlank (c : Char) : Bool :=
  c = ' ' || c = '\t'

/-- Characters that may stand in comments and strings: all but the controls other than the tab. -/
def isPlain (c : Char) : Bool :=
  c = '\t' || (' ' ≤ c && c ≠ '\x7f')

/-- Goes over a line end. -/
def newline? : List Char → Option (List Char)
  | '\n' :: rest => some rest
  | '\r' :: '\n' :: rest => some rest
  | _ => none

/-! ### Strings -/

/-- The value of some hexadecimal digits, and no other characters. -/
def hexNumber? (digits : List Char) : Option Nat :=
  digits.foldlM (fun n c => (hexValue? c).map fun d => n * 16 + d) 0

/-- Reads a code point of the given number of digits. -/
def codePoint (width : Nat) : Reader Char := fun s =>
  let digits := s.take width
  if digits.length < width then none
  else (hexNumber? digits).bind fun n =>
    if n < 0xd800 ∨ (0xdfff < n ∧ n < 0x110000) then some (Char.ofNat n, s.drop width) else none

/-- Reads what follows a backslash. -/
def escape : Reader Char
  | [] => none
  | c :: s =>
    if c = '"' ∨ c = '\\' then some (c, s)
    else if c = 'b' then some ('\x08', s)
    else if c = 't' then some ('\t', s)
    else if c = 'n' then some ('\n', s)
    else if c = 'f' then some ('\x0c', s)
    else if c = 'r' then some ('\r', s)
    else if c = 'u' then codePoint 4 s
    else if c = 'U' then codePoint 8 s
    else none

/-- Reads the rest of a string between double quotes and puts `read`, which is in reverse, in front.
The characters of the string are counted by those of `fuel`. -/
def basicOnto : (fuel read : List Char) → Reader String
  | [], _, _ => none
  | _, _, [] => none
  | _ :: fuel, read, c :: s =>
    if c = '"' then some (String.ofList read.reverse, s)
    else if c = '\\' then (escape s).bind fun (x, s) => basicOnto fuel (x :: read) s
    else if isPlain c then basicOnto fuel (c :: read) s
    else none

/-- Reads a string between double quotes, after the first of them. -/
def basicString : Reader String := fun s =>
  basicOnto s [] s

/-- Reads a string between single quotes, after the first of them. -/
def literalString : Reader String := fun s =>
  let body := s.takeWhile fun c => isPlain c && c ≠ '\x27'
  match s.dropWhile fun c => isPlain c && c ≠ '\x27' with
  | '\x27' :: rest => some (String.ofList body, rest)
  | _ => none

/-- Goes over blanks and line ends; the lines are counted by the characters of `fuel`. -/
def skipLines : (fuel : List Char) → List Char → List Char
  | [], s => s
  | _ :: fuel, s =>
    let s := s.dropWhile isBlank
    match newline? s with
    | some rest => skipLines fuel rest
    | none => s

/-- Goes over a line end that a backslash takes away, together with the blanks and empty lines
behind it. -/
def foldedLine? (s : List Char) : Option (List Char) :=
  (newline? (s.dropWhile isBlank)).map fun rest => skipLines rest rest

/-- Reads the rest of a string of several lines, in which `quote` encloses and escapes count or
not, and puts `read`, which is in reverse, in front. The characters of the string are counted by
those of `fuel`. -/
def linesOnto (quote : Char) (escapes : Bool) : (fuel read : List Char) → Reader String
  | [], _, _ => none
  | _, _, [] => none
  | _ :: fuel, read, c :: s =>
    if c = quote then
      let run := (s.takeWhile (· = quote)).length + 1
      if run < 3 then linesOnto quote escapes fuel (c :: read) s
      else
        let run := min run 5
        some (String.ofList ((List.replicate (run - 3) quote ++ read).reverse), s.drop (run - 1))
    else if c = '\\' && escapes then
      match foldedLine? s with
      | some s => linesOnto quote escapes fuel read s
      | none => (escape s).bind fun (x, s) => linesOnto quote escapes fuel (x :: read) s
    else
      match newline? (c :: s) with
      | some s => linesOnto quote escapes fuel ('\n' :: read) s
      | none => if isPlain c then linesOnto quote escapes fuel (c :: read) s else none

/-- Reads a string of several lines, after its three quotes. -/
def linesString (quote : Char) (escapes : Bool) : Reader String := fun s =>
  let s := (newline? s).getD s
  linesOnto quote escapes s [] s

/-- Reads a string. -/
def stringValue : Reader String
  | '"' :: '"' :: '"' :: s => linesString '"' true s
  | '"' :: s => basicString s
  | '\x27' :: '\x27' :: '\x27' :: s => linesString '\x27' false s
  | '\x27' :: s => literalString s
  | _ => none

/-! ### Dates and times -/

/-- Reads a number of exactly `width` digits between two bounds. -/
def fixedDigits (width low high : Nat) : Reader Nat := fun s =>
  let digits := s.take width
  if digits.length = width ∧ digits.all Char.isDigit then
    let n := digits.foldl (fun n c => n * 10 + (c.toNat - '0'.toNat)) 0
    if low ≤ n ∧ n ≤ high then some (n, s.drop width) else none
  else none

/-- Goes over one given character. -/
def mark (c : Char) : List Char → Option (List Char)
  | d :: s => if c = d then some s else none
  | [] => none

/-- The number of days of a month. -/
def daysIn (year month : Nat) : Nat :=
  if month = 2 then
    if year % 4 = 0 ∧ (year % 100 ≠ 0 ∨ year % 400 = 0) then 29 else 28
  else if month = 4 ∨ month = 6 ∨ month = 9 ∨ month = 11 then 30
  else 31

/-- Goes over a date. -/
def date? (s : List Char) : Option (List Char) := do
  let (year, s) ← fixedDigits 4 0 9999 s
  let s ← mark '-' s
  let (month, s) ← fixedDigits 2 1 12 s
  let s ← mark '-' s
  let (_, s) ← fixedDigits 2 1 (daysIn year month) s
  some s

/-- Goes over the fraction of a second, if there is one. -/
def skipFraction : List Char → List Char
  | '.' :: rest =>
    let digits := rest.takeWhile Char.isDigit
    if digits.isEmpty then '.' :: rest else rest.drop digits.length
  | s => s

/-- Goes over a time of day; a minute may have a sixty-first second. -/
def time? (s : List Char) : Option (List Char) := do
  let (_, s) ← fixedDigits 2 0 23 s
  let s ← mark ':' s
  let (_, s) ← fixedDigits 2 0 59 s
  let s ← mark ':' s
  let (_, s) ← fixedDigits 2 0 60 s
  some (skipFraction s)

/-- Goes over the distance from universal time. -/
def offset? : List Char → Option (List Char)
  | [] => none
  | c :: s =>
    if c = 'Z' ∨ c = 'z' then some s
    else if c = '+' ∨ c = '-' then do
      let (_, s) ← fixedDigits 2 0 23 s
      let s ← mark ':' s
      let (_, s) ← fixedDigits 2 0 59 s
      some s
    else none

/-- Goes over a time of day and, if there is one, the distance from universal time. -/
def timeWithOffset? (s : List Char) : Option (List Char) :=
  (time? s).map fun rest => (offset? rest).getD rest

/-- Goes over a date, a time, or a date with a time behind it. -/
def dateTime? (s : List Char) : Option (List Char) :=
  match date? s with
  | none => time? s
  | some [] => some []
  | some (c :: rest) =>
    if c = 'T' ∨ c = 't' ∨ c = ' ' then some ((timeWithOffset? rest).getD (c :: rest))
    else some (c :: rest)

/-! ### Numbers -/

/-- Reads digits with single underscores between them, and puts `read`, which is in reverse, in
front. -/
def digitsOnto (isDigit : Char → Bool) (read : List Char) : Reader (List Char)
  | '_' :: c :: s => if isDigit c then digitsOnto isDigit (c :: read) s else none
  | c :: s =>
    if isDigit c then digitsOnto isDigit (c :: read) s
    else if c = '_' then none
    else some (read.reverse, c :: s)
  | [] => some (read.reverse, [])

/-- Reads one or more digits with single underscores between them. -/
def digits (isDigit : Char → Bool) : Reader (List Char)
  | c :: s => if isDigit c then digitsOnto isDigit [c] s else none
  | [] => none

/-- The value of digits to a base. -/
def natOfDigits (base : Nat) (ds : List Char) : Nat :=
  ds.foldl (fun n c => n * base + (hexValue? c).getD 0) 0

/-- An integer, if it fits 64 bits with a sign. -/
def integerValue (n : Int) : Option Value :=
  if -0x8000000000000000 ≤ n ∧ n < 0x8000000000000000 then some (.integer n) else none

/-- Reads the digits of an integer to a base other than ten. -/
def basedInteger (base : Nat) (isDigit : Char → Bool) : Reader Value := fun s =>
  (digits isDigit s).bind fun (ds, rest) =>
    (integerValue (natOfDigits base ds)).map fun value => (value, rest)

/-- Reads a sign, if there is one. -/
def sign : List Char → Bool × List Char
  | '+' :: s => (false, s)
  | '-' :: s => (true, s)
  | s => (false, s)

/-- Reads the digits of a whole number: a zero alone, or digits that do not start with one. -/
def wholeDigits : Reader (List Char)
  | '0' :: s => some (['0'], s)
  | s => digits Char.isDigit s

/-- Reads what follows the `e` of an exponent. -/
def exponent : Reader Int := fun s =>
  let (minus, s) := sign s
  (digits Char.isDigit s).map fun (ds, rest) =>
    (if minus then -(natOfDigits 10 ds : Int) else natOfDigits 10 ds, rest)

/-- A floating-point number, unless it is above the range. -/
def floatValue (negative : Bool) (ds : List Char) (e : Int) : Option Value :=
  match Binary64.ofDecimal negative (natOfDigits 10 ds) e with
  | .infinite false => none
  | value => some (.float value)

/-- Reads what follows the whole digits of a number. -/
def numberTail (negative : Bool) (whole : List Char) : Reader Value
  | '.' :: s => do
    let (fraction, s) ← digits Char.isDigit s
    let (e, s) ←
      match s with
      | 'e' :: s | 'E' :: s => exponent s
      | _ => some (0, s)
    (floatValue negative (whole ++ fraction) (e - fraction.length)).map (·, s)
  | 'e' :: s | 'E' :: s => do
    let (e, s) ← exponent s
    (floatValue negative whole e).map (·, s)
  | s =>
    let n : Int := natOfDigits 10 whole
    (integerValue (if negative then -n else n)).map (·, s)

/-- Reads a number. -/
def number? : Reader Value
  | '0' :: 'x' :: s => basedInteger 16 (fun c => (hexValue? c).isSome) s
  | '0' :: 'o' :: s => basedInteger 8 (fun c => '0' ≤ c && c ≤ '7') s
  | '0' :: 'b' :: s => basedInteger 2 (fun c => c = '0' || c = '1') s
  | s =>
    match sign s with
    | (negative, 'i' :: 'n' :: 'f' :: rest) => some (.float (.infinite negative), rest)
    | (_, 'n' :: 'a' :: 'n' :: rest) => some (.float .nan, rest)
    | (negative, rest) =>
      (wholeDigits rest).bind fun (whole, rest) => numberTail negative whole rest

/-- Reads a value without parts. -/
def scalar : Reader Value
  | 't' :: 'r' :: 'u' :: 'e' :: s => some (.boolean true, s)
  | 'f' :: 'a' :: 'l' :: 's' :: 'e' :: s => some (.boolean false, s)
  | s =>
    match stringValue s with
    | some (value, rest) => some (.string value, rest)
    | none =>
      match dateTime? s with
      | some rest => some (.datetime, rest)
      | none => number? s

end ByteSplice.Toml
