import ByteSplice.Json.Token

/-!
# JSON numbers

Nothing that is read from JSON has a number in it, so a number is read only in two ways: to say in
a message that it stands where something else should, or to go over it.

A number without fraction and exponent that fits 64 bits, with or without a sign, is an integer.
Any other number, and minus zero, is a floating-point number. Its digits are gathered into an
integer as long as that fits 64 bits without a sign; what comes after counts only as powers of ten.
The integer is rounded to floating point and then multiplied or divided by a power of ten, itself
rounded, so the result may be off by a unit in the last place. A number too large for floating
point is no number at all.

## Main definitions

* `readNumber`, what a number is called in messages.
* `passNumber`, which only looks at the grammar. There a number that stops too early breaks the
  grammar.
-/

namespace ByteSplice.Json

/-- The largest integer that digits are gathered into. -/
def gatherLimit : Nat := 0xffffffffffffffff

/-- The value of a decimal digit. -/
def digitValue (c : Char) : Nat :=
  c.toNat - '0'.toNat

/-- Gathers digits into an integer and counts those that no longer fit. -/
def gather (digits : List Char) (start : Nat) : Nat × Nat :=
  digits.foldl
    (fun (value, left) c =>
      if left = 0 ∧ value * 10 + digitValue c ≤ gatherLimit then (value * 10 + digitValue c, 0)
      else (value, left + 1))
    (start, 0)

/-- The largest power of ten that floating point has. -/
def maxPower : Nat := 308

/-- The power of ten nearest to `10 ^ n`. -/
def power (n : Nat) : Binary64 :=
  .ofRatio false (powerOfTen n) 1

/-- Scales a number by a power of ten, in several steps if the power is very small. There is no
result if it is too large. -/
def scale (value : Binary64) : (fuel : Nat) → (exponent : Int) → Option Binary64
  | 0, _ => some value
  | fuel + 1, exponent =>
    if exponent.natAbs ≤ maxPower then
      if exponent < 0 then some (value.div (power exponent.natAbs))
      else
        match value.mul (power exponent.natAbs) with
        | .infinite _ => none
        | product => some product
    else if value.isZero then some value
    else if 0 < exponent then none
    else scale (value.div (power maxPower)) fuel (exponent + maxPower)

/-- A number with a fraction or an exponent. -/
def foundFloat (negative : Bool) (digits : Nat) (exponent : Int) : Except Fault Found :=
  match scale (.ofRatio false digits 1) 4 exponent with
  | some value => .ok (.float (value.signed negative))
  | none => .error .malformed

/-- The value of a row of digits. -/
def natOfDigits (digits : List Char) : Nat :=
  digits.foldl (fun n c => n * 10 + digitValue c) 0

/-- Reads what follows the `e` of an exponent. -/
def readExponent (negative : Bool) (digits : Nat) (exponent : Int) (s : List Char) :
    Except Fault Found :=
  let (minus, s) :=
    match s with
    | '+' :: rest => (false, rest)
    | '-' :: rest => (true, rest)
    | _ => (false, s)
  match s with
  | [] => .error .endOfText
  | c :: _ =>
    if c.isDigit then
      let power : Int := natOfDigits (s.takeWhile Char.isDigit)
      foundFloat negative digits (if minus then exponent - power else exponent + power)
    else .error .malformed

/-- Reads what follows the point of a fraction. -/
def readFraction (negative : Bool) (digits : Nat) (exponent : Int) (s : List Char) :
    Except Fault Found :=
  let fraction := s.takeWhile Char.isDigit
  let rest := s.dropWhile Char.isDigit
  if fraction.isEmpty then .error (if rest.isEmpty then .endOfText else .malformed)
  else
    let (digits, left) := gather fraction digits
    let exponent := exponent - (fraction.length - left : Nat)
    match rest with
    | 'e' :: rest | 'E' :: rest => readExponent negative digits exponent rest
    | _ => foundFloat negative digits exponent

/-- An integer, or the floating-point number that stands for it. -/
def foundInteger (negative : Bool) (value : Nat) : Except Fault Found :=
  if !negative then .ok (.integer value)
  else if value = 0 ∨ 0x8000000000000000 < value then foundFloat true value 0
  else .ok (.integer (-value))

/-- Reads a number after its sign and says what it is called. -/
def readNumber (negative : Bool) (s : List Char) : Except Fault Found :=
  let digits := s.takeWhile Char.isDigit
  let rest := s.dropWhile Char.isDigit
  match digits with
  | [] => .error (if rest.isEmpty then .endOfText else .malformed)
  | '0' :: _ :: _ => .error .malformed
  | _ =>
    let (value, left) := gather digits 0
    match rest with
    | '.' :: rest => readFraction negative value left rest
    | 'e' :: rest | 'E' :: rest => readExponent negative value left rest
    | _ => if left = 0 then foundInteger negative value else foundFloat negative value left

/-! ### Going over a number -/

/-- Goes over what follows the `e` of an exponent. -/
def passExponent (s : List Char) : Except Fault (List Char) :=
  let s :=
    match s with
    | '+' :: rest | '-' :: rest => rest
    | _ => s
  match s with
  | [] => .error .malformed
  | c :: rest => if c.isDigit then .ok (rest.dropWhile Char.isDigit) else .error .malformed

/-- Goes over a number after its sign. -/
def passNumber (s : List Char) : Except Fault (List Char) :=
  let digits := s.takeWhile Char.isDigit
  let rest := s.dropWhile Char.isDigit
  match digits with
  | [] | '0' :: _ :: _ => .error .malformed
  | _ =>
    match rest with
    | '.' :: rest =>
      match rest with
      | [] => .error .malformed
      | c :: rest =>
        if c.isDigit then
          match rest.dropWhile Char.isDigit with
          | 'e' :: rest | 'E' :: rest => passExponent rest
          | rest => .ok rest
        else .error .malformed
    | 'e' :: rest | 'E' :: rest => passExponent rest
    | rest => .ok rest

end ByteSplice.Json
