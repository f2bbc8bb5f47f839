/-!
# Binary floating-point numbers

Numbers with a fraction are read into 64-bit binary floating point, because that is what messages
show of them. They are kept here as an integer times a power of two, so that all rounding is exact
arithmetic on integers: a ratio goes to the nearest number, and a ratio half way between two of
them to the one whose integer is even.

A finite number is `m * 2 ^ e` with `m < 2 ^ 53` and `-1074 ≤ e ≤ 971`, and `m` is at least
`2 ^ 52` unless `e` is `-1074`, so that each number has one form.

## Main definitions

* `Binary64` and `Binary64.ofRatio`.
* `Binary64.mul` and `Binary64.div` of finite non-negative numbers.
* `Binary64.ofDecimal` rounds digits with a power of ten, once.
-/

namespace ByteSplice

/-- The powers of two. -/
def powerOfTwo (n : Nat) : Nat :=
  Nat.pow 2 n

/-- The powers of ten. -/
def powerOfTen (n : Nat) : Nat :=
  Nat.pow 10 n

/-- A 64-bit binary floating-point number. -/
inductive Binary64
  | finite (negative : Bool) (m : Nat) (e : Int)
  | infinite (negative : Bool)
  | nan
  deriving DecidableEq, Repr

namespace Binary64

/-- The least integer with 53 binary digits, `2 ^ 52`. -/
def leastFull : Nat := 0x10000000000000

/-- The integer nearest to `num / den`; half way between two, the even one. -/
def roundRatio (num den : Nat) : Nat :=
  let q := num / den
  let r := num % den
  if den < 2 * r ∨ (2 * r = den ∧ q % 2 = 1) then q + 1 else q

/-- The ratio `num / (den * 2 ^ e)`, as numerator and denominator. -/
def scaled (num den : Nat) (e : Int) : Nat × Nat :=
  (num * powerOfTwo (-e).toNat, den * powerOfTwo e.toNat)

/-- The exponent with which `num / den` has 53 binary digits before the point, or the least one. -/
def exponentOf (num den : Nat) : Int :=
  let low : Int := (num.log2 : Int) - den.log2 - 53
  let (n, d) := scaled num den low
  max (if n / d < 2 * leastFull then low else low + 1) (-1074)

/-- The number nearest to `num / den`. -/
def ofRatio (negative : Bool) (num den : Nat) : Binary64 :=
  if num = 0 then finite negative 0 (-1074)
  else
    let e := exponentOf num den
    let (n, d) := scaled num den e
    let m := roundRatio n d
    let (m, e) := if m = 2 * leastFull then (leastFull, e + 1) else (m, e)
    if 971 < e then infinite negative else finite negative m e

/-- The number nearest to `m * 2 ^ e`. -/
def ofScaled (negative : Bool) (m : Nat) (e : Int) : Binary64 :=
  ofRatio negative (m * powerOfTwo e.toNat) (powerOfTwo (-e).toNat)

/-- The product of two numbers without their signs, rounded. -/
def mul : Binary64 → Binary64 → Binary64
  | finite _ m e, finite _ m' e' => ofScaled false (m * m') (e + e')
  | _, _ => infinite false

/-- The quotient of two numbers without their signs, rounded. The divisor is not zero. -/
def div : Binary64 → Binary64 → Binary64
  | finite _ m e, finite _ m' e' =>
    ofRatio false (m * powerOfTwo (e - e').toNat) (m' * powerOfTwo (e' - e).toNat)
  | _, _ => infinite false

/-- Whether a number is zero. -/
def isZero : Binary64 → Bool
  | finite _ m _ => m = 0
  | _ => false

/-- The number without its sign, or with a minus sign. -/
def signed (negative : Bool) : Binary64 → Binary64
  | finite _ m e => finite negative m e
  | infinite _ => infinite negative
  | nan => nan

/-- How many decimal digits a number has; zero has none. -/
def digitCount (n : Nat) : Nat :=
  if n = 0 then 0 else (Nat.toDigits 10 n).length

/-- The number nearest to `m * 10 ^ e`. Powers of ten far outside the range are not computed. -/
def ofDecimal (negative : Bool) (m : Nat) (e : Int) : Binary64 :=
  let size := (digitCount m : Int) + e
  if m = 0 ∨ size < -400 then finite negative 0 (-1074)
  else if 400 < size then infinite negative
  else ofRatio negative (m * powerOfTen e.toNat) (powerOfTen (-e).toNat)

end Binary64

end ByteSplice
