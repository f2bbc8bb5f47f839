import ByteSplice.Decimal.Binary64

/-!
# The shortest decimal text of a number

A floating-point number is written with the fewest digits that still read back as that number, and
of several texts of that length as the one nearest to it. Two texts can be equally near, since a
number may lie half way between two decimals; a `Tie` says which of them is taken.

The numbers that read back as `m * 2 ^ e` form an interval around it, which ends half way to its
neighbours; the ends belong to it if `m` is even. The interval is only a quarter step wide below
the least number with a given exponent, where the numbers lie twice as close. For one digit, two
digits and so on, the two decimals around the number are tried against the interval. Seventeen
digits always suffice.

How the digits are laid out is a separate decision, and a record of its own: a `Layout` says for
which sizes they are written out in full, how an exponent looks, and how a tie is broken. Two are in
use. Messages about JSON switch to an exponent for very large and very small numbers
(`Layout.compact`); messages about settings never do (`Layout.positional`). Both keep a fraction of
`.0`.

## Main definitions

* `Tie` and `Shortest.digits`.
* `Layout` and `Binary64.text`.
-/

namespace ByteSplice

/-- Which of two neighbours on a decimal grid is taken for a number half way between them. -/
inductive Tie
  /-- The one farther from zero. -/
  | up
  /-- The one with an even last digit. -/
  | even
  deriving DecidableEq, Repr

/-- The integer that a number half way between `x` and `x + 1` becomes. -/
def Tie.settle : Tie → Nat → Nat
  | up, x => x + 1
  | even, x => if x % 2 = 0 then x else x + 1

namespace Shortest

/-- The interval of numbers that round to `m * 2 ^ e`, in quarters of `2 ^ e`. -/
def bounds (m : Nat) (e : Int) : Nat × Nat :=
  (if m = Binary64.leastFull ∧ -1074 < e then 4 * m - 1 else 4 * m - 2, 4 * m + 2)

/-- Compares `x * 10 ^ k` with `y * 2 ^ e`. -/
def compare (x : Nat) (k : Int) (y : Nat) (e : Int) : Ordering :=
  Ord.compare (x * powerOfTen k.toNat * powerOfTwo (-e).toNat)
    (y * powerOfTwo e.toNat * powerOfTen (-k).toNat)

/-- Whether `x * 10 ^ k` reads back as `m * 2 ^ e`. -/
def readsBack (m : Nat) (e : Int) (x : Nat) (k : Int) : Bool :=
  let (low, high) := bounds m e
  let atLow := compare x k low (e - 2)
  let atHigh := compare x k high (e - 2)
  (atLow = .gt && atHigh = .lt) || (m % 2 = 0 && (atLow = .eq || atHigh = .eq))

/-- The integer part of `m * 2 ^ e / 10 ^ k`. -/
def below (m : Nat) (e k : Int) : Nat :=
  (m * powerOfTwo e.toNat * powerOfTen (-k).toNat) / (powerOfTwo (-e).toNat * powerOfTen k.toNat)

/-- The power of ten of the first digit of `m * 2 ^ e`, found by counting up from `k`. -/
def leading (m : Nat) (e : Int) : (fuel : Nat) → (k : Int) → Int
  | 0, k => k
  | fuel + 1, k => if compare 1 (k + 1) m e = .gt then k else leading m e fuel (k + 1)

/-- Of the neighbours `x` and `x + 1`, both times `10 ^ k`, the one that is nearer to `m * 2 ^ e`,
which lies between them. -/
def nearer (tie : Tie) (m : Nat) (e : Int) (x : Nat) (k : Int) : Nat :=
  -- the sum of the two against twice the number
  match compare (2 * x + 1) k (2 * m) e with
  | .lt => x + 1
  | .eq => tie.settle x
  | .gt => x

/-- The first decimal that reads back, trying digits at `10 ^ k` and then finer ones. -/
def search (tie : Tie) (m : Nat) (e : Int) : (fuel : Nat) → (k : Int) → Nat × Int
  | 0, k => (below m e k, k)
  | fuel + 1, k =>
    let x := below m e k
    let lowFits := readsBack m e x k
    let highFits := readsBack m e (x + 1) k
    if lowFits && highFits then (nearer tie m e x k, k)
    else if lowFits then (x, k)
    else if highFits then (x + 1, k)
    else search tie m e fuel (k - 1)

/-- Takes zeros off the end of a decimal. -/
def trim : (fuel : Nat) → Nat → Int → Nat × Int
  | 0, x, k => (x, k)
  | fuel + 1, x, k => if x % 10 = 0 ∧ x ≠ 0 then trim fuel (x / 10) (k + 1) else (x, k)

/-- The shortest decimal `x * 10 ^ k` that reads back as `m * 2 ^ e`, for `m` above zero. -/
def digits (tie : Tie) (m : Nat) (e : Int) : Nat × Int :=
  let k := leading m e 700 (-330)
  let (x, k) := search tie m e 17 k
  trim 20 x k

end Shortest

/-- How the digits of a number are laid out. -/
structure Layout where
  /-- Whether a number whose first digit stands `n` places before the point is written in full. -/
  inFull : Int → Bool
  /-- Whether an exponent that is not negative has a plus sign. -/
  plusSign : Bool
  /-- Which of two equally near decimals is written. -/
  tie : Tie

namespace Layout

/-- Numbers of more than sixteen digits, and those with five or more zeros behind the point, get
an exponent with its sign. A tie goes to the even digit. -/
def compact : Layout where
  inFull n := -5 < n && n ≤ 16
  plusSign := true
  tie := .even

/-- Every number is written in full. A tie goes away from zero. -/
def positional : Layout where
  inFull _ := true
  plusSign := false
  tie := .up

end Layout

namespace Binary64

/-- The decimal `x * 10 ^ k` with its point. -/
def place (layout : Layout) (x : Nat) (k : Int) : String :=
  let ds := Nat.toDigits 10 x
  let n : Int := ds.length + k
  let zeros (count : Int) := List.replicate count.toNat '0'
  String.ofList <|
    if layout.inFull n then
      if 0 ≤ k then ds ++ zeros k ++ ['.', '0']
      else if 0 < n then ds.take n.toNat ++ ['.'] ++ ds.drop n.toNat
      else ['0', '.'] ++ zeros (-n) ++ ds
    else
      let fraction := if ds.length = 1 then [] else '.' :: ds.drop 1
      let sign := if layout.plusSign && 0 ≤ n - 1 then ['+'] else []
      ds.take 1 ++ fraction ++ ['e'] ++ sign ++ (toString (n - 1)).toList

/-- The shortest text of a number. -/
def text (layout : Layout) : Binary64 → String
  | nan => "NaN"
  | infinite negative => if negative then "-inf" else "inf"
  | finite negative m e =>
    let size := if m = 0 then "0.0" else
      let (x, k) := Shortest.digits layout.tie m e
      place layout x k
    if negative then "-" ++ size else size

end Binary64

end ByteSplice
