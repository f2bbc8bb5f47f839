import ByteSplice.Splice

/-!
# A splice in machine words

`Plan.apply` counts with numbers that have no bound, and its contents may have any length. A machine
counts in words. A sum that is not a word stops it, or it goes on with what is left of the sum in a
word; which of the two it does depends on how the program was built. A vector has less than half as
many bytes as there are words. That there may be less memory than that is left out.

This makes no difference for a plan that `Rules.evaluate` made, as long as the contents have room.
But a plan is a value, and the numbers in it may be any words. Here is the same walk on a machine,
with everything in it that can go wrong there. Before the walk the length of the output is reckoned
from the plan, and room for it is set aside. On the way the pieces are cut out by their two ends.

## Main definitions

* `Machine`, with `Machine.word?` for the outcome of a calculation and `Machine.append?` for a
  vector that grows.
* `Plan.roomIn`, `Machine.walk` and `Plan.applyIn`. They are `none` where the machine stops.
-/

namespace ByteSplice

/-- What a machine does about the outcome of a calculation that is not a word. -/
inductive Overflow
  /-- It stops. -/
  | stops
  /-- It leaves out what does not fit into a word. -/
  | wraps
  deriving DecidableEq, Repr

/-- A machine with words of so many bits. -/
structure Machine where
  bits : Nat
  overflow : Overflow
  deriving DecidableEq, Repr

namespace Machine

/-- How many words there are; these are the numbers below. -/
def wordCount (m : Machine) : Nat :=
  1 <<< m.bits

/-- How many bytes a vector can have. -/
def maxLength (m : Machine) : Nat :=
  (1 <<< (m.bits - 1)) - 1

/-- The word that a calculation comes to, from its exact outcome. -/
def word? (m : Machine) (n : Int) : Option Nat :=
  if 0 ≤ n ∧ n < m.wordCount then some n.toNat
  else
    match m.overflow with
    | .stops => none
    | .wraps => some (n % m.wordCount).toNat

/-- Bytes at the end of a vector, if it can have as many. -/
def append? (m : Machine) (output piece : Bytes) : Option Bytes :=
  if output.length + piece.length ≤ m.maxLength then some (output ++ piece) else none

end Machine

/-- The word for the offset just behind an occurrence. -/
def Occurrence.stopIn (m : Machine) (o : Occurrence) : Option Nat :=
  m.word? (o.offset + o.length)

/-- The room that is set aside for the output of a plan. As in `Plan.outputLength`, every occurrence
is taken to have the length of the pattern. -/
def Plan.roomIn (m : Machine) (p : Plan) : Option Nat := do
  let taken ← m.word? (p.occurrences.length * p.pattern.length)
  let kept ← m.word? (p.sourceLength - taken)
  let brought ← m.word? (p.occurrences.length * p.replacement.length)
  m.word? (kept + brought)

/-- Goes through occurrences with a cursor into the contents, and puts what each of them leads to at
the end of the output. -/
def Machine.walk (m : Machine) (replacement data : Bytes) :
    (output : Bytes) → (cursor : Nat) → List Occurrence → Option (Except Refusal Bytes)
  | output, cursor, [] => do
    let tail ← slice? data cursor data.length
    let whole ← m.append? output tail
    return .ok whole
  | output, cursor, o :: more =>
    -- where an occurrence ends is reckoned only if it starts where it may
    if o.offset < cursor then some (.error (.misplaced o.offset))
    else do
      let stop ← o.stopIn m
      if data.length < stop then some (.error (.misplaced o.offset))
      else
        let gap ← slice? data cursor o.offset
        let kept ← m.append? output gap
        let written ← m.append? kept replacement
        m.walk replacement data written stop more

/-- `Plan.apply` on a machine. -/
def Plan.applyIn (m : Machine) (p : Plan) (data : Bytes) : Option (Except Refusal Bytes) :=
  match p.verdict with
  | .denied reason => some (.error (.denied reason))
  | .allowed =>
    if data.length ≠ p.sourceLength ∨ Digest.ofBytes data ≠ p.sourceDigest then
      some (.error .otherContents)
    else do
      let room ← p.roomIn m
      if m.maxLength < room then none
      else m.walk p.replacement data [] 0 p.occurrences

end ByteSplice
