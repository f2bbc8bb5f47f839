import ByteSplice.Bytes

/-!
# Rolling checksums

A pattern is compared with many windows of a byte string, each one byte further on than the one
before. A checksum makes most of these comparisons cheap: windows with another checksum than the
pattern are other byte strings, and the checksum of the next window comes from that of the last one
in a single step, however long the windows are.

The checksum of `b₀ b₁ … bₙ` is `b₀ + base * b₁ + … + base ^ n * bₙ`, modulo `2 ^ 64`. The base is
odd, so it has an inverse, and a first byte can be taken off again by `inverse`.

## Main definitions

* `Checksum`, `Checksum.ofBytes` and `Checksum.slide`.

## Main statements

* `Checksum.slide_ofBytes`: sliding goes from the checksum of a window to that of the next one.
-/

namespace ByteSplice

/-- A sum of weighted bytes, and the weight that one more byte would have. -/
structure Checksum where
  sum : UInt64
  weight : UInt64
  deriving DecidableEq, Repr

namespace Checksum

/-- The ratio of the weights of neighbours. -/
def base : UInt64 := 0x9e3779b97f4a7c15

/-- The inverse of the base. -/
def inverse : UInt64 := 0xf1de83e19937733d

theorem base_mul_inverse : base * inverse = 1 := by decide

/-- The checksum with a byte added at the end. -/
def push (c : Checksum) (b : UInt8) : Checksum :=
  ⟨c.sum + c.weight * b.toUInt64, c.weight * base⟩

/-- The checksum without its first byte. -/
def popFirst (c : Checksum) (b : UInt8) : Checksum :=
  ⟨(c.sum - b.toUInt64) * inverse, c.weight * inverse⟩

/-- The checksum of a byte string. -/
def ofBytes (bytes : Bytes) : Checksum :=
  bytes.foldl push ⟨0, 1⟩

/-- The checksum of the window one byte further on, which loses the byte `b` and gains the next
byte, if there is one. -/
def slide (c : Checksum) (b : UInt8) : Option UInt8 → Checksum
  | none => c.popFirst b
  | some y => (c.popFirst b).push y

theorem ofBytes_concat (bytes : Bytes) (y : UInt8) :
    ofBytes (bytes ++ [y]) = (ofBytes bytes).push y := by
  rw [ofBytes, List.foldl_append]
  rfl

theorem foldl_push (bytes : Bytes) (c : Checksum) :
    bytes.foldl push c =
      ⟨c.sum + c.weight * (ofBytes bytes).sum, c.weight * (ofBytes bytes).weight⟩ := by
  induction bytes generalizing c with
  | nil => simp [ofBytes]
  | cons b rest ih =>
    rw [ofBytes, List.foldl_cons, List.foldl_cons, ih, ih (push _ b)]
    simp only [push, mk.injEq]
    constructor <;> grind

theorem ofBytes_cons (b : UInt8) (rest : Bytes) :
    ofBytes (b :: rest) =
      ⟨b.toUInt64 + base * (ofBytes rest).sum, base * (ofBytes rest).weight⟩ := by
  rw [ofBytes, List.foldl_cons, foldl_push]
  simp [push]

/-- Taking the first byte off undoes putting it in front. -/
theorem popFirst_ofBytes_cons (b : UInt8) (rest : Bytes) :
    (ofBytes (b :: rest)).popFirst b = ofBytes rest := by
  rw [ofBytes_cons, popFirst]
  have h := base_mul_inverse
  generalize ofBytes rest = c
  obtain ⟨sum, weight⟩ := c
  simp only [mk.injEq]
  constructor <;> grind

/-- **Sliding a window.** From the checksum of the first `m` bytes comes that of the `m` bytes after
the first one; the byte that is gained lies just behind the window. -/
theorem slide_ofBytes {m : Nat} (hm : 0 < m) (b : UInt8) (rest : Bytes) :
    (ofBytes ((b :: rest).take m)).slide b ((b :: rest).drop m).head? = ofBytes (rest.take m) := by
  obtain ⟨k, rfl⟩ : ∃ k, m = k + 1 := ⟨m - 1, by omega⟩
  rw [List.take_succ_cons, List.drop_succ_cons, List.head?_drop]
  cases h : rest[k]? with
  | none =>
    rw [slide, popFirst_ofBytes_cons, List.take_of_length_le, List.take_of_length_le]
    · exact Nat.le_succ_of_le (List.getElem?_eq_none_iff.mp h)
    · exact List.getElem?_eq_none_iff.mp h
  | some y =>
    rw [slide, popFirst_ofBytes_cons, ← ofBytes_concat]
    rw [List.take_add_one, h]
    rfl

end Checksum

end ByteSplice
