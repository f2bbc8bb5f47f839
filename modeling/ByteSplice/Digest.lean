import ByteSplice.Bytes

/-!
# MD5 digests

A plan is tied to the contents it was made for by their length and their MD5 digest.
Nothing in the library needs the digest to be hard to forge; it is compared, recorded and printed.

The message is padded to a whole number of 64-byte blocks and the blocks are folded, in order,
into a state of four 32-bit words. All arithmetic on words wraps, which is what `UInt32` does.

## Main definitions

* `Digest` is the state of four words, which is also the result.
* `Digest.ofBytes` computes it and `Digest.toHex` prints it.
-/

namespace ByteSplice

/-- The four words of an MD5 state. -/
structure Digest where
  a : UInt32
  b : UInt32
  c : UInt32
  d : UInt32
  deriving DecidableEq, Repr, Inhabited

namespace Digest

/-- The state before the first block. -/
def initial : Digest :=
  ⟨0x67452301, 0xefcdab89, 0x98badcfe, 0x10325476⟩

/-- The constant of each round: the integer part of `2 ^ 32 * |sin (i + 1)|`. -/
def sines : Array UInt32 := #[
  0xd76aa478, 0xe8c7b756, 0x242070db, 0xc1bdceee, 0xf57c0faf, 0x4787c62a, 0xa8304613, 0xfd469501,
  0x698098d8, 0x8b44f7af, 0xffff5bb1, 0x895cd7be, 0x6b901122, 0xfd987193, 0xa679438e, 0x49b40821,
  0xf61e2562, 0xc040b340, 0x265e5a51, 0xe9b6c7aa, 0xd62f105d, 0x02441453, 0xd8a1e681, 0xe7d3fbc8,
  0x21e1cde6, 0xc33707d6, 0xf4d50d87, 0x455a14ed, 0xa9e3e905, 0xfcefa3f8, 0x676f02d9, 0x8d2a4c8a,
  0xfffa3942, 0x8771f681, 0x6d9d6122, 0xfde5380c, 0xa4beea44, 0x4bdecfa9, 0xf6bb4b60, 0xbebfbc70,
  0x289b7ec6, 0xeaa127fa, 0xd4ef3085, 0x04881d05, 0xd9d4d039, 0xe6db99e5, 0x1fa27cf8, 0xc4ac5665,
  0xf4292244, 0x432aff97, 0xab9423a7, 0xfc93a039, 0x655b59c3, 0x8f0ccc92, 0xffeff47d, 0x85845dd1,
  0x6fa87e4f, 0xfe2ce6e0, 0xa3014314, 0x4e0811a1, 0xf7537e82, 0xbd3af235, 0x2ad7d2bb, 0xeb86d391]

/-- How far each round turns its sum to the left; the four amounts of a group repeat. -/
def shifts : Array UInt32 := #[7, 12, 17, 22, 5, 9, 14, 20, 4, 11, 16, 23, 6, 10, 15, 21]

/-- A word turned left by `n` places, for `0 < n < 32`. -/
def rotateLeft (w n : UInt32) : UInt32 :=
  (w <<< n) ||| (w >>> (32 - n))

/-- The Boolean function of round `i`; every sixteen rounds use the next one. -/
def mix (i : Nat) (b c d : UInt32) : UInt32 :=
  match i / 16 with
  | 0 => (b &&& c) ||| (~~~b &&& d)
  | 1 => (d &&& b) ||| (~~~d &&& c)
  | 2 => b ^^^ c ^^^ d
  | _ => c ^^^ (b ||| ~~~d)

/-- The word of the block that round `i` takes in. -/
def wordIndex (i : Nat) : Nat :=
  match i / 16 with
  | 0 => i
  | 1 => (5 * i + 1) % 16
  | 2 => (3 * i + 5) % 16
  | _ => 7 * i % 16

/-- Round `i` on a block of sixteen words. -/
def round (block : Array UInt32) (s : Digest) (i : Nat) : Digest :=
  let sum := s.a + mix i s.b s.c s.d + sines.getD i 0 + block.getD (wordIndex i) 0
  ⟨s.d, s.b + rotateLeft sum (shifts.getD (i / 16 * 4 + i % 4) 0), s.b, s.c⟩

/-- Takes one block into the state. -/
def absorb (s : Digest) (block : Array UInt32) : Digest :=
  let t := (List.range 64).foldl (round block) s
  ⟨s.a + t.a, s.b + t.b, s.c + t.c, s.d + t.d⟩

/-- The four bytes of a word, low byte first. -/
def wordBytes (w : UInt32) : Bytes :=
  [w.toUInt8, (w >>> 8).toUInt8, (w >>> 16).toUInt8, (w >>> 24).toUInt8]

/-- The word whose low byte is at index `i`. -/
def wordAt (bytes : Array UInt8) (i : Nat) : UInt32 :=
  (bytes.getD i 0).toUInt32 ||| ((bytes.getD (i + 1) 0).toUInt32 <<< 8) |||
    ((bytes.getD (i + 2) 0).toUInt32 <<< 16) ||| ((bytes.getD (i + 3) 0).toUInt32 <<< 24)

/-- The sixteen words of block `k`. -/
def blockAt (bytes : Array UInt8) (k : Nat) : Array UInt32 :=
  ((List.range 16).map fun i => wordAt bytes (64 * k + 4 * i)).toArray

/-- The message, a byte `0x80`, zeros, and the bit length in eight bytes: a whole number of
64-byte blocks. -/
def padded (bytes : Bytes) : Bytes :=
  let bits := 8 * bytes.length
  bytes ++ 0x80 :: (List.replicate ((119 - bytes.length % 64) % 64) 0 ++
    (wordBytes (UInt32.ofNat bits) ++ wordBytes (UInt32.ofNat (bits / 0x100000000))))

/-- The MD5 digest of a byte string. -/
def ofBytes (bytes : Bytes) : Digest :=
  let message := (padded bytes).toArray
  (List.range (message.size / 64)).foldl (fun s k => absorb s (blockAt message k)) initial

/-- The sixteen bytes of a digest. -/
def toBytes (s : Digest) : Bytes :=
  wordBytes s.a ++ wordBytes s.b ++ wordBytes s.c ++ wordBytes s.d

/-- A digest as thirty-two lower-case hexadecimal digits. -/
def toHex (s : Digest) : String :=
  s.toBytes.toHex

end Digest

end ByteSplice
