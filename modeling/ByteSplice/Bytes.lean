/-!
# Byte strings

The contents of a resource, a pattern and a replacement are all plain lists of bytes. This module
holds the one written form they share: two lower-case hexadecimal digits for each byte.

## Main definitions

* `slice?` cuts a piece out of a byte string.
* `Bytes.toHex` writes a byte string as hexadecimal text.
* `hexValue?` reads one hexadecimal digit of either case, and `Bytes.ofNibbles` puts digits
  together again, two to a byte.
-/

namespace ByteSplice

/-- The contents of a resource, a pattern or a replacement. -/
abbrev Bytes := List UInt8

/-- The bytes from one offset to another. There are none unless the offsets are in order and both
inside. -/
def slice? (data : Bytes) (start stop : Nat) : Option Bytes :=
  if start ≤ stop ∧ stop ≤ data.length then some ((data.drop start).take (stop - start)) else none

/-- The lower-case hexadecimal digit of a number below sixteen. -/
def hexDigit (n : Nat) : Char :=
  if n < 10 then Char.ofNat ('0'.toNat + n) else Char.ofNat ('a'.toNat + (n - 10))

/-- The value of an ASCII hexadecimal digit of either case. -/
def hexValue? (c : Char) : Option Nat :=
  if '0' ≤ c ∧ c ≤ '9' then some (c.toNat - '0'.toNat)
  else if 'a' ≤ c ∧ c ≤ 'f' then some (c.toNat - 'a'.toNat + 10)
  else if 'A' ≤ c ∧ c ≤ 'F' then some (c.toNat - 'A'.toNat + 10)
  else none

namespace Bytes

/-- The two digits of one byte, high half first. -/
def hexPair (b : UInt8) : List Char :=
  [hexDigit (b.toNat / 16), hexDigit (b.toNat % 16)]

/-- A byte string as hexadecimal text, two digits for each byte. -/
def toHex (bytes : Bytes) : String :=
  String.ofList (bytes.flatMap hexPair)

/-- Puts `acc`, which is in reverse, in front of the bytes that pairs of digits stand for. A last
digit without a partner is dropped, so callers ask for an even number of digits first. -/
def ofNibblesOnto (acc : Bytes) : List Nat → Bytes
  | high :: low :: rest => ofNibblesOnto (UInt8.ofNat (16 * high + low) :: acc) rest
  | _ => acc.reverse

/-- The bytes that pairs of hexadecimal digit values stand for. -/
def ofNibbles (digits : List Nat) : Bytes :=
  ofNibblesOnto [] digits

end Bytes

end ByteSplice
