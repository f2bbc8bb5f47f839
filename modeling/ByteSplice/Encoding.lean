import ByteSplice.Bytes
import ByteSplice.Text.Quoted

/-!
# Text encodings

A request gives its two texts as Unicode and names one encoding for both, so that the lengths of
what is searched for and of what replaces it are comparable. There are three:

* `utf8`: the text's own UTF-8 bytes; every text can be encoded.
* `latin1`: one byte for each character; a character above U+00FF has none.
* `hex`: two hexadecimal digits of either case for each byte. ASCII blanks may stand anywhere, also
  between the two digits of a byte, and mean nothing.

What goes wrong is a cause (`EncodeFault`), and the wording of a cause is `EncodeFault.message`. A
text in hexadecimal can have two faults at once. A character that is no digit is reported before
the number of digits is looked at, and of several such characters the first.

## Main definitions

* `Encoding` and `Encoding.encode`.
* `EncodeFault` and `EncodeFault.message`.
-/

namespace ByteSplice

/-- How find and replace texts become bytes. -/
inductive Encoding
  | utf8
  | latin1
  | hex
  deriving DecidableEq, Repr, Inhabited

namespace Encoding

/-- The name an encoding has in requests and settings. -/
def name : Encoding → String
  | utf8 => "utf8"
  | latin1 => "latin1"
  | hex => "hex"

/-- The name an encoding has in messages. -/
def label : Encoding → String
  | utf8 => "utf-8"
  | latin1 => "latin-1"
  | hex => "hex"

/-- Every encoding, under its name. -/
def named : List (String × Encoding) :=
  [utf8, latin1, hex].map fun e => (e.name, e)

end Encoding

/-- Why a text has no bytes under an encoding. -/
inductive EncodeFault
  /-- A character above U+00FF. -/
  | outsideLatin1 (c : Char)
  /-- A character that is neither a blank nor a hexadecimal digit. -/
  | notHexDigit (c : Char)
  /-- All digits are good, but their number is odd. -/
  | oddHexDigits (count : Nat)
  deriving DecidableEq, Repr

/-- The wording of a fault. -/
def EncodeFault.message : EncodeFault → String
  | .outsideLatin1 c =>
    "character " ++ Text.Quoted.character c ++ " is outside the latin-1 range"
  | .notHexDigit c => Text.Quoted.character c ++ " is not a hex digit"
  | .oddHexDigits count => "odd number of hex digits (" ++ toString count ++ ")"

namespace Encoding

/-- The ASCII blanks: space, tab, line feed, form feed and carriage return. The vertical tab is
not one of them. -/
def isBlank (c : Char) : Bool :=
  c = ' ' || c = '\t' || c = '\n' || c = '\x0c' || c = '\r'

/-- The byte of one character in Latin-1. -/
def latin1Byte (c : Char) : Except EncodeFault UInt8 :=
  if c.toNat < 256 then .ok (UInt8.ofNat c.toNat) else .error (.outsideLatin1 c)

/-- The value of one hexadecimal digit. -/
def hexNibble (c : Char) : Except EncodeFault Nat :=
  match hexValue? c with
  | some n => .ok n
  | none => .error (.notHexDigit c)

/-- The bytes that a hexadecimal text stands for. -/
def ofHex (text : List Char) : Except EncodeFault Bytes :=
  match (text.filter fun c => !isBlank c).mapM hexNibble with
  | .error fault => .error fault
  | .ok digits =>
    if digits.length % 2 = 0 then .ok (Bytes.ofNibbles digits)
    else .error (.oddHexDigits digits.length)

/-- The bytes of a text, given as its characters. -/
def encodeChars : Encoding → List Char → Except EncodeFault Bytes
  | utf8, text => .ok (text.flatMap String.utf8EncodeChar)
  | latin1, text => text.mapM latin1Byte
  | hex, text => ofHex text

/-- The bytes of a text. -/
def encode (e : Encoding) (text : String) : Except EncodeFault Bytes :=
  e.encodeChars text.toList

end Encoding

end ByteSplice
