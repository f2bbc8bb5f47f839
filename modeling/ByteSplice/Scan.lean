import ByteSplice.Checksum
import ByteSplice.PatchError

/-!
# Scanning for a pattern

A scan goes through a byte string from left to right. Where the pattern matches it records an
occurrence and goes on behind it; elsewhere it goes on by one byte. So the occurrences come in
ascending order and never overlap: `aa` is found in `aaaaa` at 0 and 2.

There are two ways to scan. `findAll` makes one pass and returns every occurrence. A `Scanner` is
the same scan taken one occurrence at a time: its state is a cursor and the bytes from the cursor
on, and `Scanner.next` moves it behind the next occurrence. A pattern is never empty (`Pattern`
carries the proof), so each match moves the cursor forward.

What a scan finds is said by `scanOnto` and `seek`, which hold the pattern against the bytes at each
offset. That takes too long for a long pattern that nearly matches everywhere. So scans are run by
`rollOnto` and `rollTo`, which carry the checksum of the window at the cursor along and compare
bytes only where it is the checksum of the pattern.

## Main definitions

* `Pattern`, a non-empty byte string.
* `Occurrence`, a match as an offset and a length.
* `findAll`, `count` and `first`.
* `Scanner` with `next`, `nth`, `remaining` and `drain`.

## Main statements

* `rollOnto_eq` and `rollTo_eq`: with checksums a scan finds the same as without.
* `Scanner.next_eq` and `Scanner.remaining_eq` say what a scanner does without them.
-/

namespace ByteSplice

/-- The non-empty byte string that is searched for. -/
structure Pattern where
  bytes : Bytes
  bytes_ne_nil : bytes ≠ []
  deriving DecidableEq, Repr

namespace Pattern

/-- The pattern of the given bytes; there is none of no bytes. -/
def ofBytes (bytes : Bytes) : Except PatchError Pattern :=
  if h : bytes = [] then .error .emptyPattern else .ok ⟨bytes, h⟩

/-- The pattern of a text. A text that cannot be encoded is told from an empty one. -/
def ofText (scheme : Encoding) (text : String) : Except PatchError Pattern :=
  match scheme.encode text with
  | .error fault => .error (.ofEncodeFault scheme fault)
  | .ok bytes => ofBytes bytes

/-- The number of bytes of a pattern. -/
def length (p : Pattern) : Nat :=
  p.bytes.length

theorem length_pos (p : Pattern) : 0 < p.length :=
  List.length_pos_iff.mpr p.bytes_ne_nil

end Pattern

/-- One match: where it starts and how long it is. -/
structure Occurrence where
  offset : Nat
  length : Nat
  deriving DecidableEq, Repr

/-- The offset just behind a match. -/
def Occurrence.stop (o : Occurrence) : Nat :=
  o.offset + o.length

/-! ### One pass -/

/-- Puts `found`, which is in reverse, in front of the matches of `p` in the given bytes, of which
the first has offset `i`. The first `skip` bytes belong to a match already found. -/
def scanOnto (p : Bytes) (found : List Occurrence) :
    (skip i : Nat) → Bytes → List Occurrence
  | _, _, [] => found.reverse
  | skip + 1, i, _ :: rest => scanOnto p found skip (i + 1) rest
  | 0, i, b :: rest =>
    if p.isPrefixOf (b :: rest) then
      scanOnto p (⟨i, p.length⟩ :: found) (p.length - 1) (i + 1) rest
    else scanOnto p found 0 (i + 1) rest

/-! ### One occurrence at a time -/

/-- The first match of `p` in the given bytes, of which the first has offset `i`, together with
what follows the match. -/
def seek (p : Bytes) (i : Nat) : Bytes → Option (Nat × Bytes)
  | [] => none
  | b :: rest =>
    if p.isPrefixOf (b :: rest) then some (i, (b :: rest).drop p.length)
    else seek p (i + 1) rest

/-! ### Scanning with checksums -/

/-- Whether `p`, with the given checksum, is what the bytes begin with; `window` is the checksum of
as many of them as `p` has. -/
def showsAt (p : Bytes) (key window : Checksum) (data : Bytes) : Bool :=
  window = key && p.isPrefixOf data

/-- The same as `scanOnto`, given the checksum of the pattern, that of the window at the cursor and
the bytes behind that window. -/
def rollOnto (p : Bytes) (key : Checksum) (found : List Occurrence) :
    (window : Checksum) → (ahead : Bytes) → (skip i : Nat) → Bytes → List Occurrence
  | _, _, _, _, [] => found.reverse
  | window, ahead, skip + 1, i, b :: rest =>
    rollOnto p key found (window.slide b ahead.head?) ahead.tail skip (i + 1) rest
  | window, ahead, 0, i, b :: rest =>
    if showsAt p key window (b :: rest) then
      rollOnto p key (⟨i, p.length⟩ :: found) (window.slide b ahead.head?) ahead.tail
        (p.length - 1) (i + 1) rest
    else rollOnto p key found (window.slide b ahead.head?) ahead.tail 0 (i + 1) rest

/-- The same as `seek`, given the checksum of the pattern, that of the window at the cursor and the
bytes behind that window. -/
def rollTo (p : Bytes) (key : Checksum) :
    (window : Checksum) → (ahead : Bytes) → (i : Nat) → Bytes → Option (Nat × Bytes)
  | _, _, _, [] => none
  | window, ahead, i, b :: rest =>
    if showsAt p key window (b :: rest) then some (i, (b :: rest).drop p.length)
    else rollTo p key (window.slide b ahead.head?) ahead.tail (i + 1) rest

/-- A byte string that begins with the pattern has its checksum at the front, so comparing the
checksums first changes nothing. -/
theorem showsAt_eq (p data : Bytes) :
    showsAt p (.ofBytes p) (.ofBytes (data.take p.length)) data = p.isPrefixOf data := by
  cases h : p.isPrefixOf data with
  | false => rw [showsAt, h, Bool.and_false]
  | true =>
    have hp : p = data.take p.length := List.prefix_iff_eq_take.mp (List.isPrefixOf_iff_prefix.mp h)
    rw [showsAt, h, ← hp]
    simp

theorem tail_drop_cons (b : UInt8) (rest : Bytes) (m : Nat) :
    ((b :: rest).drop m).tail = rest.drop m := by
  rw [List.tail_drop, List.drop_succ_cons]

theorem rollOnto_eq {p : Bytes} (hp : p ≠ []) (found : List Occurrence) (skip i : Nat)
    (data : Bytes) :
    rollOnto p (.ofBytes p) found (.ofBytes (data.take p.length)) (data.drop p.length) skip i data =
      scanOnto p found skip i data := by
  have hm : 0 < p.length := List.length_pos_iff.mpr hp
  induction data generalizing found skip i with
  | nil => cases skip <;> rfl
  | cons b rest ih =>
    have hslide := Checksum.slide_ofBytes hm b rest
    cases skip with
    | succ skip => rw [rollOnto, scanOnto, hslide, tail_drop_cons, ih]
    | zero => rw [rollOnto, scanOnto, showsAt_eq, hslide, tail_drop_cons, ih, ih]

theorem rollTo_eq {p : Bytes} (hp : p ≠ []) (i : Nat) (data : Bytes) :
    rollTo p (.ofBytes p) (.ofBytes (data.take p.length)) (data.drop p.length) i data =
      seek p i data := by
  have hm : 0 < p.length := List.length_pos_iff.mpr hp
  induction data generalizing i with
  | nil => rfl
  | cons b rest ih =>
    rw [rollTo, seek, showsAt_eq, Checksum.slide_ofBytes hm, tail_drop_cons, ih]

/-! ### Scanners -/

/-- A scan under way: the offset it has come to, and the bytes from there on. -/
structure Scanner where
  cursor : Nat
  rest : Bytes
  deriving DecidableEq, Repr

namespace Scanner

/-- The scan of a byte string, at its start. -/
def start (data : Bytes) : Scanner :=
  ⟨0, data⟩

/-- The scan with nothing left to find. It stops at the first offset from which on there are fewer
bytes than the pattern has. -/
def finish (p : Pattern) (s : Scanner) : Scanner :=
  let passed := s.rest.length + 1 - p.length
  ⟨s.cursor + passed, s.rest.drop passed⟩

/-- The scan behind an occurrence that lies ahead of the cursor. -/
def behind (s : Scanner) (o : Occurrence) : Scanner :=
  ⟨o.stop, s.rest.drop (o.stop - s.cursor)⟩

/-- The next occurrence, with the scanner behind it. -/
def next (p : Pattern) (s : Scanner) : Option Occurrence × Scanner :=
  let window := Checksum.ofBytes (s.rest.take p.length)
  match rollTo p.bytes (.ofBytes p.bytes) window (s.rest.drop p.length) s.cursor s.rest with
  | some (offset, rest) => (some ⟨offset, p.length⟩, ⟨offset + p.length, rest⟩)
  | none => (none, s.finish p)

/-- The next occurrence is the one that `seek` finds. -/
theorem next_eq (p : Pattern) (s : Scanner) :
    s.next p =
      match seek p.bytes s.cursor s.rest with
      | some (offset, rest) => (some ⟨offset, p.length⟩, ⟨offset + p.length, rest⟩)
      | none => (none, s.finish p) := by
  rw [next, ← rollTo_eq p.bytes_ne_nil]
  rfl

/-- Passes over `k` occurrences and returns the one after them. -/
def nth (p : Pattern) : Nat → Scanner → Option Occurrence × Scanner
  | 0, s => s.next p
  | k + 1, s =>
    match s.next p with
    | (none, s') => (none, s')
    | (some _, s') => nth p k s'

/-- The occurrences still to come. The scanner stays where it is. -/
def remaining (p : Pattern) (s : Scanner) : List Occurrence :=
  let window := Checksum.ofBytes (s.rest.take p.length)
  rollOnto p.bytes (.ofBytes p.bytes) [] window (s.rest.drop p.length) 0 s.cursor s.rest

/-- The occurrences still to come are those that `scanOnto` finds. -/
theorem remaining_eq (p : Pattern) (s : Scanner) :
    s.remaining p = scanOnto p.bytes [] 0 s.cursor s.rest :=
  rollOnto_eq p.bytes_ne_nil [] 0 s.cursor s.rest

/-- The occurrences still to come, and the scanner with nothing left to find behind the last of
them. -/
def drain (p : Pattern) (s : Scanner) : List Occurrence × Scanner :=
  let found := s.remaining p
  (found, (found.getLast?.elim s s.behind).finish p)

end Scanner

/-! ### Queries -/

/-- Every occurrence, in ascending order. -/
def findAll (data : Bytes) (p : Pattern) : List Occurrence :=
  (Scanner.start data).remaining p

/-- How many occurrences there are. -/
def count (data : Bytes) (p : Pattern) : Nat :=
  (findAll data p).length

/-- The leftmost occurrence. -/
def first (data : Bytes) (p : Pattern) : Option Occurrence :=
  ((Scanner.start data).next p).1

end ByteSplice
