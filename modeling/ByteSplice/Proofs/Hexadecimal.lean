import ByteSplice.PatchError
import Mathlib.Algebra.Ring.Parity
import Mathlib.Tactic.FinCases

/-!
# Hexadecimal texts

A text in hexadecimal is read in three passes. Blanks are dropped, what is left is turned into the
values of digits, and the values are put together in pairs. Each pass knows nothing of the others:
the first does not know where a byte ends, and the last does not know where the digits stood.

Bytes are printed in one way only, but many texts stand for the same bytes. `HexSpelling` says
which: the printed digits, each in either case, with blanks anywhere. It is the grammar of the
encoding. Reading accepts the spellings of printed bytes and nothing else
(`Encoding.ofHex_eq_ok_iff`), so printing is undone whatever is done to the case of letters and to
blanks.

What lies between the two are the values of the digits. Those of a byte string are its `nibbles`;
`Bytes.ofNibbles` puts them together again, and the passes meet in them.

## Main definitions

* `hexDigits`, the characters that are digits.
* `HexSpelling`
* `Bytes.nibbles`

## Main results

* `hexValue?_eq_some_iff`, `hexValue?_eq_none_iff`
* `hexSpelling_iff`
* `Encoding.ofHex_eq_ok_iff`, `Encoding.ofHex_eq_error_iff`
* `hex_accepts_its_grammar`
-/

namespace ByteSplice

variable {c d : Char} {n : Nat} {digits : List Nat} {text more printed later : List Char}
  {bytes : Bytes}

/-! ### One digit -/

/-- The hexadecimal digits of ASCII. -/
def hexDigits : List Char :=
  ['0', '1', '2', '3', '4', '5', '6', '7', '8', '9', 'a', 'b', 'c', 'd', 'e', 'f',
    'A', 'B', 'C', 'D', 'E', 'F']

/-- The digits are sixteen characters, and six of them have an upper case. -/
theorem exists_hexDigit : ∀ c ∈ hexDigits, ∃ n < 16, hexValue? c = some n ∧
    (c = hexDigit n ∨ c = (hexDigit n).toUpper) ∧ hexDigit n = c.toLower := by
  intro c hc
  fin_cases hc <;> decide

theorem hexValue?_hexDigit : ∀ n < 16,
    hexValue? (hexDigit n) = some n ∧ hexValue? (hexDigit n).toUpper = some n := by
  decide

/-- A character between two others is one of those in a row. -/
theorem exists_ofNat_of_mem_range {a b : Char} (ha : a ≤ c) (hb : c ≤ b) :
    ∃ k < b.toNat - a.toNat + 1, c = Char.ofNat (a.toNat + k) := by
  have hle : a.toNat ≤ c.toNat := ha
  have hle' : c.toNat ≤ b.toNat := hb
  refine ⟨c.toNat - a.toNat, by omega, ?_⟩
  rw [Nat.add_sub_cancel' hle, Char.ofNat_toNat]

theorem hexValue?_eq_none_iff : hexValue? c = none ↔ c ∉ hexDigits := by
  constructor
  · intro h hc
    obtain ⟨n, -, hn, -⟩ := exists_hexDigit c hc
    cases h.symm.trans hn
  · intro h
    rw [hexValue?]
    split_ifs with hdecimal hlower hupper
    · obtain ⟨k, hk, rfl⟩ := exists_ofNat_of_mem_range hdecimal.1 hdecimal.2
      exact absurd ((by decide : ∀ k < 10, Char.ofNat (48 + k) ∈ hexDigits) k hk) h
    · obtain ⟨k, hk, rfl⟩ := exists_ofNat_of_mem_range hlower.1 hlower.2
      exact absurd ((by decide : ∀ k < 6, Char.ofNat (97 + k) ∈ hexDigits) k hk) h
    · obtain ⟨k, hk, rfl⟩ := exists_ofNat_of_mem_range hupper.1 hupper.2
      exact absurd ((by decide : ∀ k < 6, Char.ofNat (65 + k) ∈ hexDigits) k hk) h
    · rfl

theorem mem_hexDigits_of_hexValue? (h : hexValue? c = some n) : c ∈ hexDigits := by
  by_contra hnot
  cases h.symm.trans (hexValue?_eq_none_iff.mpr hnot)

/-- **A digit is one that is printed, in either case.** -/
theorem hexValue?_eq_some_iff :
    hexValue? c = some n ↔ n < 16 ∧ (c = hexDigit n ∨ c = (hexDigit n).toUpper) := by
  constructor
  · intro h
    obtain ⟨m, hm, hvalue, hcase, -⟩ := exists_hexDigit c (mem_hexDigits_of_hexValue? h)
    obtain rfl := Option.some.inj (h.symm.trans hvalue)
    exact ⟨hm, hcase⟩
  · rintro ⟨hn, rfl | rfl⟩
    · exact (hexValue?_hexDigit n hn).1
    · exact (hexValue?_hexDigit n hn).2

theorem isBlank_eq_false_of_mem : ∀ c ∈ hexDigits, Encoding.isBlank c = false := by
  intro c hc
  fin_cases hc <;> rfl

/-! ### Bytes and their digits -/

namespace Bytes

/-- The values of the digits of a byte string, two for each byte. -/
def nibbles (bytes : Bytes) : List Nat :=
  bytes.flatMap fun b => [b.toNat / 16, b.toNat % 16]

theorem lt_of_mem_nibbles : ∀ n ∈ nibbles bytes, n < 16 := by
  intro n hn
  obtain ⟨b, -, hb⟩ := List.mem_flatMap.mp hn
  have hlt : b.toNat < 256 := b.toNat_lt_size
  simp only [List.mem_cons, List.not_mem_nil, or_false] at hb
  rcases hb with rfl | rfl <;> omega

theorem even_length_nibbles (bytes : Bytes) : Even (nibbles bytes).length := by
  induction bytes with
  | nil => decide
  | cons b rest ih =>
    rw [nibbles, List.flatMap_cons, List.length_append]
    exact (by decide : Even 2).add ih

/-- What is printed are the digits of these values. -/
theorem flatMap_hexPair_eq (bytes : Bytes) :
    bytes.flatMap hexPair = (nibbles bytes).map hexDigit := by
  rw [nibbles, List.map_flatMap]
  rfl

/-- What has been put together is not looked at again. -/
theorem ofNibblesOnto_eq : ∀ (acc : Bytes) (digits : List Nat),
    ofNibblesOnto acc digits = acc.reverse ++ ofNibbles digits
  | acc, [] => by simp [ofNibbles, ofNibblesOnto]
  | acc, [_] => by simp [ofNibbles, ofNibblesOnto]
  | acc, high :: low :: rest => by
    rw [ofNibbles, ofNibblesOnto, ofNibblesOnto, ofNibblesOnto_eq _ rest, ofNibblesOnto_eq [_] rest]
    simp

theorem ofNibbles_cons_cons (high low : Nat) (rest : List Nat) :
    ofNibbles (high :: low :: rest) = UInt8.ofNat (16 * high + low) :: ofNibbles rest := by
  rw [ofNibbles, ofNibblesOnto, ofNibblesOnto_eq]
  rfl

theorem ofNibbles_nibbles (bytes : Bytes) : ofNibbles (nibbles bytes) = bytes := by
  induction bytes with
  | nil => rfl
  | cons b rest ih =>
    have hsum : 16 * (b.toNat / 16) + b.toNat % 16 = b.toNat := Nat.div_add_mod b.toNat 16
    change ofNibbles (b.toNat / 16 :: b.toNat % 16 :: nibbles rest) = b :: rest
    rw [ofNibbles_cons_cons, ih, hsum, UInt8.ofNat_toNat]

theorem nibbles_ofNibbles : ∀ {digits : List Nat}, (∀ n ∈ digits, n < 16) → Even digits.length →
    nibbles (ofNibbles digits) = digits
  | [], _, _ => rfl
  | [_], _, heven => absurd heven Nat.not_even_one
  | high :: low :: rest, hdigits, heven => by
    obtain ⟨hhigh, hlow, hrest⟩ : high < 16 ∧ low < 16 ∧ ∀ n ∈ rest, n < 16 := by
      simpa using hdigits
    have hlength : Even rest.length := by
      simpa [Nat.even_add_one] using heven
    have hbyte : (UInt8.ofNat (16 * high + low)).toNat = 16 * high + low :=
      UInt8.toNat_ofNat_of_lt' (show 16 * high + low < 256 by omega)
    rw [ofNibbles_cons_cons, nibbles, List.flatMap_cons, hbyte]
    change (16 * high + low) / 16 :: (16 * high + low) % 16 :: nibbles (ofNibbles rest) = _
    rw [nibbles_ofNibbles hrest hlength, show (16 * high + low) / 16 = high by omega,
      show (16 * high + low) % 16 = low by omega]

end Bytes

/-! ### Spellings -/

/-- A text spells out a row of digits: each of them in either case, with blanks anywhere. -/
inductive HexSpelling : (printed text : List Char) → Prop
  | nil : HexSpelling [] []
  | blank {c : Char} {printed text : List Char} (hblank : Encoding.isBlank c = true)
      (hmore : HexSpelling printed text) : HexSpelling printed (c :: text)
  | digit {c d : Char} {printed text : List Char} (hcase : c = d ∨ c = d.toUpper)
      (hmore : HexSpelling printed text) : HexSpelling (d :: printed) (c :: text)

theorem HexSpelling.append (h : HexSpelling printed text) (h' : HexSpelling later more) :
    HexSpelling (printed ++ later) (text ++ more) := by
  induction h with
  | nil => exact h'
  | blank hblank _ ih => exact .blank hblank ih
  | digit hcase _ ih => exact .digit hcase ih

/-- What is left of a text when its blanks are dropped. -/
def unblanked (text : List Char) : List Char :=
  text.filter fun c => !Encoding.isBlank c

theorem unblanked_cons_of_blank (h : Encoding.isBlank c = true) (text : List Char) :
    unblanked (c :: text) = unblanked text := by
  simp [unblanked, h]

theorem unblanked_cons_of_not_blank (h : Encoding.isBlank c = false) (text : List Char) :
    unblanked (c :: text) = c :: unblanked text := by
  simp [unblanked, h]

/-- A blank is no digit, so the digits are spelled behind it. -/
theorem hexSpelling_cons_of_blank (h : Encoding.isBlank c = true) (hdigits : ∀ n ∈ digits, n < 16) :
    HexSpelling (digits.map hexDigit) (c :: text) ↔ HexSpelling (digits.map hexDigit) text := by
  refine ⟨fun hspelling => ?_, .blank h⟩
  generalize hprinted : digits.map hexDigit = printed at hspelling
  cases hspelling with
  | blank _ hmore => exact hprinted ▸ hmore
  | digit hcase hmore =>
    obtain ⟨n, rest, rfl, rfl, -⟩ := List.map_eq_cons_iff.mp hprinted
    have hvalue := hexValue?_eq_some_iff.mpr ⟨hdigits n List.mem_cons_self, hcase⟩
    cases h.symm.trans (isBlank_eq_false_of_mem c (mem_hexDigits_of_hexValue? hvalue))

/-- A character that is no blank spells the first digit. -/
theorem hexSpelling_cons_of_not_blank (h : Encoding.isBlank c = false)
    (hdigits : ∀ n ∈ digits, n < 16) :
    HexSpelling (digits.map hexDigit) (c :: text) ↔
      ∃ n rest, digits = n :: rest ∧ hexValue? c = some n ∧
        HexSpelling (rest.map hexDigit) text := by
  constructor
  · intro hspelling
    generalize hprinted : digits.map hexDigit = printed at hspelling
    cases hspelling with
    | blank hblank _ => cases hblank.symm.trans h
    | digit hcase hmore =>
      obtain ⟨n, rest, rfl, rfl, rfl⟩ := List.map_eq_cons_iff.mp hprinted
      exact ⟨n, rest, rfl, hexValue?_eq_some_iff.mpr ⟨hdigits n List.mem_cons_self, hcase⟩, hmore⟩
  · rintro ⟨n, rest, rfl, hvalue, hmore⟩
    exact .digit (hexValue?_eq_some_iff.mp hvalue).2 hmore

/-- **A spelling of digits is a text in which they are read.** -/
theorem hexSpelling_iff (hdigits : ∀ n ∈ digits, n < 16) :
    HexSpelling (digits.map hexDigit) text ↔
      (unblanked text).map hexValue? = digits.map some := by
  induction text generalizing digits with
  | nil =>
    cases digits with
    | nil => exact iff_of_true .nil rfl
    | cons n rest => exact iff_of_false nofun nofun
  | cons c text ih =>
    cases hblank : Encoding.isBlank c with
    | true =>
      rw [hexSpelling_cons_of_blank hblank hdigits, unblanked_cons_of_blank hblank, ih hdigits]
    | false =>
      rw [hexSpelling_cons_of_not_blank hblank hdigits, unblanked_cons_of_not_blank hblank,
        List.map_cons]
      cases digits with
      | nil => simp
      | cons n rest =>
        have hrest := ih (List.forall_mem_cons.mp hdigits).2
        simp [← hrest]

theorem mem_hexDigits_of_map_hexValue? (h : text.map hexValue? = digits.map some) :
    ∀ c ∈ text, c ∈ hexDigits := by
  intro c hc
  have hmem : hexValue? c ∈ digits.map some := h ▸ List.mem_map_of_mem hc
  obtain ⟨n, -, hn⟩ := List.mem_map.mp hmem
  exact mem_hexDigits_of_hexValue? hn.symm

/-- Printed digits are the lower case of those they are read from. -/
theorem map_toLower_of_map_hexValue? (h : text.map hexValue? = digits.map some) :
    text.map Char.toLower = digits.map hexDigit := by
  induction text generalizing digits with
  | nil =>
    obtain rfl : digits = [] := by simpa using h.symm
    rfl
  | cons c text ih =>
    obtain ⟨n, rest, rfl, hn, hrest⟩ := List.map_eq_cons_iff.mp h.symm
    obtain ⟨m, -, hm, -, hlower⟩ := exists_hexDigit c (mem_hexDigits_of_hexValue? hn.symm)
    obtain rfl := Option.some.inj (hn.trans hm)
    rw [List.map_cons, List.map_cons, ih hrest.symm, hlower]

/-! ### Reading -/

namespace Encoding

variable {fault : EncodeFault}

theorem mapM_hexNibble_cons_of_some (h : hexValue? c = some n) (text : List Char) :
    (c :: text).mapM hexNibble = (text.mapM hexNibble).map (n :: ·) := by
  rw [List.mapM_cons, hexNibble, h]
  rfl

theorem mapM_hexNibble_cons_of_none (h : hexValue? c = none) (text : List Char) :
    (c :: text).mapM hexNibble = .error (.notHexDigit c) := by
  rw [List.mapM_cons, hexNibble, h]
  rfl

theorem mapM_hexNibble_eq_ok_iff :
    text.mapM hexNibble = .ok digits ↔ text.map hexValue? = digits.map some := by
  induction text generalizing digits with
  | nil => cases digits <;> simp [pure, Except.pure]
  | cons c text ih =>
    cases hvalue : hexValue? c with
    | none => cases digits <;> simp [mapM_hexNibble_cons_of_none hvalue, hvalue]
    | some n =>
      rw [mapM_hexNibble_cons_of_some hvalue, List.map_cons, hvalue]
      cases digits with
      | nil => cases text.mapM hexNibble <;> simp [Except.map]
      | cons m rest =>
        rw [List.map_cons, List.cons.injEq, ← ih]
        cases text.mapM hexNibble <;> simp [Except.map]

/-- Of the characters that are no digits the first is reported. -/
theorem mapM_hexNibble_eq_error_iff :
    text.mapM hexNibble = .error fault ↔
      ∃ c, text.find? (fun c => c ∉ hexDigits) = some c ∧ fault = .notHexDigit c := by
  induction text with
  | nil => simp [pure, Except.pure]
  | cons c text ih =>
    cases hvalue : hexValue? c with
    | none =>
      have hc := hexValue?_eq_none_iff.mp hvalue
      simp [mapM_hexNibble_cons_of_none hvalue, hc, eq_comm]
    | some n =>
      have hc := mem_hexDigits_of_hexValue? hvalue
      rw [mapM_hexNibble_cons_of_some hvalue, List.find?_cons_of_neg (by simpa using hc), ← ih]
      cases text.mapM hexNibble <;> simp [Except.map]

theorem ofHex_of_error (h : (unblanked text).mapM hexNibble = .error fault) :
    ofHex text = .error fault := by
  rw [unblanked] at h
  rw [ofHex, h]

theorem ofHex_of_ok (h : (unblanked text).mapM hexNibble = .ok digits) :
    ofHex text =
      if Even digits.length then .ok (Bytes.ofNibbles digits)
      else .error (.oddHexDigits digits.length) := by
  rw [unblanked] at h
  simp only [ofHex, h, Nat.even_iff]

theorem lt_of_mem_of_mapM (h : text.mapM hexNibble = .ok digits) : ∀ n ∈ digits, n < 16 := by
  intro n hn
  have hmem : some n ∈ text.map hexValue? := by
    rw [mapM_hexNibble_eq_ok_iff.mp h]
    exact List.mem_map_of_mem hn
  obtain ⟨c, -, hc⟩ := List.mem_map.mp hmem
  exact (hexValue?_eq_some_iff.mp hc).1

/-- **What is read is what has been spelled.** -/
theorem ofHex_eq_ok_iff :
    ofHex text = .ok bytes ↔ HexSpelling (bytes.flatMap Bytes.hexPair) text := by
  rw [Bytes.flatMap_hexPair_eq, hexSpelling_iff Bytes.lt_of_mem_nibbles,
    ← mapM_hexNibble_eq_ok_iff]
  constructor
  · intro h
    cases hdigits : (unblanked text).mapM hexNibble with
    | error fault => cases (ofHex_of_error hdigits).symm.trans h
    | ok digits =>
      rw [ofHex_of_ok hdigits] at h
      split_ifs at h with heven
      cases h
      rw [Bytes.nibbles_ofNibbles (lt_of_mem_of_mapM hdigits) heven]
  · intro h
    rw [ofHex_of_ok h, if_pos (Bytes.even_length_nibbles bytes), Bytes.ofNibbles_nibbles]

theorem map_hexValue?_of_ofHex (h : ofHex text = .ok bytes) :
    (unblanked text).map hexValue? = (Bytes.nibbles bytes).map some := by
  rw [← hexSpelling_iff Bytes.lt_of_mem_nibbles, ← Bytes.flatMap_hexPair_eq]
  exact ofHex_eq_ok_iff.mp h

/-- **Why a text is not read.** A character that is no digit goes before an odd number of them. -/
theorem ofHex_eq_error_iff :
    ofHex text = .error fault ↔
      (∃ c, (unblanked text).find? (fun c => c ∉ hexDigits) = some c ∧ fault = .notHexDigit c) ∨
        (∀ c ∈ unblanked text, c ∈ hexDigits) ∧ ¬ Even (unblanked text).length ∧
          fault = .oddHexDigits (unblanked text).length := by
  rw [← mapM_hexNibble_eq_error_iff]
  cases hdigits : (unblanked text).mapM hexNibble with
  | error fault' =>
    obtain ⟨c, hc, -⟩ := mapM_hexNibble_eq_error_iff.mp hdigits
    have hnot : ¬ ∀ c ∈ unblanked text, c ∈ hexDigits := fun hall =>
      absurd (hall c (List.mem_of_find?_eq_some hc)) (by simpa using List.find?_some hc)
    rw [ofHex_of_error hdigits]
    simp [hnot]
  | ok digits =>
    have hvalues := mapM_hexNibble_eq_ok_iff.mp hdigits
    have hlength : digits.length = (unblanked text).length := by
      simpa using (congrArg List.length hvalues).symm
    have hall := mem_hexDigits_of_map_hexValue? hvalues
    rw [ofHex_of_ok hdigits, hlength]
    split_ifs with heven
    · simp [heven]
    · simpa [heven, eq_comm] using fun _ => hall

/-- **Which texts are read.** -/
theorem exists_ofHex_eq_ok_iff :
    (∃ bytes, ofHex text = .ok bytes) ↔
      (∀ c ∈ unblanked text, c ∈ hexDigits) ∧ Even (unblanked text).length := by
  constructor
  · rintro ⟨bytes, h⟩
    have hvalues := map_hexValue?_of_ofHex h
    refine ⟨mem_hexDigits_of_map_hexValue? hvalues, ?_⟩
    have hlength : (unblanked text).length = (Bytes.nibbles bytes).length := by
      simpa using congrArg List.length hvalues
    rw [hlength]
    exact Bytes.even_length_nibbles bytes
  · rintro ⟨hall, heven⟩
    cases h : ofHex text with
    | ok bytes => exact ⟨bytes, rfl⟩
    | error fault =>
      rcases ofHex_eq_error_iff.mp h with ⟨c, hc, -⟩ | ⟨-, hodd, -⟩
      · exact absurd (hall c (List.mem_of_find?_eq_some hc)) (by simpa using List.find?_some hc)
      · exact absurd heven hodd

end Encoding

/-- **The grammar of hexadecimal texts.**

A text is read just if it has nothing but digits between its blanks, and an even number of them.
What is printed of the bytes is then the text without its blanks in lower case. So bytes are read
from every spelling of what is printed of them, and from no other text. The first character that is
no digit is reported, whatever the number of digits is; if there is none the number is. -/
theorem hex_accepts_its_grammar (text : String) :
    let kept := unblanked text.toList
    ((∃ bytes, Encoding.hex.encode text = .ok bytes) ↔
      (∀ c ∈ kept, c ∈ hexDigits) ∧ Even kept.length) ∧
    (∀ bytes, Encoding.hex.encode text = .ok bytes →
      bytes.toHex = String.ofList (kept.map Char.toLower)) ∧
    (∀ bytes : Bytes, Encoding.hex.encode text = .ok bytes ↔
      HexSpelling bytes.toHex.toList text.toList) ∧
    (∀ c, kept.find? (fun c => c ∉ hexDigits) = some c →
      (Encoding.hex.encode text).mapError (PatchError.ofEncodeFault .hex) =
        .error (.encoding .hex (Text.Quoted.character c ++ " is not a hex digit"))) ∧
    ((∀ c ∈ kept, c ∈ hexDigits) → ¬ Even kept.length →
      (Encoding.hex.encode text).mapError (PatchError.ofEncodeFault .hex) =
        .error (.encoding .hex ("odd number of hex digits (" ++ toString kept.length ++ ")"))) := by
  intro kept
  have hencode : Encoding.hex.encode text = Encoding.ofHex text.toList := rfl
  have hspelling (bytes : Bytes) : Encoding.hex.encode text = .ok bytes ↔
      HexSpelling bytes.toHex.toList text.toList := by
    rw [hencode, Encoding.ofHex_eq_ok_iff, Bytes.toHex, String.toList_ofList]
  refine ⟨Encoding.exists_ofHex_eq_ok_iff, fun bytes h => ?_, hspelling, fun c hc => ?_,
    fun hall hodd => ?_⟩
  · rw [map_toLower_of_map_hexValue? (Encoding.map_hexValue?_of_ofHex h), Bytes.toHex,
      Bytes.flatMap_hexPair_eq]
  · rw [hencode, Encoding.ofHex_eq_error_iff.mpr (Or.inl ⟨c, hc, rfl⟩)]
    rfl
  · rw [hencode, Encoding.ofHex_eq_error_iff.mpr (Or.inr ⟨hall, hodd, rfl⟩)]
    rfl

/-- Blanks between the two digits of a byte, and digits in either case; a character that is no digit
in an odd number of characters, which is what is reported; and an odd number of digits. -/
theorem hex_accepts_its_grammar_spaced :
    HexSpelling (Bytes.toHex [0xde, 0xad]).toList "D e\n aD".toList ∧
      Encoding.hex.encode "D e\n aD" = .ok [0xde, 0xad] ∧
      (unblanked "0 x1".toList).find? (fun c => c ∉ hexDigits) = some 'x' ∧
      (Encoding.hex.encode "0 x1").mapError (PatchError.ofEncodeFault .hex) =
        .error (.encoding .hex "'x' is not a hex digit") ∧
      (∀ c ∈ unblanked "ab c".toList, c ∈ hexDigits) ∧ ¬ Even (unblanked "ab c".toList).length ∧
      (Encoding.hex.encode "ab c").mapError (PatchError.ofEncodeFault .hex) =
        .error (.encoding .hex "odd number of hex digits (3)") := by
  have hspelled : HexSpelling (Bytes.toHex [0xde, 0xad]).toList "D e\n aD".toList := by
    rw [Bytes.toHex, String.toList_ofList]
    exact .digit (by decide) <| .blank rfl <| .digit (by decide) <| .blank rfl <| .blank rfl <|
      .digit (by decide) <| .digit (by decide) .nil
  obtain ⟨-, -, hread, -, -⟩ := hex_accepts_its_grammar "D e\n aD"
  obtain ⟨-, -, -, hfirst, -⟩ := hex_accepts_its_grammar "0 x1"
  obtain ⟨-, -, -, -, hodd⟩ := hex_accepts_its_grammar "ab c"
  have hx : (unblanked "0 x1".toList).find? (fun c => c ∉ hexDigits) = some 'x' := by decide
  have hall : ∀ c ∈ unblanked "ab c".toList, c ∈ hexDigits := by
    have hunblanked : unblanked "ab c".toList = ['a', 'b', 'c'] := by decide
    rw [hunblanked]
    intro c hc
    fin_cases hc <;> decide
  have hlength : ¬ Even (unblanked "ab c".toList).length := by decide
  have hquoted : Text.Quoted.character 'x' ++ " is not a hex digit" = "'x' is not a hex digit" := by
    decide +kernel
  exact ⟨hspelled, (hread _).mpr hspelled, hx, hquoted ▸ hfirst _ hx, hall, hlength,
    hodd hall hlength⟩

end ByteSplice
