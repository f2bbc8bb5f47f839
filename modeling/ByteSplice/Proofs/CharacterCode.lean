import ByteSplice.Encoding
import Mathlib.Data.List.Infix

/-!
# Where characters begin

A text in bytes has the bytes of its characters side by side, with nothing between them. So a search
among the bytes could find a text where it is not: begin inside a character, or end inside one.

A `CharacterCode` keeps both from happening. A byte that begins a character never stands inside one,
so no match begins inside a character. No character is the beginning of another one, so where two
texts begin at the same byte, they have the same characters for as long as they have the same bytes.
`CharacterCode.exists_append_of_isPrefix_drop` is what this comes to: where the bytes of a text
stand among those of another, the text stands among its characters.

UTF-8 is such a code for all characters, and Latin-1 for those that it has.

## Main definitions

* `CharacterCode` with `CharacterCode.write` and `CharacterCode.Spells`.
* `CharacterCode.utf8` and `CharacterCode.latin1`; `Encoding.code?`.
* `Encoding.read?`: the text that bytes are read as.

## Main results

* `CharacterCode.isPrefix_of_write`
* `CharacterCode.exists_append_of_isPrefix_drop`
* `Encoding.encodeChars_eq_write`, `Encoding.read?_write`
-/

namespace ByteSplice

/-- Bytes for characters from which one can tell where characters begin. -/
structure CharacterCode where
  /-- The bytes of a character. -/
  bytes : Char → Bytes
  /-- The code has the character. -/
  Has : Char → Prop
  /-- A character can begin with the byte. -/
  Leads : UInt8 → Prop
  exists_cons : ∀ {c}, Has c → ∃ b rest, bytes c = b :: rest ∧ Leads b ∧ ∀ x ∈ rest, ¬ Leads x
  eq_of_isPrefix : ∀ {c d}, Has c → Has d → bytes c <+: bytes d → c = d

namespace CharacterCode

/-- The bytes of a text, given as its characters. -/
def write (k : CharacterCode) (text : List Char) : Bytes :=
  text.flatMap k.bytes

/-- The code has all characters of a text. -/
def Spells (k : CharacterCode) (text : List Char) : Prop :=
  ∀ c ∈ text, k.Has c

variable {k : CharacterCode} {c d : Char} {text find : List Char} {i : Nat}

@[simp] theorem write_nil (k : CharacterCode) : k.write [] = [] :=
  rfl

@[simp] theorem write_cons (k : CharacterCode) (c : Char) (text : List Char) :
    k.write (c :: text) = k.bytes c ++ k.write text :=
  List.flatMap_cons

@[simp] theorem write_append (k : CharacterCode) (text more : List Char) :
    k.write (text ++ more) = k.write text ++ k.write more :=
  List.flatMap_append

theorem spells_cons_iff : k.Spells (c :: text) ↔ k.Has c ∧ k.Spells text :=
  List.forall_mem_cons

theorem spells_append_iff {more : List Char} :
    k.Spells (text ++ more) ↔ k.Spells text ∧ k.Spells more :=
  List.forall_mem_append

/-- A text begins with a byte that leads. -/
theorem exists_write_eq_cons (hfind : k.Spells find) (hne : find ≠ []) :
    ∃ b rest, k.write find = b :: rest ∧ k.Leads b := by
  cases find with
  | nil => exact absurd rfl hne
  | cons c more =>
    obtain ⟨b, rest, hbytes, hleads, -⟩ := k.exists_cons (spells_cons_iff.mp hfind).1
    exact ⟨b, rest ++ k.write more, by rw [write_cons, hbytes, List.cons_append], hleads⟩

theorem write_ne_nil (hfind : k.Spells find) (hne : find ≠ []) : k.write find ≠ [] := by
  obtain ⟨b, rest, hwrite, -⟩ := exists_write_eq_cons hfind hne
  rw [hwrite]
  exact List.cons_ne_nil b rest

/-! ### Where one text stands in another -/

theorem write_isPrefix (k : CharacterCode) (h : find <+: text) : k.write find <+: k.write text := by
  obtain ⟨back, rfl⟩ := h
  rw [write_append]
  exact List.prefix_append _ _

/-- Of two texts that begin with the same character in bytes, that is the same character. -/
theorem eq_of_append_isPrefix {rest more : Bytes} (hc : k.Has c) (hd : k.Has d)
    (h : k.bytes c ++ rest <+: k.bytes d ++ more) : c = d := by
  have hfirst : k.bytes c <+: k.bytes d ++ more := (List.prefix_append _ rest).trans h
  rcases List.prefix_or_prefix_of_prefix hfirst (List.prefix_append _ more) with hcd | hdc
  · exact k.eq_of_isPrefix hc hd hcd
  · exact (k.eq_of_isPrefix hd hc hdc).symm

/-- **What begins a text in bytes begins it in characters.** -/
theorem isPrefix_of_write (hfind : k.Spells find) (htext : k.Spells text)
    (h : k.write find <+: k.write text) : find <+: text := by
  induction find generalizing text with
  | nil => exact List.nil_prefix
  | cons c more ih =>
    obtain ⟨hc, hmore⟩ := spells_cons_iff.mp hfind
    cases text with
    | nil => exact absurd (List.prefix_nil.mp h) (write_ne_nil hfind (List.cons_ne_nil c more))
    | cons d rest =>
      obtain ⟨hd, hrest⟩ := spells_cons_iff.mp htext
      rw [write_cons, write_cons] at h
      obtain rfl := eq_of_append_isPrefix hc hd h
      exact List.cons_prefix_cons.mpr ⟨rfl, ih hmore hrest ((List.prefix_append_right_inj _).mp h)⟩

/-- No text begins inside a character. -/
theorem not_isPrefix_drop_of_lt {rest : Bytes} (hfind : k.Spells find) (hne : find ≠ [])
    (hd : k.Has d) (hpos : 0 < i) (hlt : i < (k.bytes d).length) :
    ¬ k.write find <+: (k.bytes d ++ rest).drop i := by
  intro h
  obtain ⟨b, more, hwrite, hleads⟩ := exists_write_eq_cons hfind hne
  obtain ⟨first, later, hbytes, -, hinside⟩ := k.exists_cons hd
  obtain ⟨j, rfl⟩ : ∃ j, i = j + 1 := Nat.exists_eq_add_one.mpr hpos
  rw [hbytes, List.length_cons, Nat.succ_lt_succ_iff] at hlt
  rw [hwrite, hbytes, List.cons_append, List.drop_succ_cons,
    List.drop_append_of_le_length (Nat.le_of_lt hlt), List.drop_eq_getElem_cons hlt,
    List.cons_append, List.cons_prefix_cons] at h
  exact hinside _ (List.getElem_mem hlt) (h.1 ▸ hleads)

/-- **Where the bytes of a text stand, there stands the text.** -/
theorem exists_append_of_isPrefix_drop (hfind : k.Spells find) (hne : find ≠ [])
    (htext : k.Spells text) (h : k.write find <+: (k.write text).drop i) :
    ∃ front back, text = front ++ find ++ back ∧ i = (k.write front).length := by
  induction text generalizing i with
  | nil =>
    rw [write_nil, List.drop_nil] at h
    exact absurd (List.prefix_nil.mp h) (write_ne_nil hfind hne)
  | cons d rest ih =>
    rcases Nat.eq_zero_or_pos i with rfl | hpos
    · obtain ⟨back, hback⟩ := isPrefix_of_write hfind htext h
      exact ⟨[], back, hback.symm, rfl⟩
    · obtain ⟨hd, hrest⟩ := spells_cons_iff.mp htext
      rw [write_cons] at h
      by_cases hlt : i < (k.bytes d).length
      · exact absurd h (not_isPrefix_drop_of_lt hfind hne hd hpos hlt)
      · obtain ⟨j, rfl⟩ := Nat.exists_eq_add_of_le (Nat.le_of_not_lt hlt)
        rw [List.drop_length_add_append] at h
        obtain ⟨front, back, rfl, rfl⟩ := ih hrest h
        exact ⟨d :: front, back, rfl, by rw [write_cons, List.length_append]⟩

/-! ### UTF-8 -/

/-- In UTF-8 the first byte of a character, and no other, is one that a character can begin with. -/
theorem exists_utf8EncodeChar_eq_cons (c : Char) :
    ∃ b rest, String.utf8EncodeChar c = b :: rest ∧ b.IsUTF8FirstByte ∧
      ∀ x ∈ rest, ¬ x.IsUTF8FirstByte := by
  have hfirst : ∀ i (hi : i < (String.utf8EncodeChar c).length),
      (String.utf8EncodeChar c)[i].IsUTF8FirstByte ↔ i = 0 := fun _ _ =>
    UInt8.isUTF8FirstByte_getElem_utf8EncodeChar
  obtain ⟨b, rest, hbytes⟩ := List.exists_cons_of_ne_nil (String.utf8EncodeChar_ne_nil (c := c))
  rw [hbytes] at hfirst ⊢
  refine ⟨b, rest, rfl, (hfirst 0 (Nat.succ_pos _)).mpr rfl, fun x hx hleads => ?_⟩
  obtain ⟨i, hi, rfl⟩ := List.getElem_of_mem hx
  exact absurd ((hfirst (i + 1) (Nat.succ_lt_succ hi)).mp hleads) (Nat.succ_ne_zero i)

/-- What is decoded first depends on the first bytes only. -/
theorem eq_of_utf8EncodeChar_isPrefix (h : String.utf8EncodeChar c <+: String.utf8EncodeChar d) :
    c = d := by
  obtain ⟨more, hmore⟩ := h
  have hc := ByteArray.utf8DecodeChar?_utf8EncodeChar_append (b := more.toByteArray) (c := c)
  have hd := ByteArray.utf8DecodeChar?_utf8EncodeChar_append (b := ByteArray.empty) (c := d)
  rw [← List.toByteArray_append, hmore] at hc
  rw [ByteArray.append_empty] at hd
  exact Option.some.inj (hc.symm.trans hd)

/-- The code that has every character. -/
def utf8 : CharacterCode where
  bytes := String.utf8EncodeChar
  Has _ := True
  Leads := UInt8.IsUTF8FirstByte
  exists_cons _ := exists_utf8EncodeChar_eq_cons _
  eq_of_isPrefix _ _ := eq_of_utf8EncodeChar_isPrefix

theorem spells_utf8 (text : List Char) : utf8.Spells text :=
  fun _ _ => trivial

/-! ### Latin-1 -/

/-- The code that has one byte for each character up to U+00FF. -/
def latin1 : CharacterCode where
  bytes c := [UInt8.ofNat c.toNat]
  Has c := c.toNat ≤ 0xFF
  Leads _ := True
  exists_cons _ := ⟨_, [], rfl, trivial, nofun⟩
  eq_of_isPrefix {c d} hc hd h := by
    have hbyte := congrArg UInt8.toNat (List.cons_prefix_cons.mp h).1
    rw [UInt8.toNat_ofNat_of_lt' (Nat.lt_succ_of_le hc),
      UInt8.toNat_ofNat_of_lt' (Nat.lt_succ_of_le hd)] at hbyte
    exact Char.toNat_inj.mp hbyte

theorem encodeChars_latin1 (h : latin1.Spells text) :
    Encoding.latin1.encodeChars text = .ok (latin1.write text) := by
  rw [Encoding.encodeChars]
  induction text with
  | nil => rfl
  | cons c rest ih =>
    obtain ⟨hc, hrest⟩ := spells_cons_iff.mp h
    rw [List.mapM_cons, Encoding.latin1Byte, if_pos (Nat.lt_succ_of_le hc), ih hrest]
    rfl

/-- In Latin-1 a byte is the number of its character. -/
theorem map_write_latin1 (h : latin1.Spells text) :
    (latin1.write text).map (fun b => Char.ofNat b.toNat) = text := by
  induction text with
  | nil => rfl
  | cons c rest ih =>
    obtain ⟨hc, hrest⟩ := spells_cons_iff.mp h
    have hbyte : (UInt8.ofNat c.toNat).toNat = c.toNat :=
      UInt8.toNat_ofNat_of_lt' (Nat.lt_succ_of_le hc)
    rw [write_cons, List.map_append, ih hrest]
    change [Char.ofNat (UInt8.ofNat c.toNat).toNat] ++ rest = c :: rest
    rw [hbyte, Char.ofNat_toNat, List.singleton_append]

end CharacterCode

/-! ### Encodings -/

namespace Encoding

variable {scheme : Encoding} {k : CharacterCode} {text : List Char}

/-- The code of an encoding of characters. Hexadecimal encodes no characters, but bytes. -/
def code? : Encoding → Option CharacterCode
  | utf8 => some .utf8
  | latin1 => some .latin1
  | hex => none

/-- The text that bytes are read as. -/
def read? : Encoding → Bytes → Option String
  | utf8, data => String.fromUTF8? ⟨data.toArray⟩
  | latin1, data => some (String.ofList (data.map fun b => Char.ofNat b.toNat))
  | hex, _ => none

theorem encodeChars_eq_write (hcode : scheme.code? = some k) (h : k.Spells text) :
    scheme.encodeChars text = .ok (k.write text) := by
  cases scheme with
  | utf8 =>
    cases hcode
    rfl
  | latin1 =>
    cases hcode
    exact CharacterCode.encodeChars_latin1 h
  | hex => cases hcode

/-- Bytes that were written as a text are read as that text. -/
theorem read?_write (hcode : scheme.code? = some k) (h : k.Spells text) :
    scheme.read? (k.write text) = some (String.ofList text) := by
  cases scheme with
  | utf8 =>
    cases hcode
    have hbytes : (⟨(CharacterCode.utf8.write text).toArray⟩ : ByteArray) = text.utf8Encode := by
      ext1
      simp [List.utf8Encode, CharacterCode.write, CharacterCode.utf8]
    rw [read?, hbytes, String.fromUTF8?, dif_pos ByteArray.isValidUTF8_utf8Encode]
    rfl
  | latin1 =>
    cases hcode
    rw [read?, CharacterCode.map_write_latin1 h]
  | hex => cases hcode

/-- Both codes have the zero character, and write it as the zero byte. -/
theorem write_zero (hcode : scheme.code? = some k) :
    k.Spells ['\x00'] ∧ k.write ['\x00'] = [0] := by
  cases scheme with
  | utf8 =>
    cases hcode
    exact ⟨CharacterCode.spells_utf8 _, rfl⟩
  | latin1 =>
    cases hcode
    exact ⟨by simp [CharacterCode.Spells, CharacterCode.latin1], rfl⟩
  | hex => cases hcode

end Encoding

end ByteSplice
