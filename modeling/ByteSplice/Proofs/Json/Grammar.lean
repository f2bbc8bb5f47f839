import ByteSplice.Json.Token

/-!
# Texts that are JSON

A value can be written in many ways: blanks may stand around everything, a character of a string may
be escaped where it need not be, a number may have zeros behind its point. This module says which
texts are JSON values, without any reader, as relations that a text is built up by.

## Strings

Of a string one can ask two things. `StringText` says which characters it stands for, so its
escapes have to be characters, or two of them one character. `IsString` only asks for four digits
behind `\u`. Everything that is the first is the second, but not the other way round: one half of a
surrogate pair alone is good JSON and stands for no character.

## Values

Items of an array and members of an object are kept as they stand, with the blanks around them
(`Slot`). That there are no blanks where a value begins or ends is no restriction, since whatever
encloses the value has a place for them. `IsValue` says nothing of what a value means. In particular
keys may repeat, and numbers may be too large for any machine.

## Main definitions

* `UnitText`, `CharText`, `StringText`: what stands for which characters.
* `IsString`, `IsNumber`, `IsValue`: what is good JSON.
* `Slot`, `MemberText`, `joined`, of which arrays and objects are made.

## Main results

* `readString_of_stringText`: a string is read as the characters it stands for.
-/

namespace ByteSplice.Json

/-! ### Blanks -/

/-- Nothing but blanks. -/
def AllBlank (s : List Char) : Prop :=
  ∀ c ∈ s, isBlank c = true

instance : DecidablePred AllBlank :=
  fun s => List.decidableBAll _ s

theorem allBlank_nil : AllBlank [] :=
  nofun

theorem AllBlank.append {s t : List Char} (h : AllBlank s) (h' : AllBlank t) : AllBlank (s ++ t) :=
  List.forall_mem_append.mpr ⟨h, h'⟩

/-- Blanks in front of something else are skipped, and nothing else is. -/
theorem skipBlanks_append {blanks : List Char} {c : Char} (h : AllBlank blanks)
    (hc : isBlank c = false) (rest : List Char) :
    skipBlanks (blanks ++ c :: rest) = c :: rest := by
  rw [skipBlanks, List.dropWhile_append_of_pos h, List.dropWhile_cons_of_neg (by simp [hc])]

/-! ### Strings -/

/-- Four hexadecimal digits, and the UTF-16 unit that they stand for. -/
inductive UnitText : Nat → List Char → Prop
  | digits {a b c d : Char} {i j k l : Nat} (ha : hexValue? a = some i) (hb : hexValue? b = some j)
      (hc : hexValue? c = some k) (hd : hexValue? d = some l) :
      UnitText (((i * 16 + j) * 16 + k) * 16 + l) [a, b, c, d]

/-- The characters with a short escape, behind the letter that stands for them. -/
def shortEscapes : List (Char × Char) :=
  [('"', '"'), ('\\', '\\'), ('/', '/'), ('b', '\x08'), ('f', '\x0c'), ('n', '\n'), ('r', '\r'),
    ('t', '\t')]

/-- How a character may be written in a string. -/
inductive CharText : Char → List Char → Prop
  /-- As itself, unless it means something else there or is a control. -/
  | plain {c : Char} (hquote : c ≠ '"') (hslash : c ≠ '\\') (hcontrol : ¬ c < ' ') :
      CharText c [c]
  | short {c letter : Char} (h : (letter, c) ∈ shortEscapes) : CharText c ['\\', letter]
  /-- By its number, if that is a single unit. -/
  | unit {c : Char} {code : List Char} (h : UnitText c.toNat code) :
      CharText c ('\\' :: 'u' :: code)
  /-- By the two units of a surrogate pair. -/
  | pair {c : Char} {high low : Nat} {code code' : List Char} (hhigh : UnitText high code)
      (hlow : UnitText low code') (hfirst : isHighSurrogate high = true)
      (hsecond : isLowSurrogate low = true)
      (hnumber : c.toNat = 0x10000 + (high - 0xd800) * 0x400 + (low - 0xdc00)) :
      CharText c ('\\' :: 'u' :: (code ++ '\\' :: 'u' :: code'))

/-- How a text may be written in a string, between its quotes. -/
inductive StringText : List Char → List Char → Prop
  | nil : StringText [] []
  | cons {c : Char} {text code s : List Char} (hchar : CharText c code)
      (hmore : StringText text s) : StringText (c :: text) (code ++ s)

/-- Good JSON between the quotes of a string, whatever it stands for. -/
inductive IsString : List Char → Prop
  | nil : IsString []
  | plain {c : Char} {s : List Char} (hquote : c ≠ '"') (hslash : c ≠ '\\')
      (hcontrol : ¬ c < ' ') (hmore : IsString s) : IsString (c :: s)
  | short {letter : Char} {s : List Char} (h : letter ∈ shortEscapes.map Prod.fst)
      (hmore : IsString s) : IsString ('\\' :: letter :: s)
  | unit {n : Nat} {code s : List Char} (h : UnitText n code) (hmore : IsString s) :
      IsString ('\\' :: 'u' :: (code ++ s))

/-! ### Numbers -/

/-- Nothing but decimal digits. -/
def AllDigits (s : List Char) : Prop :=
  ∀ c ∈ s, c.isDigit = true

instance : DecidablePred AllDigits :=
  fun s => List.decidableBAll _ s

/-- The digits of a number in front of its point: none of them is a needless zero. -/
inductive IsWhole : List Char → Prop
  | zero : IsWhole ['0']
  | digits {c : Char} {s : List Char} (hdigit : c.isDigit = true) (hzero : c ≠ '0')
      (hmore : AllDigits s) : IsWhole (c :: s)

/-- What stands behind them, if anything does: a point and at least one digit. -/
inductive IsFraction : List Char → Prop
  | nil : IsFraction []
  | digits {c : Char} {s : List Char} (hdigit : c.isDigit = true) (hmore : AllDigits s) :
      IsFraction ('.' :: c :: s)

/-- What stands last, if anything does: an exponent, with or without a sign. -/
inductive IsExponent : List Char → Prop
  | nil : IsExponent []
  | digits {e c : Char} {sign s : List Char} (hletter : e = 'e' ∨ e = 'E')
      (hsign : sign ∈ [[], ['+'], ['-']]) (hdigit : c.isDigit = true) (hmore : AllDigits s) :
      IsExponent (e :: (sign ++ c :: s))

/-- A number. -/
inductive IsNumber : List Char → Prop
  | intro {sign whole fraction exponent : List Char} (hsign : sign ∈ [[], ['-']])
      (hwhole : IsWhole whole) (hfraction : IsFraction fraction)
      (hexponent : IsExponent exponent) :
      IsNumber (sign ++ (whole ++ (fraction ++ exponent)))

/-! ### Values -/

/-- A piece of a text with what stands around it. -/
structure Slot where
  front : List Char
  text : List Char
  back : List Char

namespace Slot

/-- The piece as it stands in the text. -/
def chars (x : Slot) : List Char :=
  x.front ++ (x.text ++ x.back)

/-- Nothing but blanks stands around the piece. -/
structure IsPadded (x : Slot) : Prop where
  front : AllBlank x.front
  back : AllBlank x.back

instance (x : Slot) : Decidable x.IsPadded :=
  decidable_of_iff (AllBlank x.front ∧ AllBlank x.back)
    ⟨fun h => ⟨h.1, h.2⟩, fun h => ⟨h.front, h.back⟩⟩

end Slot

/-- A member of an object. The text of its key is what stands between the quotes. -/
structure MemberText where
  key : Slot
  value : Slot

namespace MemberText

/-- The member as it stands in the text. -/
def chars (w : MemberText) : List Char :=
  w.key.front ++ '"' :: (w.key.text ++ '"' :: (w.key.back ++ ':' :: w.value.chars))

theorem chars_append (w : MemberText) (s : List Char) :
    w.chars ++ s =
      w.key.front ++ '"' :: (w.key.text ++ '"' :: (w.key.back ++ ':' :: (w.value.chars ++ s))) := by
  simp [chars]

/-- Nothing but blanks stands around the key and around the value. -/
structure IsPadded (w : MemberText) : Prop where
  key : w.key.IsPadded
  value : w.value.IsPadded

instance (w : MemberText) : Decidable w.IsPadded :=
  decidable_of_iff (w.key.IsPadded ∧ w.value.IsPadded)
    ⟨fun h => ⟨h.1, h.2⟩, fun h => ⟨h.key, h.value⟩⟩

end MemberText

/-- Pieces with a comma in front of each. -/
def later (pieces : List (List Char)) : List Char :=
  pieces.flatMap (',' :: ·)

theorem later_cons (piece : List Char) (more : List (List Char)) :
    later (piece :: more) = ',' :: (piece ++ later more) :=
  rfl

/-- Pieces with a comma between any two. -/
def joined : List (List Char) → List Char
  | [] => []
  | piece :: more => piece ++ later more

/-- **Good JSON.** An array and an object may be empty, with blanks (`gap`) between the brackets. -/
inductive IsValue : List Char → Prop
  | null : IsValue ['n', 'u', 'l', 'l']
  | boolean (b : Bool) : IsValue (toString b).toList
  | number {s : List Char} (h : IsNumber s) : IsValue s
  | string {s : List Char} (h : IsString s) : IsValue ('"' :: (s ++ ['"']))
  | array {gap : List Char} {items : List Slot} (hgap : AllBlank gap)
      (hpadded : ∀ x ∈ items, x.IsPadded) (hvalues : ∀ x ∈ items, IsValue x.text) :
      IsValue ('[' :: (gap ++ (joined (items.map Slot.chars) ++ [']'])))
  | object {gap : List Char} {members : List MemberText} (hgap : AllBlank gap)
      (hpadded : ∀ w ∈ members, w.IsPadded) (hkeys : ∀ w ∈ members, IsString w.key.text)
      (hvalues : ∀ w ∈ members, IsValue w.value.text) :
      IsValue ('\x7b' :: (gap ++ (joined (members.map MemberText.chars) ++ ['\x7d'])))

/-- A text in which nothing has to be escaped may be written as it is. -/
theorem stringText_of_plain {text : List Char}
    (h : text.all (fun c => c ≠ '"' ∧ c ≠ '\\' ∧ ¬ c < ' ') = true) : StringText text text := by
  induction text with
  | nil => exact .nil
  | cons c text ih =>
    simp only [List.all_cons, Bool.and_eq_true, decide_eq_true_eq] at h
    obtain ⟨⟨hquote, hslash, hcontrol⟩, hmore⟩ := h
    exact .cons (.plain hquote hslash hcontrol) (ih hmore)

/-- Whatever stands for characters is good. -/
theorem StringText.isString {text s : List Char} (h : StringText text s) : IsString s := by
  induction h with
  | nil => exact .nil
  | cons hchar hmore ih =>
    cases hchar with
    | plain hquote hslash hcontrol => exact .plain hquote hslash hcontrol ih
    | short h => exact .short (List.mem_map_of_mem h) ih
    | unit h => exact .unit h ih
    | pair hhigh hlow hfirst hsecond hnumber =>
      simp only [List.cons_append, List.append_assoc]
      exact .unit hhigh (.unit hlow ih)

/-! ### What stands behind a value -/

section

variable {c : Char} {back rest : List Char}

/-- The text ends here, or goes on with something that is no part of a number. -/
def EndsNumber (rest : List Char) : Prop :=
  ∀ c ∈ rest.head?, c.isDigit = false ∧ c ≠ '.' ∧ c ≠ 'e' ∧ c ≠ 'E'

theorem endsNumber_cons (h : c ∈ [',', ']', '\x7d']) (rest : List Char) :
    EndsNumber (c :: rest) := by
  simp only [List.mem_cons, List.not_mem_nil, or_false] at h
  rcases h with rfl | rfl | rfl <;> simp [EndsNumber]

theorem EndsNumber.append (hback : AllBlank back) (hrest : EndsNumber rest) :
    EndsNumber (back ++ rest) := by
  cases back with
  | nil => exact hrest
  | cons c back =>
    have hblank : isBlank c = true := hback c (List.mem_cons_self ..)
    simp only [isBlank, Bool.or_eq_true, decide_eq_true_eq] at hblank
    rcases hblank with ((rfl | rfl) | rfl) | rfl <;> simp [EndsNumber]

theorem endsNumber_later (pieces : List (List Char)) (h : c ∈ [',', ']', '\x7d'])
    (rest : List Char) : EndsNumber (later pieces ++ c :: rest) := by
  cases pieces with
  | nil => exact endsNumber_cons h rest
  | cons => exact endsNumber_cons (by decide) _

end

/-! ### Reading strings -/

variable {c x : Char} {code rest rest' read text s : List Char} {n : Nat}

theorem shortEscape?_of_mem : ∀ e ∈ shortEscapes, shortEscape? e.1 = some e.2 := by
  decide

theorem readUnit_of_unitText (h : UnitText n code) (rest : List Char) :
    readUnit (code ++ rest) = .ok (n, rest) := by
  cases h with
  | digits ha hb hc hd => simp [readUnit, ha, hb, hc, hd]

/-- The number of a character is no surrogate. -/
theorem not_isSurrogate (c : Char) :
    isLowSurrogate c.toNat = false ∧ isHighSurrogate c.toNat = false := by
  have hvalid : c.toNat < 0xd800 ∨ 0xdfff < c.toNat ∧ c.toNat < 0x110000 := c.valid
  simp only [isLowSurrogate, isHighSurrogate, Bool.and_eq_false_iff, decide_eq_false_iff_not]
  omega

theorem readUnicode_of_unit (h : UnitText c.toNat code) (rest : List Char) :
    readUnicode (code ++ rest) = .ok (c, rest) := by
  obtain ⟨hlow, hhigh⟩ := not_isSurrogate c
  simp only [readUnicode, readUnit_of_unitText h, hlow, hhigh, Bool.false_eq_true, if_false,
    Char.ofNat_toNat]

/-- A high surrogate is not a low one, so the second unit is asked for and makes the character
whole. -/
theorem readUnicode_of_pair {high low : Nat} {code' : List Char} (hhigh : UnitText high code)
    (hlow : UnitText low code') (hfirst : isHighSurrogate high = true)
    (hsecond : isLowSurrogate low = true)
    (hnumber : c.toNat = 0x10000 + (high - 0xd800) * 0x400 + (low - 0xdc00)) (rest : List Char) :
    readUnicode (code ++ '\\' :: 'u' :: (code' ++ rest)) = .ok (c, rest) := by
  have hnot : isLowSurrogate high = false := by
    simp only [isHighSurrogate, isLowSurrogate, Bool.and_eq_true, Bool.and_eq_false_iff,
      decide_eq_true_eq, decide_eq_false_iff_not] at hfirst ⊢
    omega
  simp only [readUnicode, readUnit_of_unitText hhigh, hnot, hfirst, Bool.false_eq_true, if_false,
    if_true, readPair, readUnit_of_unitText hlow, hsecond, ← hnumber, Char.ofNat_toNat]

theorem readStringOnto_quote (read rest : List Char) :
    readStringOnto read ('"' :: rest) = .ok (read.reverse, rest) := by
  rw [readStringOnto, if_pos rfl]

theorem readStringOnto_of_plain (read rest : List Char) (hquote : c ≠ '"') (hslash : c ≠ '\\')
    (hcontrol : ¬ c < ' ') :
    readStringOnto read (c :: rest) = readStringOnto (c :: read) rest := by
  rw [readStringOnto, if_neg hquote, if_neg hslash, if_neg hcontrol]

theorem readStringOnto_of_escape (read : List Char) (h : readEscape rest = .ok (x, rest')) :
    readStringOnto read ('\\' :: rest) = readStringOnto (x :: read) rest' := by
  rw [readStringOnto, if_neg (by decide), if_pos rfl]
  split
  · next fault hfault => cases h.symm.trans hfault
  · next y more hmore =>
    cases h.symm.trans hmore
    rfl

theorem readStringOnto_of_unicode (read : List Char) (h : readUnicode rest = .ok (x, rest')) :
    readStringOnto read ('\\' :: 'u' :: rest) = readStringOnto (x :: read) rest' :=
  readStringOnto_of_escape read h

/-- **One character**, however it is written. -/
theorem readStringOnto_of_charText (h : CharText c code) (read rest : List Char) :
    readStringOnto read (code ++ rest) = readStringOnto (c :: read) rest := by
  cases h with
  | plain hquote hslash hcontrol => exact readStringOnto_of_plain read rest hquote hslash hcontrol
  | @short letter h =>
    have hletter : shortEscape? letter = some c := shortEscape?_of_mem (letter, c) h
    have hread : readEscape (letter :: rest) = .ok (c, rest) := by rw [readEscape, hletter]
    exact readStringOnto_of_escape read hread
  | unit h => exact readStringOnto_of_unicode read (readUnicode_of_unit h rest)
  | pair hhigh hlow hfirst hsecond hnumber =>
    rw [List.cons_append, List.cons_append, List.append_assoc, List.cons_append, List.cons_append]
    exact readStringOnto_of_unicode read
      (readUnicode_of_pair hhigh hlow hfirst hsecond hnumber rest)

theorem readStringOnto_of_stringText (h : StringText text s) (read rest : List Char) :
    readStringOnto read (s ++ '"' :: rest) = .ok (read.reverse ++ text, rest) := by
  induction h generalizing read with
  | nil => rw [List.nil_append, readStringOnto_quote, List.append_nil]
  | cons hchar hmore ih =>
    rw [List.append_assoc, readStringOnto_of_charText hchar, ih, List.reverse_cons,
      List.append_assoc, List.singleton_append]

/-- **A string is read as the characters it stands for**, whichever of them are escaped. -/
theorem readString_of_stringText {value : String} (h : StringText value.toList s)
    (rest : List Char) : readString (s ++ '"' :: rest) = .ok (value, rest) := by
  simp only [readString, readStringOnto_of_stringText h, List.reverse_nil, List.nil_append,
    String.ofList_toList]

end ByteSplice.Json
