import ByteSplice.Proofs.Toml.Tables
import Mathlib.Data.List.Forall2

/-!
# Texts that are TOML

The same tables can be written in many texts: with blanks and comments, with either kind of line
end, with keys bare or in quotes, with strings in any of four forms. This module says which texts
are documents, without any reader, as relations that a text is built up by. It leaves out what
settings have no use for: numbers, dates, arrays, tables inside tables.

## Strings

Between double quotes a backslash escapes, between single quotes nothing does (`BasicText`,
`IsLiteral`). A string of several lines has three quotes on either side (`ManyText`). One or two
quotes may stand anywhere in it, and up to two in front of the three that end it. A line end counts
as a line feed, unless it stands right behind the opening quotes, where it does not count, or behind
a backslash, which takes it away with all blanks and line ends that follow (`IsGap`).

## Documents

A line holds a pair or a header (`LineText`), with blanks around it and a comment behind it
(`IsMargin`). Lines with neither may stand anywhere, and the last line need not end.

## Main definitions

* `StringText`, `KeyText`, `SimpleText`, `PairText`, `ValueText`, `HeaderText`: what stands for
  what.
* `DocumentText`: which lines a text consists of.

## Main results

* `stringValue_of_stringText`: a string is read as the characters it stands for.
-/

namespace ByteSplice.Toml

/-! ### Blanks, comments and line ends -/

/-- Nothing but blanks. -/
def AllBlank (s : List Char) : Prop :=
  ∀ c ∈ s, isBlank c = true

/-- Nothing but what may stand in comments and strings. -/
def AllPlain (s : List Char) : Prop :=
  ∀ c ∈ s, isPlain c = true

/-- Nothing but what may stand in a key without quotes. -/
def AllBare (s : List Char) : Prop :=
  ∀ c ∈ s, isBare c = true

instance : DecidablePred AllBlank :=
  fun s => List.decidableBAll _ s

instance : DecidablePred AllPlain :=
  fun s => List.decidableBAll _ s

instance : DecidablePred AllBare :=
  fun s => List.decidableBAll _ s

/-- A line end. -/
inductive IsNewline : List Char → Prop
  | lf : IsNewline ['\n']
  | crlf : IsNewline ['\r', '\n']

/-- What may stand on a line behind everything else: blanks, and a comment. -/
inductive IsMargin : List Char → Prop
  | blanks {s : List Char} (h : AllBlank s) : IsMargin s
  | comment {s text : List Char} (h : AllBlank s) (htext : AllPlain text) :
      IsMargin (s ++ '#' :: text)

/-! ### Strings -/

/-- The character with a number, as hexadecimal digits. -/
structure CodeText (width : Nat) (c : Char) (digits : List Char) : Prop where
  width : digits.length = width
  number : ∃ values, List.Forall₂ (fun d n => hexValue? d = some n) digits values ∧
    values.foldl (fun n d => n * 16 + d) 0 = c.toNat

/-- The characters with a short escape, behind the letter that stands for them. -/
def shortEscapes : List (Char × Char) :=
  [('"', '"'), ('\\', '\\'), ('b', '\x08'), ('t', '\t'), ('n', '\n'), ('f', '\x0c'), ('r', '\r')]

/-- What may stand for a character behind a backslash. -/
inductive EscapeText : Char → List Char → Prop
  | short {c letter : Char} (h : (letter, c) ∈ shortEscapes) : EscapeText c [letter]
  | code {c : Char} {digits : List Char} (h : CodeText 4 c digits) : EscapeText c ('u' :: digits)
  | long {c : Char} {digits : List Char} (h : CodeText 8 c digits) : EscapeText c ('U' :: digits)

/-- How a text may be written between double quotes. -/
inductive BasicText : List Char → List Char → Prop
  | nil : BasicText [] []
  | plain {c : Char} {value s : List Char} (hplain : isPlain c = true) (hquote : c ≠ '"')
      (hslash : c ≠ '\\') (hmore : BasicText value s) : BasicText (c :: value) (c :: s)
  | escape {c : Char} {value code s : List Char} (h : EscapeText c code)
      (hmore : BasicText value s) : BasicText (c :: value) ('\\' :: (code ++ s))

/-- What may be written between single quotes, as it is. -/
def IsLiteral (value : List Char) : Prop :=
  ∀ c ∈ value, isPlain c = true ∧ c ≠ '\x27'

instance : DecidablePred IsLiteral :=
  fun value => List.decidableBAll _ value

/-- Blanks and line ends. -/
inductive IsGap : List Char → Prop
  | blanks {s : List Char} (h : AllBlank s) : IsGap s
  | line {s newline more : List Char} (h : AllBlank s) (hnewline : IsNewline newline)
      (hmore : IsGap more) : IsGap (s ++ (newline ++ more))

/-- How a text may be written on several lines, behind the three quotes that begin it and up to and
with the three that end it. -/
inductive ManyText (quote : Char) (escapes : Bool) : List Char → List Char → Prop
  /-- The end, with `n` quotes that belong to the text. -/
  | stop {n : Nat} (h : n ≤ 2) :
      ManyText quote escapes (List.replicate n quote) (List.replicate (n + 3) quote)
  /-- A quote with no two others behind it. -/
  | quote {value s : List Char} (hmore : ManyText quote escapes value s)
      (h : ¬ [quote, quote] <+: s) : ManyText quote escapes (quote :: value) (quote :: s)
  | plain {c : Char} {value s : List Char} (hplain : isPlain c = true) (hquote : c ≠ quote)
      (hslash : escapes = true → c ≠ '\\') (hmore : ManyText quote escapes value s) :
      ManyText quote escapes (c :: value) (c :: s)
  | newline {value newline s : List Char} (h : IsNewline newline)
      (hmore : ManyText quote escapes value s) :
      ManyText quote escapes ('\n' :: value) (newline ++ s)
  | escape {c : Char} {value code s : List Char} (hescapes : escapes = true)
      (h : EscapeText c code) (hmore : ManyText quote escapes value s) :
      ManyText quote escapes (c :: value) ('\\' :: (code ++ s))
  /-- A line end that a backslash takes away, with all that is blank behind it. -/
  | fold {value blanks newline gap s : List Char} (hescapes : escapes = true)
      (hblanks : AllBlank blanks) (hnewline : IsNewline newline) (hgap : IsGap gap)
      (hink : ∀ c ∈ s.head?, isBlank c = false ∧ c ≠ '\n' ∧ c ≠ '\r')
      (hmore : ManyText quote escapes value s) :
      ManyText quote escapes value ('\\' :: (blanks ++ (newline ++ (gap ++ s))))

/-- How a text may be written as a string. -/
inductive StringText : List Char → List Char → Prop
  | basic {value s : List Char} (h : BasicText value s) : StringText value ('"' :: (s ++ ['"']))
  | literal {value : List Char} (h : IsLiteral value) :
      StringText value ('\x27' :: (value ++ ['\x27']))
  /-- On several lines. A line end right behind the opening quotes does not count, so there has to
  be one if the text begins with another. -/
  | many {quote : Char} {escapes : Bool} {value opening s : List Char}
      (hquote : (quote, escapes) ∈ [('"', true), ('\x27', false)])
      (hopening : IsNewline opening ∨ (opening = [] ∧ ∀ c ∈ s.head?, c ≠ '\n' ∧ c ≠ '\r'))
      (h : ManyText quote escapes value s) :
      StringText value (quote :: quote :: quote :: (opening ++ s))

/-! ### Keys and values -/

/-- How a part of a key may be written. -/
inductive KeyText : String → List Char → Prop
  | bare {key : String} (hnil : key.toList ≠ []) (h : AllBare key.toList) :
      KeyText key key.toList
  | basic {key : String} {s : List Char} (h : BasicText key.toList s) :
      KeyText key ('"' :: (s ++ ['"']))
  | literal {key : String} (h : IsLiteral key.toList) :
      KeyText key ('\x27' :: (key.toList ++ ['\x27']))

/-- How a key may be written, with the dotted part in front of it. -/
inductive DottedText : List String → String → List Char → Prop
  | last {key : String} {s : List Char} (h : KeyText key s) : DottedText [] key s
  | dot {name key : String} {path : List String} {s front back more : List Char}
      (h : KeyText name s) (hfront : AllBlank front) (hback : AllBlank back)
      (hmore : DottedText path key more) :
      DottedText (name :: path) key (s ++ (front ++ '.' :: (back ++ more)))

/-- How a simple value may be written. -/
inductive SimpleText : Value → List Char → Prop
  | string {x : String} {s : List Char} (h : StringText x.toList s) : SimpleText (.string x) s
  | yes : SimpleText (.boolean true) ['t', 'r', 'u', 'e']
  | no : SimpleText (.boolean false) ['f', 'a', 'l', 's', 'e']

/-- How a pair may be written, if its value may be written as `V` says. -/
inductive PairText (V : Value → List Char → Prop) : Pair → List Char → Prop
  | intro {p : Pair} {key front back s : List Char} (hkey : DottedText p.path p.key key)
      (hdepth : p.path.length < depthLimit) (hfront : AllBlank front) (hback : AllBlank back)
      (hvalue : V p.value s) : PairText V p (key ++ (front ++ '=' :: (back ++ s)))

/-- How one or more pairs may be written between braces. -/
inductive PairsText : List Pair → List Char → Prop
  | last {p : Pair} {front s back : List Char} (hfront : AllBlank front)
      (h : PairText SimpleText p s) (hback : AllBlank back) : PairsText [p] (front ++ (s ++ back))
  | more {p : Pair} {pairs : List Pair} {front s back more : List Char} (hfront : AllBlank front)
      (h : PairText SimpleText p s) (hback : AllBlank back) (hmore : PairsText pairs more) :
      PairsText (p :: pairs) (front ++ (s ++ (back ++ ',' :: more)))

/-- How a simple value, or a table of simple values, may be written. -/
inductive ValueText : Value → List Char → Prop
  | simple {v : Value} {s : List Char} (h : SimpleText v s) : ValueText v s
  | empty {gap : List Char} (h : AllBlank gap) :
      ValueText (.table .inline []) ('\x7b' :: (gap ++ ['\x7d']))
  | inline {members : Members} {s : List Char} (hkeys : (members.map Prod.fst).Nodup)
      (h : PairsText (plainPairs members) s) :
      ValueText (.table .inline members) ('\x7b' :: (s ++ ['\x7d']))

/-! ### Lines -/

/-- How a header in single brackets may be written. -/
inductive HeaderText : Header → List Char → Prop
  | intro {path : List String} {key : String} {s front back : List Char}
      (h : DottedText path key s) (hdepth : path.length < depthLimit) (hfront : AllBlank front)
      (hback : AllBlank back) :
      HeaderText ⟨false, path, key⟩ ('[' :: (front ++ (s ++ (back ++ [']']))))

/-- How a line may be written, without what stands around it. -/
inductive LineText : Line → List Char → Prop
  | pair {p : Pair} {s : List Char} (h : PairText ValueText p s) : LineText (.pair p) s
  | header {h : Header} {s : List Char} (hs : HeaderText h s) : LineText (.header h) s

/-- Which lines a text consists of. -/
inductive LinesText : List Line → List Char → Prop
  | nil {margin : List Char} (h : IsMargin margin) : LinesText [] margin
  | last {line : Line} {front s margin : List Char} (hfront : AllBlank front) (h : LineText line s)
      (hmargin : IsMargin margin) : LinesText [line] (front ++ (s ++ margin))
  | empty {lines : List Line} {margin newline more : List Char} (h : IsMargin margin)
      (hnewline : IsNewline newline) (hmore : LinesText lines more) :
      LinesText lines (margin ++ (newline ++ more))
  | cons {line : Line} {lines : List Line} {front s margin newline more : List Char}
      (hfront : AllBlank front) (h : LineText line s) (hmargin : IsMargin margin)
      (hnewline : IsNewline newline) (hmore : LinesText lines more) :
      LinesText (line :: lines) (front ++ (s ++ (margin ++ (newline ++ more))))

/-- **Which lines a document consists of.** A byte order mark may stand in front. -/
inductive DocumentText : List Line → List Char → Prop
  | plain {lines : List Line} {s : List Char} (h : LinesText lines s) : DocumentText lines s
  | marked {lines : List Line} {s : List Char} (h : LinesText lines s) :
      DocumentText lines ('\ufeff' :: s)

/-! ### Without anything that could be left out -/

theorem isMargin_nil : IsMargin [] :=
  .blanks nofun

theorem lineText_header {name : String} (hnil : name.toList ≠ []) (h : AllBare name.toList) :
    LineText (.header ⟨false, [], name⟩) ('[' :: (name.toList ++ [']'])) :=
  .header (@HeaderText.intro [] name _ [] [] (.last (.bare hnil h)) (by decide) nofun nofun)

theorem lineText_pair {key : String} {v : Value} {s : List Char} (hnil : key.toList ≠ [])
    (h : AllBare key.toList) (hv : SimpleText v s) :
    LineText (.pair ⟨[], key, v⟩) (key.toList ++ '=' :: s) :=
  .pair (@PairText.intro _ ⟨[], key, v⟩ _ [] [] s (.last (.bare hnil h)) (Nat.zero_lt_succ 78) nofun
    nofun (.simple hv))

theorem linesText_last {line : Line} {s : List Char} (h : LineText line s) :
    LinesText [line] s := by
  have hlast := @LinesText.last line [] s [] nofun h isMargin_nil
  rwa [List.append_nil] at hlast

theorem linesText_cons {line : Line} {lines : List Line} {s more : List Char} (h : LineText line s)
    (hmore : LinesText lines more) : LinesText (line :: lines) (s ++ '\n' :: more) :=
  @LinesText.cons line lines [] s [] ['\n'] more nofun h isMargin_nil .lf hmore

/-! ### Going over blanks and line ends -/

variable {c x quote : Char} {escapes : Bool}
  {s t rest read fuel value code blanks newline gap : List Char}

theorem dropWhile_isBlank (h : AllBlank blanks) (hc : isBlank c = false) (rest : List Char) :
    (blanks ++ c :: rest).dropWhile isBlank = c :: rest := by
  rw [List.dropWhile_append_of_pos h, List.dropWhile_cons_of_neg (by simp [hc])]

theorem newline?_of_isNewline (h : IsNewline newline) (rest : List Char) :
    newline? (newline ++ rest) = some rest := by
  cases h <;> rfl

theorem newline?_of_ne (hlf : c ≠ '\n') (hcr : c ≠ '\r') (rest : List Char) :
    newline? (c :: rest) = none := by
  unfold newline?
  split <;> simp_all

theorem IsNewline.exists_cons (h : IsNewline newline) :
    ∃ c more, newline = c :: more ∧ isBlank c = false ∧ isPlain c = false := by
  cases h with
  | lf => exact ⟨_, _, rfl, by decide, by decide⟩
  | crlf => exact ⟨_, _, rfl, by decide, by decide⟩

theorem IsNewline.length_pos (h : IsNewline newline) : 0 < newline.length := by
  cases h <;> decide

theorem dropWhile_isBlank_newline (h : AllBlank blanks) (hnewline : IsNewline newline)
    (rest : List Char) : (blanks ++ (newline ++ rest)).dropWhile isBlank = newline ++ rest := by
  obtain ⟨c, more, rfl, hc, -⟩ := hnewline.exists_cons
  exact dropWhile_isBlank h hc _

/-- A character that a string may hold is no line end. -/
theorem newline?_of_isPlain (h : isPlain c = true) (rest : List Char) :
    newline? (c :: rest) = none := by
  refine newline?_of_ne ?_ ?_ rest
  · rintro rfl
    exact Bool.noConfusion h
  · rintro rfl
    exact Bool.noConfusion h

theorem skipLines_of_isGap (h : IsGap gap) (hc : isBlank c = false) (hlf : c ≠ '\n')
    (hcr : c ≠ '\r') (rest : List Char) (hfuel : gap.length < fuel.length) :
    skipLines fuel (gap ++ c :: rest) = c :: rest := by
  induction h generalizing fuel with
  | blanks h =>
    cases fuel with
    | nil => cases hfuel
    | cons d fuel =>
      simp only [skipLines, dropWhile_isBlank h hc, newline?_of_ne hlf hcr]
  | line h hnewline hmore ih =>
    cases fuel with
    | nil => cases hfuel
    | cons d fuel =>
      have hpos := hnewline.length_pos
      simp only [skipLines, List.append_assoc, dropWhile_isBlank_newline h hnewline,
        newline?_of_isNewline hnewline]
      refine ih ?_
      simp only [List.length_append, List.length_cons] at hfuel
      omega

/-- A line end behind a backslash goes, and so does what is blank behind it. -/
theorem foldedLine?_of_isGap (hblanks : AllBlank blanks) (hnewline : IsNewline newline)
    (hgap : IsGap gap) (hc : isBlank c = false) (hlf : c ≠ '\n') (hcr : c ≠ '\r')
    (rest : List Char) :
    foldedLine? (blanks ++ (newline ++ (gap ++ c :: rest))) = some (c :: rest) := by
  rw [foldedLine?, dropWhile_isBlank_newline hblanks hnewline, newline?_of_isNewline hnewline,
    Option.map_some, skipLines_of_isGap hgap hc hlf hcr rest (by simp)]

/-! ### Escapes -/

theorem hexNumber?_of_forall₂ {values : List Nat}
    (h : List.Forall₂ (fun d n => hexValue? d = some n) s values) :
    hexNumber? s = some (values.foldl (fun n d => n * 16 + d) 0) := by
  suffices hfrom : ∀ start : Nat,
      s.foldlM (fun n c => (hexValue? c).map fun d => n * 16 + d) start =
        some (values.foldl (fun n d => n * 16 + d) start) from hfrom 0
  induction h with
  | nil => exact fun start => rfl
  | cons hdigit hmore ih =>
    intro start
    rw [List.foldlM_cons, hdigit, List.foldl_cons]
    exact ih _

theorem codePoint_of_codeText {width : Nat} (h : CodeText width c code) (rest : List Char) :
    codePoint width (code ++ rest) = some (c, rest) := by
  obtain ⟨hwidth, values, hdigits, hnumber⟩ := h
  have hvalid : c.toNat < 0xd800 ∨ 0xdfff < c.toNat ∧ c.toNat < 0x110000 := c.valid
  rw [codePoint, ← hwidth, List.take_left, List.drop_left, hexNumber?_of_forall₂ hdigits, hnumber]
  simp only [Nat.lt_irrefl, if_false, Option.bind_some, hvalid, if_true, Char.ofNat_toNat]

theorem escape_of_mem (h : (x, c) ∈ shortEscapes) (rest : List Char) :
    escape (x :: rest) = some (c, rest) := by
  simp only [shortEscapes, List.mem_cons, Prod.mk.injEq, List.not_mem_nil, or_false] at h
  rcases h with ⟨rfl, rfl⟩ | ⟨rfl, rfl⟩ | ⟨rfl, rfl⟩ | ⟨rfl, rfl⟩ | ⟨rfl, rfl⟩ | ⟨rfl, rfl⟩ |
    ⟨rfl, rfl⟩ <;> rfl

theorem escape_of_escapeText (h : EscapeText c code) (rest : List Char) :
    escape (code ++ rest) = some (c, rest) := by
  cases h with
  | short h => exact escape_of_mem h rest
  | code h => exact codePoint_of_codeText h rest
  | long h => exact codePoint_of_codeText h rest

/-- No escape looks like a line end that goes. -/
theorem EscapeText.exists_cons (h : EscapeText c code) :
    ∃ letter more, code = letter :: more ∧ isBlank letter = false ∧ letter ≠ '\n' ∧
      letter ≠ '\r' := by
  cases h with
  | @short letter h =>
    have hletter : ∀ e ∈ shortEscapes, isBlank e.1 = false ∧ e.1 ≠ '\n' ∧ e.1 ≠ '\r' := by decide
    exact ⟨letter, [], rfl, hletter _ h⟩
  | code => exact ⟨'u', _, rfl, by decide⟩
  | long => exact ⟨'U', _, rfl, by decide⟩

theorem foldedLine?_of_escapeText (h : EscapeText c code) (rest : List Char) :
    foldedLine? (code ++ rest) = none := by
  obtain ⟨letter, more, rfl, hblank, hlf, hcr⟩ := h.exists_cons
  rw [foldedLine?, List.cons_append, List.dropWhile_cons_of_neg (by simp [hblank]),
    newline?_of_ne hlf hcr, Option.map_none]

/-! ### Strings on one line -/

theorem basicOnto_of_basicText (h : BasicText value s) (read rest : List Char)
    (hfuel : s.length < fuel.length) :
    basicOnto fuel read (s ++ '"' :: rest) =
      some (String.ofList (read.reverse ++ value), rest) := by
  induction h generalizing fuel read with
  | nil =>
    cases fuel with
    | nil => cases hfuel
    | cons d fuel => rw [List.nil_append, basicOnto, if_pos rfl, List.append_nil]
  | plain hplain hquote hslash hmore ih =>
    cases fuel with
    | nil => cases hfuel
    | cons d fuel =>
      rw [List.cons_append, basicOnto, if_neg hquote, if_neg hslash, if_pos hplain,
        ih _ (Nat.lt_of_succ_lt_succ hfuel), List.reverse_cons, List.append_assoc,
        List.singleton_append]
  | @escape c value code s h hmore ih =>
    cases fuel with
    | nil => cases hfuel
    | cons d fuel =>
      have hmore : s.length < fuel.length := by
        simp only [List.length_cons, List.length_append] at hfuel
        omega
      rw [List.cons_append, List.append_assoc, basicOnto, if_neg (by decide), if_pos rfl,
        escape_of_escapeText h, Option.bind_some]
      dsimp only
      rw [ih _ hmore, List.reverse_cons, List.append_assoc, List.singleton_append]

theorem basicString_of_basicText (h : BasicText value s) (rest : List Char) :
    basicString (s ++ '"' :: rest) = some (String.ofList value, rest) := by
  rw [basicString, basicOnto_of_basicText h [] rest (by simp)]
  rfl

theorem literalString_of_isLiteral (h : IsLiteral value) (rest : List Char) :
    literalString (value ++ '\x27' :: rest) = some (String.ofList value, rest) := by
  have hgood : ∀ c ∈ value, (isPlain c && c ≠ '\x27') = true := fun c hc => by simp [h c hc]
  have htake : (value ++ '\x27' :: rest).takeWhile (fun c => isPlain c && c ≠ '\x27') = value := by
    rw [List.takeWhile_append_of_pos hgood, List.takeWhile_cons_of_neg (by simp), List.append_nil]
  have hdrop : (value ++ '\x27' :: rest).dropWhile (fun c => isPlain c && c ≠ '\x27') =
      '\x27' :: rest := by
    rw [List.dropWhile_append_of_pos hgood, List.dropWhile_cons_of_neg (by simp)]
  simp only [literalString, htake, hdrop]

/-- A text in which nothing has to be escaped may be written as it is. -/
theorem basicText_of_plain (h : value.all (fun c => isPlain c ∧ c ≠ '"' ∧ c ≠ '\\') = true) :
    BasicText value value := by
  induction value with
  | nil => exact .nil
  | cons c value ih =>
    simp only [List.all_cons, Bool.and_eq_true, decide_eq_true_eq] at h
    obtain ⟨⟨hplain, hquote, hslash⟩, hmore⟩ := h
    exact .plain hplain hquote hslash (ih hmore)

/-! ### Strings on several lines -/

theorem ManyText.length_le (h : ManyText quote escapes value s) : 3 ≤ s.length := by
  induction h with
  | stop h => simp
  | _ => grind

/-- A quote with no two others behind it is part of the text. -/
theorem linesOnto_quote (h : ¬ [quote, quote] <+: s) (d : Char) :
    linesOnto quote escapes (d :: fuel) read (quote :: s) =
      linesOnto quote escapes fuel (quote :: read) s := by
  have hrun : (s.takeWhile (· = quote)).length < 2 := by
    match s with
    | [] => simp
    | [a] => by_cases ha : a = quote <;> simp [ha]
    | a :: b :: s =>
      by_cases ha : a = quote
      · have hb : b ≠ quote := fun hb => h (by simp [ha, hb])
        simp [ha, hb]
      · simp [ha]
  rw [linesOnto, if_pos rfl]
  exact if_pos (Nat.succ_lt_succ hrun)

/-- Three quotes end the text, and up to two in front of them are part of it. -/
theorem linesOnto_stop {n : Nat} (h : n ≤ 2) (d : Char) (hrest : rest.head? ≠ some quote) :
    linesOnto quote escapes (d :: fuel) read (List.replicate (n + 3) quote ++ rest) =
      some (String.ofList (read.reverse ++ List.replicate n quote), rest) := by
  have hrun : (List.replicate (n + 2) quote ++ rest).takeWhile (· = quote) =
      List.replicate (n + 2) quote := by
    rw [List.takeWhile_append_of_pos (by simp)]
    cases rest with
    | nil => simp
    | cons c rest =>
      rw [List.takeWhile_cons_of_neg (by simpa using hrest), List.append_nil]
  have hmin : min (n + 3) 5 = n + 3 := by omega
  rw [List.replicate_succ, List.cons_append, linesOnto, if_pos rfl]
  simp only [hrun, List.length_replicate, hmin, show ¬ n + 2 + 1 < 3 by omega, if_false]
  simp

theorem linesOnto_plain (hplain : isPlain c = true) (hquote : c ≠ quote)
    (hslash : escapes = true → c ≠ '\\') (d : Char) :
    linesOnto quote escapes (d :: fuel) read (c :: s) =
      linesOnto quote escapes fuel (c :: read) s := by
  have hnot : (c = '\\' && escapes) = false := by
    cases escapes
    · simp
    · simpa using hslash rfl
  simp [linesOnto, hquote, hnot, newline?_of_isPlain hplain, hplain]

theorem linesOnto_newline (hquote : quote = '"' ∨ quote = '\x27') (h : IsNewline newline)
    (d : Char) :
    linesOnto quote escapes (d :: fuel) read (newline ++ s) =
      linesOnto quote escapes fuel ('\n' :: read) s := by
  cases h <;> rcases hquote with rfl | rfl <;> simp [linesOnto, newline?]

theorem linesOnto_escape (hquote : quote = '"' ∨ quote = '\x27') (h : EscapeText c code)
    (d : Char) :
    linesOnto quote true (d :: fuel) read ('\\' :: (code ++ s)) =
      linesOnto quote true fuel (c :: read) s := by
  have hne : '\\' ≠ quote := by rcases hquote with rfl | rfl <;> decide
  rw [linesOnto, if_neg hne, if_pos (by decide), foldedLine?_of_escapeText h,
    escape_of_escapeText h]
  rfl

theorem linesOnto_fold (hquote : quote = '"' ∨ quote = '\x27')
    (h : foldedLine? t = some s) (d : Char) :
    linesOnto quote true (d :: fuel) read ('\\' :: t) = linesOnto quote true fuel read s := by
  have hne : '\\' ≠ quote := by rcases hquote with rfl | rfl <;> decide
  rw [linesOnto, if_neg hne, if_pos (by decide), h]

theorem linesOnto_of_manyText (hquote : quote = '"' ∨ quote = '\x27')
    (h : ManyText quote escapes value s) (read : List Char)
    (hrest : rest.head? ≠ some quote) (hfuel : s.length ≤ fuel.length) :
    linesOnto quote escapes fuel read (s ++ rest) =
      some (String.ofList (read.reverse ++ value), rest) := by
  -- Every piece of the text takes one character of the fuel, and is at least as long.
  have hcons {fuel : List Char} {n : Nat} (h : n < fuel.length) : ∃ d more, fuel = d :: more :=
    List.exists_cons_of_length_pos (Nat.zero_lt_of_lt h)
  induction h generalizing fuel read with
  | stop h =>
    rw [List.length_replicate] at hfuel
    obtain ⟨d, fuel, rfl⟩ := hcons hfuel
    exact linesOnto_stop h d hrest
  | @quote value s hmore h ih =>
    obtain ⟨d, fuel, rfl⟩ := hcons hfuel
    have hfew : ¬ [quote, quote] <+: s ++ rest := fun hprefix =>
      h (List.prefix_of_prefix_length_le hprefix (List.prefix_append s rest)
        (Nat.le_of_succ_le hmore.length_le))
    rw [List.cons_append, linesOnto_quote hfew, ih _ (Nat.le_of_succ_le_succ hfuel)]
    simp
  | plain hplain hne hslash hmore ih =>
    obtain ⟨d, fuel, rfl⟩ := hcons hfuel
    rw [List.cons_append, linesOnto_plain hplain hne hslash, ih _ (Nat.le_of_succ_le_succ hfuel)]
    simp
  | @newline value newline s hnewline hmore ih =>
    have hpos := hnewline.length_pos
    rw [List.length_append] at hfuel
    obtain ⟨d, fuel, rfl⟩ :=
      hcons (Nat.lt_of_lt_of_le hmore.length_le (Nat.le_of_add_left_le hfuel))
    rw [List.length_cons] at hfuel
    rw [List.append_assoc, linesOnto_newline hquote hnewline, ih _ (by omega)]
    simp
  | @escape c value code s hescapes h hmore ih =>
    obtain ⟨d, fuel, rfl⟩ := hcons hfuel
    simp only [List.length_cons, List.length_append] at hfuel
    subst hescapes
    rw [List.cons_append, List.append_assoc, linesOnto_escape hquote h, ih _ (by omega)]
    simp
  | @fold value blanks newline gap s hescapes hblanks hnewline hgap hink hmore ih =>
    obtain ⟨d, fuel, rfl⟩ := hcons hfuel
    simp only [List.length_cons, List.length_append] at hfuel
    obtain ⟨c, s, rfl⟩ := hcons hmore.length_le
    obtain ⟨hc, hlf, hcr⟩ := hink c rfl
    have hfold := foldedLine?_of_isGap hblanks hnewline hgap hc hlf hcr (s ++ rest)
    subst hescapes
    simp only [List.cons_append, List.append_assoc]
    rw [linesOnto_fold hquote hfold]
    exact ih read (by omega)

/-! ### All strings -/

/-- The text ends here, or goes on with something that is no quote. -/
def EndsValue (rest : List Char) : Prop :=
  ∀ c ∈ rest.head?, c ≠ '"' ∧ c ≠ '\x27'

theorem BasicText.ne_quote (h : BasicText value s) : ∀ c ∈ s.head?, c ≠ '"' := by
  cases h with
  | nil => nofun
  | plain hplain hquote => simpa using hquote
  | escape => simp

/-- Between the quotes of a string on one line, no quote stands right behind the first. -/
theorem not_prefix_quotes (hs : ∀ c ∈ s.head?, c ≠ quote) (hrest : ∀ c ∈ rest.head?, c ≠ quote) :
    ¬ [quote, quote] <+: s ++ quote :: rest := by
  cases s with
  | nil =>
    cases rest with
    | nil => simp
    | cons c rest => simpa using (hrest c rfl).symm
  | cons c s => simpa using fun h => absurd h.symm (hs c rfl)

theorem stringValue_basic (h : ¬ ['"', '"'] <+: t) : stringValue ('"' :: t) = basicString t := by
  unfold stringValue
  split <;> simp_all

theorem stringValue_literal (h : ¬ ['\x27', '\x27'] <+: t) :
    stringValue ('\x27' :: t) = literalString t := by
  unfold stringValue
  split <;> simp_all

/-- A line end right behind the opening quotes does not count. -/
theorem linesString_of_manyText {opening : List Char} (hquote : quote = '"' ∨ quote = '\x27')
    (hopening : IsNewline opening ∨ (opening = [] ∧ ∀ c ∈ s.head?, c ≠ '\n' ∧ c ≠ '\r'))
    (h : ManyText quote escapes value s) (hrest : rest.head? ≠ some quote) :
    linesString quote escapes (opening ++ (s ++ rest)) = some (String.ofList value, rest) := by
  have hstart : (newline? (opening ++ (s ++ rest))).getD (opening ++ (s ++ rest)) = s ++ rest := by
    rcases hopening with hnewline | ⟨rfl, hhead⟩
    · rw [newline?_of_isNewline hnewline, Option.getD_some]
    · obtain ⟨c, s, rfl⟩ := List.exists_cons_of_length_pos (Nat.zero_lt_of_lt h.length_le)
      obtain ⟨hlf, hcr⟩ := hhead c rfl
      rw [List.nil_append, List.cons_append, newline?_of_ne hlf hcr, Option.getD_none]
  simp only [linesString, hstart]
  exact linesOnto_of_manyText hquote h [] hrest (by simp)

/-- **A string is read as the characters it stands for**, in whatever form it is written. -/
theorem stringValue_of_stringText (h : StringText value s) (hrest : EndsValue rest) :
    stringValue (s ++ rest) = some (String.ofList value, rest) := by
  cases h with
  | basic h =>
    have hnot := not_prefix_quotes h.ne_quote fun c hc => (hrest c hc).1
    rw [List.cons_append, List.append_assoc, List.singleton_append, stringValue_basic hnot,
      basicString_of_basicText h]
  | literal h =>
    have hhead : ∀ c ∈ value.head?, c ≠ '\x27' := fun c hc => (h c (List.mem_of_mem_head? hc)).2
    have hnot := not_prefix_quotes hhead fun c hc => (hrest c hc).2
    rw [List.cons_append, List.append_assoc, List.singleton_append, stringValue_literal hnot,
      literalString_of_isLiteral h]
  | many hquote hopening h =>
    simp only [List.mem_cons, Prod.mk.injEq, List.not_mem_nil, or_false] at hquote
    simp only [List.cons_append, List.append_assoc]
    rcases hquote with ⟨rfl, rfl⟩ | ⟨rfl, rfl⟩
    · exact linesString_of_manyText (Or.inl rfl) hopening h fun hc => (hrest _ hc).1 rfl
    · exact linesString_of_manyText (Or.inr rfl) hopening h fun hc => (hrest _ hc).2 rfl

end ByteSplice.Toml
