import ByteSplice.Proofs.Toml.Grammar
import Mathlib.Data.List.DropRight

/-!
# Reading what is written

Whatever the grammar says stands for something is read as that. Readers take the longest piece they
can, so each result says what may stand behind the piece: behind a bare key something that could not
be part of it, behind a value no quote (`EndsValue`).

Blanks are skipped at the beginning of a reader, not at the end of the one before. That is why the
results about keys and pairs have blanks in front.

A document is read line by line. One line adds a pair to the section under way, or closes it
(`sectionsOnto_pair`, `sectionsOnto_header`), and a line with nothing on it does neither
(`sectionsOnto_empty`). The induction is on how the text is built up from lines.

## Main definitions

* `Reads`: a reader reads all that may be written for a value.
* `Writes`: a text writes items.

## Main results

* `dottedKeyOnto_of_dottedText`, `pair_of_pairText`, `reads_value`.
* `sectionsOnto_of_linesText`: a document is read as its lines.
* `Writes.parse`: what the items of a document say is what is read.
-/

namespace ByteSplice.Toml

variable {c : Char} {s rest front back margin newline : List Char} {key : String}
  {path read : List String} {v : Value} {p : Pair}

/-! ### Beginnings -/

theorem allBlank_nil : AllBlank [] :=
  nofun

/-- Something that is no blank stands in front. -/
def IsInked (s : List Char) : Prop :=
  ∃ c more, s = c :: more ∧ isBlank c = false

theorem skipBlanks_append (hfront : AllBlank front) (h : IsInked s) (rest : List Char) :
    skipBlanks (front ++ (s ++ rest)) = s ++ rest := by
  obtain ⟨c, more, rfl, hc⟩ := h
  exact dropWhile_isBlank hfront hc _

/-- A character with which a key can begin. -/
def StartsKey (c : Char) : Prop :=
  isBare c = true ∨ c = '"' ∨ c = '\x27'

theorem StartsKey.ne {d : Char} (h : StartsKey c)
    (hd : isBare d = false ∧ d ≠ '"' ∧ d ≠ '\x27') : c ≠ d := by
  rintro rfl
  rcases h with h | rfl | rfl
  · exact Bool.noConfusion (hd.1.symm.trans h)
  · exact hd.2.1 rfl
  · exact hd.2.2 rfl

theorem StartsKey.isBlank_eq_false (h : StartsKey c) : isBlank c = false := by
  have hspace := h.ne (show isBare ' ' = false ∧ _ by decide)
  have htab := h.ne (show isBare '\t' = false ∧ _ by decide)
  simp [isBlank, hspace, htab]

theorem KeyText.exists_cons (h : KeyText key s) : ∃ c more, s = c :: more ∧ StartsKey c := by
  cases h with
  | bare hnil h =>
    obtain ⟨c, more, hkey⟩ := List.exists_cons_of_ne_nil hnil
    exact ⟨c, more, hkey, Or.inl (h c (hkey ▸ List.mem_cons_self ..))⟩
  | basic => exact ⟨'"', _, rfl, Or.inr (Or.inl rfl)⟩
  | literal => exact ⟨'\x27', _, rfl, Or.inr (Or.inr rfl)⟩

theorem KeyText.isInked (h : KeyText key s) : IsInked s := by
  obtain ⟨c, more, rfl, hc⟩ := h.exists_cons
  exact ⟨c, more, rfl, hc.isBlank_eq_false⟩

theorem DottedText.exists_cons (h : DottedText path key s) :
    ∃ c more, s = c :: more ∧ StartsKey c := by
  cases h with
  | last h => exact h.exists_cons
  | dot h =>
    obtain ⟨c, more, rfl, hc⟩ := h.exists_cons
    exact ⟨c, _, rfl, hc⟩

theorem PairText.exists_cons {V : Value → List Char → Prop} (h : PairText V p s) :
    ∃ c more, s = c :: more ∧ StartsKey c := by
  cases h with
  | intro hkey =>
    obtain ⟨c, more, rfl, hc⟩ := hkey.exists_cons
    exact ⟨c, _, rfl, hc⟩

/-! ### Keys -/

theorem simpleKey_of_bare {key : List Char} (hnil : key ≠ []) (h : AllBare key)
    (hrest : ∀ c ∈ rest.head?, isBare c = false) :
    simpleKey (key ++ rest) = some (String.ofList key, rest) := by
  have htake : (key ++ rest).takeWhile isBare = key := by
    rw [List.takeWhile_append_of_pos h]
    cases rest with
    | nil => simp
    | cons c rest =>
      rw [List.takeWhile_cons_of_neg (by simp [hrest c rfl]), List.append_nil]
  have hdrop : (key ++ rest).dropWhile isBare = rest := by
    rw [List.dropWhile_append_of_pos h]
    cases rest with
    | nil => rfl
    | cons c rest => exact List.dropWhile_cons_of_neg (by simp [hrest c rfl])
  obtain ⟨c, key, rfl⟩ := List.exists_cons_of_ne_nil hnil
  have hc : isBare c = true := h c (List.mem_cons_self ..)
  have hquote : c ≠ '"' := by
    rintro rfl
    exact Bool.noConfusion hc
  have hliteral : c ≠ '\x27' := by
    rintro rfl
    exact Bool.noConfusion hc
  rw [List.cons_append] at htake hdrop ⊢
  unfold simpleKey
  split <;> simp_all

theorem simpleKey_of_keyText (h : KeyText key s) (hrest : ∀ c ∈ rest.head?, isBare c = false) :
    simpleKey (s ++ rest) = some (key, rest) := by
  cases h with
  | bare hnil h => rw [simpleKey_of_bare hnil h hrest, String.ofList_toList]
  | basic h =>
    rw [List.cons_append, List.append_assoc, List.singleton_append, simpleKey,
      basicString_of_basicText h, String.ofList_toList]
  | literal h =>
    rw [List.cons_append, List.append_assoc, List.singleton_append, simpleKey,
      literalString_of_isLiteral h, String.ofList_toList]

/-- Blanks, and something that is no part of a bare key, end a bare key. -/
theorem head?_append_not_isBare (hback : AllBlank back) (hc : isBare c = false)
    (rest : List Char) : ∀ d ∈ (back ++ c :: rest).head?, isBare d = false := by
  cases back with
  | nil => simpa using hc
  | cons d back =>
    have hd : isBlank d = true := hback d (List.mem_cons_self ..)
    simp only [isBlank, Bool.or_eq_true, decide_eq_true_eq] at hd
    rcases hd with rfl | rfl <;> simp [isBare]

/-- **A dotted key is read as its parts**, up to the sign that ends it. -/
theorem dottedKeyOnto_of_dottedText {limit : Nat} (h : DottedText path key s)
    (hlimit : path.length < limit) (read : List String) (hfront : AllBlank front)
    (hback : AllBlank back) (hc : c = '=' ∨ c = ']') (rest : List Char) :
    dottedKeyOnto limit read (front ++ (s ++ (back ++ c :: rest))) =
      some ((read.reverse ++ path, key), c :: rest) := by
  induction h generalizing limit read front with
  | last h =>
    obtain ⟨limit, rfl⟩ := Nat.exists_eq_add_of_lt hlimit
    have hbare : isBare c = false := by rcases hc with rfl | rfl <;> decide
    have hblank : isBlank c = false := by rcases hc with rfl | rfl <;> decide
    have hskip : skipBlanks (back ++ c :: rest) = c :: rest := dropWhile_isBlank hback hblank rest
    rw [dottedKeyOnto, skipBlanks_append hfront h.isInked,
      simpleKey_of_keyText h (head?_append_not_isBare hback hbare rest), Option.bind_some]
    dsimp only
    rw [hskip]
    rcases hc with rfl | rfl <;> simp
  | @dot name key path s before behind more h hbefore hbehind hmore ih =>
    obtain ⟨limit, rfl⟩ := Nat.exists_eq_add_of_lt hlimit
    have hskip (t : List Char) : skipBlanks (before ++ '.' :: t) = '.' :: t :=
      dropWhile_isBlank hbefore (by decide) t
    simp only [List.append_assoc, List.cons_append]
    rw [dottedKeyOnto, skipBlanks_append hfront h.isInked,
      simpleKey_of_keyText h (head?_append_not_isBare hbefore (by decide) _), Option.bind_some]
    dsimp only
    rw [hskip]
    refine (ih (Nat.lt_add_right limit (Nat.lt_succ_self _)) (name :: read) hbehind).trans ?_
    rw [List.reverse_cons, List.append_assoc, List.singleton_append]

theorem dottedKey_of_dottedText (h : DottedText path key s) (hdepth : path.length < depthLimit)
    (hfront : AllBlank front) (hback : AllBlank back) (hc : c = '=' ∨ c = ']')
    (rest : List Char) :
    dottedKey (front ++ (s ++ (back ++ c :: rest))) = some ((path, key), c :: rest) :=
  dottedKeyOnto_of_dottedText h hdepth [] hfront hback hc rest

/-! ### Values -/

/-- The reader reads whatever may be written for a value, and that never begins with a blank. -/
structure Reads (item : Reader Value) (V : Value → List Char → Prop) : Prop where
  isInked : ∀ {v s}, V v s → IsInked s
  reads : ∀ {v s rest}, V v s → EndsValue rest → item (s ++ rest) = some (v, rest)

theorem endsValue_cons (hquote : c ≠ '"') (hliteral : c ≠ '\x27') (rest : List Char) :
    EndsValue (c :: rest) := by
  simpa [EndsValue] using ⟨hquote, hliteral⟩

theorem EndsValue.append (hback : AllBlank back) (hrest : EndsValue rest) :
    EndsValue (back ++ rest) := by
  cases back with
  | nil => exact hrest
  | cons c back =>
    have hblank : isBlank c = true := hback c (List.mem_cons_self ..)
    simp only [isBlank, Bool.or_eq_true, decide_eq_true_eq] at hblank
    rcases hblank with rfl | rfl <;> exact endsValue_cons (by decide) (by decide) _

/-- **A pair is read as its key and its value.** -/
theorem pair_of_pairText {item : Reader Value} {V : Value → List Char → Prop}
    (hitem : Reads item V) (h : PairText V p s) (hfront : AllBlank front)
    (hrest : EndsValue rest) : pair item (front ++ (s ++ rest)) = some (p, rest) := by
  cases h with
  | @intro key before behind s hkey hdepth hbefore hbehind hvalue =>
    simp only [List.append_assoc, List.cons_append]
    simp only [pair, dottedKey_of_dottedText hkey hdepth hfront hbefore (Or.inl rfl), mark,
      if_true, skipBlanks_append hbehind (hitem.isInked hvalue), hitem.reads hvalue hrest,
      Option.bind_eq_bind, Option.bind_some]

theorem StringText.exists_cons {value : List Char} (h : StringText value s) :
    ∃ c more, s = c :: more ∧ (c = '"' ∨ c = '\x27') := by
  cases h with
  | basic => exact ⟨_, _, rfl, Or.inl rfl⟩
  | literal => exact ⟨_, _, rfl, Or.inr rfl⟩
  | many hquote =>
    simp only [List.mem_cons, Prod.mk.injEq, List.not_mem_nil, or_false] at hquote
    exact ⟨_, _, rfl, hquote.imp And.left And.left⟩

/-- A simple value begins like one. -/
theorem SimpleText.exists_cons (h : SimpleText v s) :
    ∃ c more, s = c :: more ∧ isBlank c = false ∧ c ≠ '[' ∧ c ≠ '\x7b' := by
  cases h with
  | string h =>
    obtain ⟨c, more, rfl, rfl | rfl⟩ := h.exists_cons <;> exact ⟨_, _, rfl, by decide⟩
  | yes => exact ⟨_, _, rfl, by decide⟩
  | no => exact ⟨_, _, rfl, by decide⟩

theorem SimpleText.isInked (h : SimpleText v s) : IsInked s := by
  obtain ⟨c, more, rfl, hc, -⟩ := h.exists_cons
  exact ⟨c, more, rfl, hc⟩

theorem scalar_of_simpleText (h : SimpleText v s) (hrest : EndsValue rest) :
    scalar (s ++ rest) = some (v, rest) := by
  cases h with
  | @string x s h =>
    have hread := stringValue_of_stringText h hrest
    rw [String.ofList_toList] at hread
    obtain ⟨c, more, rfl, hc⟩ := h.exists_cons
    rw [List.cons_append] at hread ⊢
    unfold scalar
    split
    · simp_all
    · simp_all
    · rw [hread]
  | yes => rfl
  | no => rfl

theorem reads_value_of_simpleText (depth : Nat) : Reads (value depth) SimpleText where
  isInked h := h.isInked
  reads := by
    intro v s rest h hrest
    rw [← scalar_of_simpleText h hrest]
    obtain ⟨c, more, rfl, -, hbracket, hbrace⟩ := h.exists_cons
    rw [List.cons_append]
    cases depth <;>
    · unfold value
      split <;> simp_all

/-- Pairs begin with a key, once the blanks in front are gone. -/
theorem PairsText.exists_cons {pairs : List Pair} (h : PairsText pairs s) :
    ∃ c more, PairsText pairs (c :: more) ∧ StartsKey c ∧
      ∀ rest, skipBlanks (s ++ rest) = c :: more ++ rest := by
  cases h with
  | @last p front s back hfront h hback =>
    obtain ⟨c, more, rfl, hc⟩ := h.exists_cons
    refine ⟨c, more ++ back, .last allBlank_nil h hback, hc, fun rest => ?_⟩
    rw [List.append_assoc]
    exact dropWhile_isBlank hfront hc.isBlank_eq_false _
  | @more p pairs front s back later hfront h hback hmore =>
    obtain ⟨c, more, rfl, hc⟩ := h.exists_cons
    refine ⟨c, more ++ (back ++ ',' :: later), .more allBlank_nil h hback hmore, hc, fun rest => ?_⟩
    rw [List.append_assoc]
    exact dropWhile_isBlank hfront hc.isBlank_eq_false _

theorem pairsOnto_of_pairsText {depth : Nat} {pairs : List Pair} {fuel : List Char}
    (h : PairsText pairs s) (read : List Pair) (rest : List Char)
    (hfuel : s.length < fuel.length) :
    pairsOnto (value depth) fuel read (s ++ '\x7d' :: rest) =
      some (read.reverse ++ pairs, rest) := by
  induction h generalizing fuel read with
  | @last p front s back hfront h hback =>
    obtain ⟨d, fuel, rfl⟩ := List.exists_cons_of_length_pos (Nat.zero_lt_of_lt hfuel)
    have hends : EndsValue (back ++ '\x7d' :: rest) :=
      .append hback (endsValue_cons (by decide) (by decide) rest)
    have hskip : skipBlanks (back ++ '\x7d' :: rest) = '\x7d' :: rest :=
      dropWhile_isBlank hback (by decide) rest
    simp only [List.append_assoc]
    rw [pairsOnto, pair_of_pairText (reads_value_of_simpleText depth) h hfront hends,
      Option.bind_some]
    dsimp only
    rw [hskip, ← List.reverse_cons]
    rfl
  | @more p pairs front s back more hfront h hback hmore ih =>
    obtain ⟨d, fuel, rfl⟩ := List.exists_cons_of_length_pos (Nat.zero_lt_of_lt hfuel)
    have hends : EndsValue (back ++ ',' :: (more ++ '\x7d' :: rest)) :=
      .append hback (endsValue_cons (by decide) (by decide) _)
    have hskip : skipBlanks (back ++ ',' :: (more ++ '\x7d' :: rest)) =
      ',' :: (more ++ '\x7d' :: rest) := dropWhile_isBlank hback (by decide) _
    simp only [List.length_append, List.length_cons] at hfuel
    simp only [List.append_assoc, List.cons_append]
    rw [pairsOnto, pair_of_pairText (reads_value_of_simpleText depth) h hfront hends,
      Option.bind_some]
    dsimp only
    rw [hskip]
    refine (ih (p :: read) (by omega)).trans ?_
    rw [List.reverse_cons, List.append_assoc, List.singleton_append]

theorem inlineTable_of_gap (item : Reader Value) {gap : List Char} (h : AllBlank gap)
    (rest : List Char) :
    inlineTable item (gap ++ '\x7d' :: rest) = some (.table .inline [], rest) := by
  have hskip : skipBlanks (gap ++ '\x7d' :: rest) = '\x7d' :: rest :=
    dropWhile_isBlank h (by decide) rest
  rw [inlineTable, hskip]
  rfl

theorem inlineTable_of_pairsText (depth : Nat) {members : Members}
    (hkeys : (members.map Prod.fst).Nodup) (h : PairsText (plainPairs members) s)
    (rest : List Char) :
    inlineTable (value depth) (s ++ '\x7d' :: rest) = some (.table .inline members, rest) := by
  obtain ⟨c, more, h, hc, hskip⟩ := h.exists_cons
  have hbrace : c ≠ '\x7d' := hc.ne (by decide)
  have hpairs := @pairsOnto_of_pairsText _ depth _ (c :: more ++ '\x7d' :: rest) h [] rest (by simp)
  have hadd : Entries.addPairs (plainPairs members) [] = some members :=
    @addPairs_plainPairs members [] hkeys
  rw [inlineTable, hskip]
  rw [List.cons_append] at hpairs ⊢
  split
  · simp_all
  · rw [hpairs]
    simp only [List.reverse_nil, List.nil_append, Option.bind_some, hadd, Option.map_some]

/-- **Values are read as they are written**, at any depth that leaves room for one table. -/
theorem reads_value (depth : Nat) : Reads (value (depth + 1)) ValueText where
  isInked := by
    intro v s h
    cases h with
    | simple h => exact h.isInked
    | empty => exact ⟨_, _, rfl, by decide⟩
    | inline => exact ⟨_, _, rfl, by decide⟩
  reads := by
    intro v s rest h hrest
    cases h with
    | simple h => exact (reads_value_of_simpleText (depth + 1)).reads h hrest
    | empty h =>
      rw [List.cons_append, List.append_assoc, List.singleton_append, value]
      exact inlineTable_of_gap (value depth) h rest
    | inline hkeys h =>
      rw [List.cons_append, List.append_assoc, List.singleton_append, value]
      exact inlineTable_of_pairsText depth hkeys h rest

/-! ### Headers -/

theorem header_of_ne (hc : c ≠ '[') (s : List Char) :
    header (c :: s) = (dottedKey (c :: s)).bind fun x =>
      (mark ']' x.2).bind fun s => some (⟨false, x.1.1, x.1.2⟩, s) := by
  unfold header
  split
  next heq =>
    split at heq
    · next hbracket => exact absurd (List.cons.inj hbracket).1 hc
    · cases heq
      rfl

theorem header_of_headerText {h : Header} (hs : HeaderText h s) :
    ∃ more, s = '[' :: more ∧ ∀ rest, header (more ++ rest) = some (h, rest) := by
  cases hs with
  | @intro path key s front back hkey hdepth hfront hback =>
    refine ⟨_, rfl, fun rest => ?_⟩
    have hread := dottedKey_of_dottedText hkey hdepth hfront hback (Or.inr rfl) rest
    have hstart : ∃ c more, front ++ (s ++ (back ++ ']' :: rest)) = c :: more ∧ c ≠ '[' := by
      obtain ⟨c, more, rfl, hc⟩ := hkey.exists_cons
      cases front with
      | nil => exact ⟨c, _, rfl, hc.ne (by decide)⟩
      | cons d front =>
        refine ⟨d, _, rfl, ?_⟩
        rintro rfl
        exact Bool.noConfusion (hfront '[' (List.mem_cons_self ..))
    obtain ⟨c, more, htext, hc⟩ := hstart
    simp only [List.append_assoc, List.singleton_append]
    rw [htext] at hread ⊢
    rw [header_of_ne hc, hread]
    rfl

/-! ### Line ends -/

/-- What ends a line, and what stands behind it: nothing at the end of the text. -/
inductive EndsLine : List Char → List Char → Prop
  | text {margin : List Char} (h : IsMargin margin) : EndsLine margin []
  | line {margin newline rest : List Char} (h : IsMargin margin) (hnewline : IsNewline newline) :
      EndsLine (margin ++ (newline ++ rest)) rest

theorem skipBlanks_newline (h : AllBlank s) (hnewline : IsNewline newline) (rest : List Char) :
    skipBlanks (s ++ (newline ++ rest)) = newline ++ rest :=
  dropWhile_isBlank_newline h hnewline rest

theorem dropWhile_isPlain_newline (h : AllPlain s) (hnewline : IsNewline newline)
    (rest : List Char) : (s ++ (newline ++ rest)).dropWhile isPlain = newline ++ rest := by
  obtain ⟨c, more, rfl, -, hc⟩ := hnewline.exists_cons
  rw [List.dropWhile_append_of_pos h, List.cons_append,
    List.dropWhile_cons_of_neg (by simp [hc])]

theorem skipComment_newline (hnewline : IsNewline newline) (rest : List Char) :
    skipComment (newline ++ rest) = newline ++ rest := by
  cases hnewline <;> rfl

theorem skipBlanks_of_allBlank (h : AllBlank s) : skipBlanks s = [] := by
  rw [skipBlanks, List.dropWhile_eq_nil_iff]
  exact h

theorem endLine_of_endsLine (h : EndsLine s rest) : endLine s = some rest := by
  have hsign (t : List Char) {blanks : List Char} (h : AllBlank blanks) :
      skipBlanks (blanks ++ '#' :: t) = '#' :: t := dropWhile_isBlank h (by decide) t
  cases h with
  | text h =>
    cases h with
    | blanks h => rw [endLine, skipBlanks_of_allBlank h]; rfl
    | comment h htext =>
      rw [endLine, hsign _ h, skipComment, List.dropWhile_eq_nil_iff.mpr htext]
  | line h hnewline =>
    cases h with
    | blanks h =>
      rw [endLine, skipBlanks_newline h hnewline, skipComment_newline hnewline]
      cases hnewline <;> rfl
    | comment h htext =>
      rw [List.append_assoc, List.cons_append, endLine, hsign _ h, skipComment,
        dropWhile_isPlain_newline htext hnewline]
      cases hnewline <;> rfl

/-- What stands there, if anything does. -/
theorem EndsLine.of_skipBlanks (h : EndsLine s rest) (hskip : skipBlanks s = c :: back) :
    c = '#' ∨ c = '\n' ∨ c = '\r' := by
  have hcomment {blanks t : List Char} (h : AllBlank blanks)
      (hskip : skipBlanks (blanks ++ '#' :: t) = c :: back) : c = '#' := by
    have hsign : skipBlanks (blanks ++ '#' :: t) = '#' :: t := dropWhile_isBlank h (by decide) t
    exact (List.cons.inj (hsign.symm.trans hskip)).1.symm
  cases h with
  | text h =>
    cases h with
    | blanks h => cases (skipBlanks_of_allBlank h).symm.trans hskip
    | comment h => exact Or.inl (hcomment h hskip)
  | line h hnewline =>
    cases h with
    | blanks h =>
      rw [skipBlanks_newline h hnewline] at hskip
      cases hnewline <;> cases hskip <;> simp
    | comment h =>
      rw [List.append_assoc] at hskip
      exact Or.inl (hcomment h hskip)

theorem EndsLine.endsValue (h : EndsLine s rest) : EndsValue s := by
  have hmargin {margin rest : List Char} (h : IsMargin margin) (hrest : EndsValue rest) :
      EndsValue (margin ++ rest) := by
    cases h with
    | blanks h => exact hrest.append h
    | comment h =>
      rw [List.append_assoc]
      exact .append h (endsValue_cons (by decide) (by decide) _)
  cases h with
  | text h => exact List.append_nil s ▸ hmargin h nofun
  | line h hnewline =>
    refine hmargin h ?_
    cases hnewline <;> exact endsValue_cons (by decide) (by decide) _

/-! ### Documents -/

variable {fuel : Nat} {current : Section} {closed : List Section}

theorem sectionsOnto_end (h : skipBlanks s = []) :
    sectionsOnto (fuel + 1) current closed s =
      some (closed.reverse ++ [{ current with pairs := current.pairs.reverse }]) := by
  rw [sectionsOnto, h]
  simp

/-- A line with nothing on it, or only a comment. -/
theorem sectionsOnto_empty (h : EndsLine s rest) (hs : skipBlanks s ≠ []) :
    sectionsOnto (fuel + 1) current closed s = sectionsOnto fuel current closed rest := by
  obtain ⟨c, more, hskip⟩ := List.exists_cons_of_ne_nil hs
  have hend : endLine (c :: more) = some rest := by
    rw [← hskip, ← endLine_of_endsLine h, endLine, endLine, skipBlanks, skipBlanks,
      List.dropWhile_idempotent]
  have hc : c = '#' ∨ c = '\n' ∨ c = '\r' := h.of_skipBlanks hskip
  have hbracket : c ≠ '[' := by
    rcases hc with rfl | rfl | rfl <;> decide
  rw [sectionsOnto, hskip]
  split
  · simp_all
  · simp_all
  · next heq =>
    cases heq
    rw [if_pos hc, hend]
    rfl

/-- A pair goes to the section under way. -/
theorem sectionsOnto_pair (h : PairText ValueText p s) (hfront : AllBlank front)
    (hback : EndsLine back rest) :
    sectionsOnto (fuel + 1) current closed (front ++ (s ++ back)) =
      sectionsOnto fuel { current with pairs := p :: current.pairs } closed rest := by
  have hread := pair_of_pairText (reads_value 78) h allBlank_nil hback.endsValue
  obtain ⟨c, more, rfl, hc⟩ := h.exists_cons
  have hskip : skipBlanks (front ++ (c :: more ++ back)) = c :: (more ++ back) :=
    dropWhile_isBlank hfront hc.isBlank_eq_false _
  have hbracket : c ≠ '[' := hc.ne (by decide)
  have hempty : ¬ (c = '#' ∨ c = '\n' ∨ c = '\r') := by
    rintro (rfl | rfl | rfl) <;> exact hc.ne (by decide) rfl
  rw [sectionsOnto, hskip]
  split
  · simp_all
  · simp_all
  · next heq =>
    cases heq
    rw [if_neg hempty]
    change (pair (value depthLimit) _).bind _ = _
    rw [List.nil_append, List.cons_append] at hread
    rw [depthLimit, hread, Option.bind_some]
    dsimp only
    rw [endLine_of_endsLine hback]
    rfl

/-- A header closes the section under way. -/
theorem sectionsOnto_header {h : Header} (hs : HeaderText h s) (hfront : AllBlank front)
    (hback : EndsLine back rest) :
    sectionsOnto (fuel + 1) current closed (front ++ (s ++ back)) =
      sectionsOnto fuel ⟨some h, []⟩
        ({ current with pairs := current.pairs.reverse } :: closed) rest := by
  obtain ⟨more, rfl, hread⟩ := header_of_headerText hs
  have hskip : skipBlanks (front ++ ('[' :: more ++ back)) = '[' :: (more ++ back) :=
    dropWhile_isBlank hfront (by decide) _
  rw [sectionsOnto, hskip]
  change (header (more ++ back)).bind _ = _
  rw [hread, Option.bind_some]
  dsimp only
  rw [endLine_of_endsLine hback]
  rfl

theorem LineText.length_pos {line : Line} (h : LineText line s) : 0 < s.length := by
  cases h with
  | pair h =>
    obtain ⟨c, more, rfl, -⟩ := h.exists_cons
    exact Nat.succ_pos _
  | header h =>
    obtain ⟨more, rfl, -⟩ := header_of_headerText h
    exact Nat.succ_pos _

/-- What one line makes of the sections, whatever is on it. -/
theorem sectionsOnto_line {line : Line} {lines : List Line}
    (h : LineText line s) (hfront : AllBlank front) (hback : EndsLine back rest)
    (hmore : ∀ current closed, sectionsOnto fuel current closed rest =
      some (closed.reverse ++ sectionsOf { current with pairs := current.pairs.reverse } lines)) :
    sectionsOnto (fuel + 1) current closed (front ++ (s ++ back)) =
      some (closed.reverse ++
        sectionsOf { current with pairs := current.pairs.reverse } (line :: lines)) := by
  cases h with
  | pair h =>
    rw [sectionsOnto_pair h hfront hback, hmore, sectionsOf]
    simp
  | header h =>
    rw [sectionsOnto_header h hfront hback, hmore, sectionsOf]
    simp

/-- **A document is read as its lines**: as the sections that they make up. -/
theorem sectionsOnto_of_linesText {lines : List Line} (h : LinesText lines s)
    (hfuel : s.length < fuel) (current : Section) (closed : List Section) :
    sectionsOnto fuel current closed s =
      some (closed.reverse ++
        sectionsOf { current with pairs := current.pairs.reverse } lines) := by
  have hnothing (fuel : Nat) (current : Section) (closed : List Section) :
      sectionsOnto (fuel + 1) current closed [] =
        some (closed.reverse ++ sectionsOf { current with pairs := current.pairs.reverse } []) :=
    sectionsOnto_end rfl
  induction h generalizing fuel current closed with
  | @nil margin h =>
    obtain ⟨fuel, rfl⟩ := Nat.exists_eq_add_one.mpr (Nat.zero_lt_of_lt hfuel)
    by_cases hskip : skipBlanks margin = []
    · exact sectionsOnto_end hskip
    · have hpos : 0 < margin.length := by
        refine List.length_pos_iff.mpr ?_
        rintro rfl
        exact hskip rfl
      obtain ⟨fuel, rfl⟩ := Nat.exists_eq_add_one.mpr (show 0 < fuel by omega)
      rw [sectionsOnto_empty (.text h) hskip, hnothing]
  | @last line front s margin hfront h hmargin =>
    have hpos := h.length_pos
    simp only [List.length_append] at hfuel
    obtain ⟨fuel, rfl⟩ := Nat.exists_eq_add_one.mpr (Nat.zero_lt_of_lt hfuel)
    obtain ⟨fuel, rfl⟩ := Nat.exists_eq_add_one.mpr (show 0 < fuel by omega)
    exact sectionsOnto_line h hfront (.text hmargin) (hnothing fuel)
  | @empty lines margin newline more h hnewline hmore ih =>
    have hpos := hnewline.length_pos
    simp only [List.length_append] at hfuel
    obtain ⟨fuel, rfl⟩ := Nat.exists_eq_add_one.mpr (Nat.zero_lt_of_lt hfuel)
    have hskip : skipBlanks (margin ++ (newline ++ more)) ≠ [] := by
      obtain ⟨c, t, rfl, hc, -⟩ := hnewline.exists_cons
      rw [skipBlanks, ne_eq, List.dropWhile_eq_nil_iff]
      exact fun hall => Bool.noConfusion (hc.symm.trans (hall c (by simp)))
    rw [sectionsOnto_empty (.line h hnewline) hskip, ih (by omega)]
  | @cons line lines front s margin newline more hfront h hmargin hnewline hmore ih =>
    have hpos := hnewline.length_pos
    simp only [List.length_append] at hfuel
    obtain ⟨fuel, rfl⟩ := Nat.exists_eq_add_one.mpr (Nat.zero_lt_of_lt hfuel)
    exact sectionsOnto_line h hfront (.line hmargin hnewline) fun current closed =>
      ih (by omega) current closed

theorem sections_of_linesText {lines : List Line} (h : LinesText lines s) :
    sections s = some (sectionsOf ⟨none, []⟩ lines) :=
  sectionsOnto_of_linesText h (Nat.lt_succ_self _) ⟨none, []⟩ []

/-- A byte order mark is nothing that a line could begin with. -/
theorem sections_byteOrderMark (s : List Char) : sections ('\ufeff' :: s) = none := by
  have hskip : skipBlanks ('\ufeff' :: s) = '\ufeff' :: s := rfl
  have hkey : simpleKey ('\ufeff' :: s) = none := rfl
  have hdotted : dottedKey ('\ufeff' :: s) = none := by
    rw [dottedKey, depthLimit, dottedKeyOnto, hskip, hkey, Option.bind_none]
  have hpair : pair (value depthLimit) ('\ufeff' :: s) = none := by
    rw [pair, hdotted]
    rfl
  rw [sections, sectionsOnto, hskip]
  split
  · next heq => cases heq
  · next heq => exact absurd (List.cons.inj heq).1 (by decide)
  · next heq =>
    cases heq
    rw [if_neg (by decide), hpair]
    rfl

theorem sections_of_documentText {lines : List Line} (h : DocumentText lines s) :
    sections (skipByteOrderMark s) = some (sectionsOf ⟨none, []⟩ lines) := by
  cases h with
  | plain h =>
    have hread := sections_of_linesText h
    have hskip : skipByteOrderMark s = s := by
      unfold skipByteOrderMark
      split
      · rw [sections_byteOrderMark] at hread
        cases hread
      · rfl
    rw [hskip, hread]
  | marked h => exact sections_of_linesText h

/-- The text is a way to write the items as a document. -/
structure Writes (items : List Item) (text : String) : Prop where
  isDocument : IsDocument items
  text : DocumentText (items.flatMap Item.lines) text.toList

/-- **What the items of a document say is what is read.** -/
theorem Writes.parse {items : List Item} {text : String} (h : Writes items text) :
    ∃ document, parse text = some document ∧ document.IsSectioned ∧ Holds items document := by
  obtain ⟨document, hadd, hholds⟩ := add_items h.isDocument
  have hparse : Toml.parse text = some document := by
    rw [Toml.parse, sections_of_documentText h.text, Option.bind_some,
      ofSections_sectionsOf h.isDocument, hadd]
  exact ⟨document, hparse, hholds.isSectioned h.isDocument.good (parse_isTidy hparse), hholds⟩

end ByteSplice.Toml
