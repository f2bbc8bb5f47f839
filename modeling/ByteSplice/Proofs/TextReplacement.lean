import ByteSplice.Proofs.CharacterCode
import ByteSplice.Proofs.Planning

/-!
# Replacing characters

A request is carried out on bytes, and the scan goes forward by one byte at a time. What is meant is
a text. `replaceText` says what replacing means there: it goes through the characters, and writes
the replacement where the text that is looked for stands.

The two agree under every `CharacterCode` (`replaceAll_write`). Where the characters match, so do
the bytes. Where they do not, the bytes match neither there nor anywhere before the next character
begins, so the scan copies the character and meets the one pass over the characters again.

A request may put a zero byte behind each replacement. To the text that is the character U+0000.

## Main definitions

* `replaceText`

## Main results

* `CharacterCode.replaceAll_write`
* `Rules.evaluate_respects_characters`
-/

namespace ByteSplice

/-- The characters with every occurrence of some of them replaced, from left to right and in one
pass. -/
def replaceText (find replacement : List Char) : List Char → List Char
  | [] => []
  | c :: rest =>
    if find <+: c :: rest then
      replacement ++ replaceText find replacement (rest.drop (find.length - 1))
    else c :: replaceText find replacement rest
termination_by text => text.length

/-- Of two occurrences that overlap the left one is replaced. -/
example : replaceText ['a', 'a'] ['é'] ['a', 'a', 'a', 'b'] = ['é', 'a', 'b'] := by
  cbv

/-- All characters come from the text or from the replacement. -/
theorem mem_of_mem_replaceText {find replacement text : List Char} {c : Char}
    (h : c ∈ replaceText find replacement text) : c ∈ replacement ∨ c ∈ text := by
  induction text using replaceText.induct find with
  | case1 =>
    rw [replaceText] at h
    exact absurd h List.not_mem_nil
  | case2 d rest hmatch ih =>
    rw [replaceText, if_pos hmatch] at h
    rcases List.mem_append.mp h with hnew | hlater
    · exact Or.inl hnew
    · exact (ih hlater).imp_right fun hrest => List.mem_cons_of_mem d (List.mem_of_mem_drop hrest)
  | case3 d rest hmiss ih =>
    rw [replaceText, if_neg hmiss] at h
    rcases List.mem_cons.mp h with rfl | hlater
    · exact Or.inr List.mem_cons_self
    · exact (ih hlater).imp_right (List.mem_cons_of_mem d)

namespace CharacterCode

variable {k : CharacterCode} {p : Pattern} {find replacement text : List Char}

theorem spells_replaceText (hreplacement : k.Spells replacement) (htext : k.Spells text) :
    k.Spells (replaceText find replacement text) :=
  fun c hc => (mem_of_mem_replaceText hc).elim (hreplacement c) (htext c)

/-- A match among the bytes is one among the characters. -/
theorem exists_append_of_matchesAt (hp : p.bytes = k.write find) (hfind : k.Spells find)
    (hne : find ≠ []) (htext : k.Spells text) {i : Nat} (h : p.MatchesAt (k.write text) i) :
    ∃ front back, text = front ++ find ++ back ∧ i = (k.write front).length := by
  rw [Pattern.matchesAt_iff_isPrefix, hp] at h
  exact exists_append_of_isPrefix_drop hfind hne htext h

theorem exists_matchesAt_iff (hp : p.bytes = k.write find) (hfind : k.Spells find)
    (hne : find ≠ []) (htext : k.Spells text) :
    (∃ i, p.MatchesAt (k.write text) i) ↔ find <:+: text := by
  constructor
  · rintro ⟨i, h⟩
    obtain ⟨front, back, hsplit, -⟩ := exists_append_of_matchesAt hp hfind hne htext h
    exact ⟨front, back, hsplit.symm⟩
  · rintro ⟨front, back, rfl⟩
    refine ⟨(k.write front).length, Pattern.matchesAt_iff_isPrefix.mpr ?_⟩
    rw [hp, List.append_assoc, write_append, List.drop_left, write_append]
    exact List.prefix_append _ _

/-- **Replacing bytes is replacing characters.** -/
theorem replaceAll_write (hp : p.bytes = k.write find) (hfind : k.Spells find) (hne : find ≠ [])
    (htext : k.Spells text) (replacement : List Char) :
    replaceAll p (k.write replacement) (k.write text) =
      k.write (replaceText find replacement text) := by
  induction text using replaceText.induct find with
  | case1 => rw [write_nil, replaceAll_nil, replaceText, write_nil]
  | case2 c rest h ih =>
    have hmatch : p.bytes <+: k.write (c :: rest) := hp ▸ k.write_isPrefix h
    obtain ⟨back, hback⟩ := h
    have hrest : rest.drop (find.length - 1) = back := by
      cases find with
      | nil => exact absurd rfl hne
      | cons d more =>
        have hmore : more ++ back = rest := (List.cons.inj hback).2
        rw [← hmore, List.length_cons, Nat.add_sub_cancel, List.drop_left]
    have hbehind : (k.write (c :: rest)).drop p.length = k.write back := by
      rw [← hback, write_append, Pattern.length, hp, List.drop_left]
    rw [hrest] at ih
    rw [← hback] at htext
    rw [replaceText, if_pos ⟨back, hback⟩, hrest, replaceAll_of_isPrefix hmatch, hbehind,
      ih (spells_append_iff.mp htext).2, write_append]
  | case3 c rest h ih =>
    have hinside : ∀ i < (k.bytes c).length, ¬ p.bytes <+: (k.bytes c ++ k.write rest).drop i := by
      intro i hi hmatch
      rw [hp, ← write_cons] at hmatch
      obtain ⟨front, back, hsplit, rfl⟩ := exists_append_of_isPrefix_drop hfind hne htext hmatch
      cases front with
      | nil => exact h ⟨back, hsplit.symm⟩
      | cons d more =>
        obtain rfl : c = d := (List.cons.inj hsplit).1
        rw [write_cons, List.length_append] at hi
        exact absurd hi (Nat.not_lt.mpr (Nat.le_add_right _ _))
    rw [replaceText, if_neg h, write_cons, replaceAll_append hinside,
      ih (spells_cons_iff.mp htext).2, write_cons]

end CharacterCode

/-! ### Encodings -/

namespace Encoding

variable {scheme : Encoding} {k : CharacterCode}

theorem encode_eq_write {text : String} (hcode : scheme.code? = some k)
    (h : k.Spells text.toList) : scheme.encode text = .ok (k.write text.toList) :=
  encodeChars_eq_write hcode h

/-- UTF-8 has all characters, and Latin-1 those up to U+00FF. -/
theorem exists_code {text : List Char}
    (h : scheme = .utf8 ∨ scheme = .latin1 ∧ ∀ c ∈ text, c.toNat ≤ 0xFF) :
    ∃ k, scheme.code? = some k ∧ k.Spells text := by
  rcases h with rfl | ⟨rfl, hlatin1⟩
  · exact ⟨.utf8, rfl, CharacterCode.spells_utf8 _⟩
  · exact ⟨.latin1, rfl, hlatin1⟩

end Encoding

namespace Rules

variable {rules : Rules} {k : CharacterCode} {p : Pattern} {text find replace : String}

/-- The replacement text of a request, with the zero character that may belong to it. -/
def writtenText (replace : String) (nullTerminate : Bool) : String :=
  if nullTerminate then replace ++ "\x00" else replace

theorem spells_writtenText (hcode : rules.encoding.code? = some k)
    (h : k.Spells replace.toList) (nullTerminate : Bool) :
    k.Spells (writtenText replace nullTerminate).toList := by
  cases nullTerminate with
  | false => exact h
  | true =>
    rw [writtenText, if_pos rfl, String.toList_append]
    exact CharacterCode.spells_append_iff.mpr ⟨h, (Encoding.write_zero hcode).1⟩

theorem write_writtenText (hcode : rules.encoding.code? = some k) (replace : String)
    (nullTerminate : Bool) :
    k.write (writtenText replace nullTerminate).toList =
      replacementOfBytes (k.write replace.toList) nullTerminate := by
  cases nullTerminate with
  | false => rfl
  | true =>
    rw [writtenText, if_pos rfl, String.toList_append, CharacterCode.write_append,
      replacementOfBytes, if_pos rfl, ← (Encoding.write_zero hcode).2]
    rfl

/-- **Replacing bytes respects characters.** Take any text, and a request that looks for some
characters and may put in more bytes than it takes away, with a zero byte behind each replacement or
without. The encoding is UTF-8, or it is Latin-1 and has all characters that occur.

The request has a plan on the bytes of the text, unless the characters do not occur and that is to
be reported. What the plan makes of the bytes are those of the text with the characters replaced,
from left to right and in one pass, and they are read as that text. Every occurrence in the plan is
one of the characters: it begins and ends where a character of the text does. -/
theorem evaluate_respects_characters (rules : Rules) (text : String) {find : String}
    (replace : String) (nullTerminate : Bool) (hfind : find ≠ "")
    (hscheme : rules.encoding = .utf8 ∨ rules.encoding = .latin1 ∧
      ∀ c ∈ text.toList ++ find.toList ++ replace.toList, c.toNat ≤ 0xFF) :
    let request : Request := ⟨find, replace, nullTerminate, true⟩
    let written := writtenText replace nullTerminate
    let replaced := String.ofList (replaceText find.toList written.toList text.toList)
    ∃ data output, rules.encoding.encode text = .ok data ∧
      rules.encoding.encode replaced = .ok output ∧ rules.encoding.read? output = some replaced ∧
      ((∃ plan, rules.evaluate data request = .ok plan) ↔
        rules.zeroMatch = .silent ∨ find.toList <:+: text.toList) ∧
      ∀ plan, rules.evaluate data request = .ok plan →
        plan.apply data = .ok output ∧
        ∀ o ∈ plan.occurrences, ∃ front back before through, text = front ++ find ++ back ∧
          rules.encoding.encode front = .ok before ∧
          rules.encoding.encode (front ++ find) = .ok through ∧
          o.offset = before.length ∧ o.stop = through.length := by
  intro request written replaced
  obtain ⟨k, hcode, hall⟩ := Encoding.exists_code hscheme
  obtain ⟨htexts, hreplace⟩ := CharacterCode.spells_append_iff.mp hall
  obtain ⟨htext, hspells⟩ := CharacterCode.spells_append_iff.mp htexts
  have hne : find.toList ≠ [] := by simpa using hfind
  let p : Pattern := ⟨k.write find.toList, CharacterCode.write_ne_nil hspells hne⟩
  have hreads : rules.Reads request p (k.write written.toList) :=
    ⟨Encoding.encode_eq_write hcode hspells, _, Encoding.encode_eq_write hcode hreplace,
      (write_writtenText hcode replace nullTerminate).symm⟩
  have hreplaced : k.Spells (replaceText find.toList written.toList text.toList) :=
    CharacterCode.spells_replaceText (spells_writtenText hcode hreplace nullTerminate) htext
  refine ⟨k.write text.toList, k.write (replaceText find.toList written.toList text.toList),
    Encoding.encode_eq_write hcode htext, ?_, Encoding.read?_write hcode hreplaced, ?_,
    fun plan heval => ⟨?_, fun o ho => ?_⟩⟩
  · rw [Encoding.encode, String.toList_ofList]
    exact Encoding.encodeChars_eq_write hcode hreplaced
  · rw [hreads.exists_evaluate_iff, CharacterCode.exists_matchesAt_iff rfl hspells hne htext]
  · have hplans := evaluate_eq_ok_iff.mp heval
    obtain ⟨hpattern, hreplacement⟩ := hplans.reads.unique hreads
    rw [hplans.apply (hplans.allowed_iff.mpr (Or.inl rfl)), hpattern, hreplacement,
      CharacterCode.replaceAll_write rfl hspells hne htext]
  · have hplans := evaluate_eq_ok_iff.mp heval
    obtain ⟨hpattern, -⟩ := hplans.reads.unique hreads
    rw [hplans.occurrences_eq, hpattern] at ho
    obtain ⟨hlength, hmatch⟩ := (isScanFrom_findAll _ p).exact_match o ho
    obtain ⟨front, back, hsplit, hoffset⟩ :=
      CharacterCode.exists_append_of_matchesAt rfl hspells hne htext hmatch
    have hfront : k.Spells (front ++ find.toList) :=
      (CharacterCode.spells_append_iff.mp (hsplit ▸ htext)).1
    refine ⟨String.ofList front, String.ofList back, k.write front,
      k.write (front ++ find.toList), ?_, ?_, ?_, hoffset, ?_⟩
    · rw [← String.toList_inj, hsplit]
      simp
    · rw [Encoding.encode, String.toList_ofList]
      exact Encoding.encodeChars_eq_write hcode (CharacterCode.spells_append_iff.mp hfront).1
    · rw [Encoding.encode, String.toList_append, String.toList_ofList]
      exact Encoding.encodeChars_eq_write hcode hfront
    · rw [Occurrence.stop, hoffset, hlength, CharacterCode.write_append, List.length_append,
        Pattern.length]

/-- The sign that is replaced ends in the byte that the letter beside it ends in. -/
theorem evaluate_respects_characters_copyright :
    let rules : Rules := { encoding := .utf8 }
    let request : Request := ⟨"©", "(c)", true, true⟩
    rules.encoding = .utf8 ∧ "©" ≠ "" ∧
      ∃ data output plan, rules.encoding.encode "é©é" = .ok data ∧
        rules.encoding.encode "é(c)\x00é" = .ok output ∧ rules.evaluate data request = .ok plan ∧
        plan.apply data = .ok output := by
  intro rules request
  have hfind : "©" ≠ "" := by decide
  have hreplaced : String.ofList (replaceText "©".toList (writtenText "(c)" true).toList
      "é©é".toList) = "é(c)\x00é" := by
    cbv
  obtain ⟨data, output, hdata, houtput, -, hplan, hplans⟩ :=
    evaluate_respects_characters rules "é©é" "(c)" true hfind (Or.inl rfl)
  obtain ⟨plan, heval⟩ := hplan.mpr (Or.inl rfl)
  rw [hreplaced] at houtput
  exact ⟨rfl, hfind, data, output, plan, hdata, houtput, heval, (hplans plan heval).1⟩

end Rules

end ByteSplice
