import ByteSplice.Json.Document
import ByteSplice.Proofs.Json.Members
import Mathlib.Tactic.SplitIfs

/-!
# Reading JSON that has been written

What `Json.compact` writes, the readers take back. A reader gets the characters that are left and
hands on those behind what it has read, so every statement here has a `rest` that is handed on
untouched. That is what lets statements about parts be put together to statements about wholes.

## Strings

A character is written in one of the ways in which it may be written (`charText_escape`), and a
string that is written in any such way is read as what it stands for. So it does not matter which of
the eight escapes it is.

## Objects

Written members have no blanks in them (`memberText`). For a record it remains to be shown that its
function gathers each of its members, as they are written, into a draft (`GathersAll.cons`).

## Main definitions

* `Json.memberText`, `Json.GathersAll`
* `Json.IsScalar`, the values that are strings or flags.

## Main results

* `Json.readString_escape`
* `Json.readMembers_compact`
* `Json.parseWith_readRecord`
* `Json.parse_compact_object`: an object of strings and flags is read as what it is.
-/

namespace ByteSplice.Json

variable {c : Char} {α σ : Type}

/-! ### Strings -/

theorem hexValue?_digitChar : ∀ n < 16, hexValue? (Nat.digitChar n) = some n := by
  decide

/-- A control is written by its number. -/
theorem unitText_of_control (h : c < ' ') :
    UnitText c.toNat
      ['0', '0', Nat.digitChar (c.toNat / 16), Nat.digitChar (c.toNat % 16)] := by
  have hlt : c.toNat < 32 := h
  have hhigh := hexValue?_digitChar (c.toNat / 16) (by omega)
  have hlow := hexValue?_digitChar (c.toNat % 16) (by omega)
  have hnumber : ((0 * 16 + 0) * 16 + c.toNat / 16) * 16 + c.toNat % 16 = c.toNat := by omega
  have hzero : hexValue? '0' = some 0 := rfl
  have hunit := UnitText.digits hzero hzero hhigh hlow
  rwa [hnumber] at hunit

/-- **A character is written in one of the ways it may be written**: as itself only where that is
understood. -/
theorem charText_escape (c : Char) : CharText c (escape c) := by
  unfold escape
  split_ifs with hquote hslash hback htab hline hfeed hreturn hcontrol
  · exact .short (by subst hquote; decide)
  · exact .short (by subst hslash; decide)
  · exact .short (by subst hback; decide)
  · exact .short (by subst htab; decide)
  · exact .short (by subst hline; decide)
  · exact .short (by subst hfeed; decide)
  · exact .short (by subst hreturn; decide)
  · exact .unit (unitText_of_control hcontrol)
  · exact .plain hquote hslash hcontrol

theorem stringText_flatMap_escape : ∀ text : List Char, StringText text (text.flatMap escape)
  | [] => .nil
  | c :: text => .cons (charText_escape c) (stringText_flatMap_escape text)

/-- **A string is read as what was written.** -/
theorem readString_escape (s : String) (rest : List Char) :
    readString (s.toList.flatMap escape ++ '"' :: rest) = .ok (s, rest) :=
  readString_of_stringText (stringText_flatMap_escape s.toList) rest

/-! ### What a record is made of -/

theorem quoted_append (s : String) (rest : List Char) :
    quoted s ++ rest = '"' :: (s.toList.flatMap escape ++ '"' :: rest) := by
  simp [quoted]

theorem skipBlanks_cons (h : isBlank c = false) (rest : List Char) :
    skipBlanks (c :: rest) = c :: rest := by
  simp [skipBlanks, h]

theorem passColon_cons (rest : List Char) : passColon (':' :: rest) = .ok rest := by
  rfl

theorem readText_compact (s : String) (rest : List Char) :
    readText (compactChars (.string s) ++ rest) = .ok (s, rest) := by
  change readText (quoted s ++ rest) = _
  rw [quoted_append, readText, skipBlanks_cons rfl]
  exact readString_escape s rest

theorem readFlag_compact (b : Bool) (rest : List Char) :
    readFlag (compactChars (.boolean b) ++ rest) = .ok (b, rest) := by
  cases b <;> rfl

theorem readName_compact {known : List (String × α)} {name : String} {value : α}
    (h : lookUp known name = .ok value) (rest : List Char) :
    readName known (compactChars (.string name) ++ rest) = .ok (value, rest) := by
  change readName known (quoted name ++ rest) = _
  rw [quoted_append, readName, skipBlanks_cons rfl]
  simp only [if_true, readKnown, readString_escape, h, Except.map]

/-- A field that has not been given yet is read behind its colon. -/
theorem readOnce_none (name : String) (read : Reader α) (rest : List Char) :
    readOnce name none read (':' :: rest) = read rest := by
  rw [readOnce, passColon_cons, Except.bind]

/-! ### Objects -/

/-- A member as it is written, with no blanks in it. -/
def memberText (m : String × Json) : MemberText where
  key := ⟨[], m.1.toList.flatMap escape, []⟩
  value := ⟨[], compactChars m.2, []⟩

theorem isPadded_memberText (m : String × Json) : (memberText m).IsPadded :=
  ⟨⟨allBlank_nil, allBlank_nil⟩, ⟨allBlank_nil, allBlank_nil⟩⟩

theorem compactMembers_eq_joined : ∀ members : List (String × Json),
    compactMembers members = joined ((members.map memberText).map MemberText.chars)
  | [] => rfl
  | [(key, value)] => by
    simp [compactMembers, joined, later, memberText, MemberText.chars, Slot.chars, quoted]
  | (key, value) :: next :: more => by
    have hmore := compactMembers_eq_joined (next :: more)
    simp only [compactMembers, hmore]
    simp [joined, later, memberText, MemberText.chars, Slot.chars, quoted]

variable {member : String → σ → Reader σ} {before between after : σ}

/-- What `member` gathers from written members, none of which is refused. -/
def GathersAll (member : String → σ → Reader σ) (before : σ) (members : List (String × Json))
    (after : σ) : Prop :=
  Gathers member before (members.map memberText) (.ok after)

namespace GathersAll

theorem nil (gathered : σ) : GathersAll member gathered [] gathered :=
  Gathers.nil gathered

/-- A written member is gathered if its value is read behind the colon. -/
theorem cons {key : String} {value : Json} {more : List (String × Json)}
    (hread : ∀ rest, member key before (':' :: (compactChars value ++ rest)) =
      .ok (between, rest)) (hmore : GathersAll member between more after) :
    GathersAll member before ((key, value) :: more) after := by
  refine Gathers.cons (isPadded_memberText _) (stringText_flatMap_escape key.toList)
    (fun rest _ => ?_) hmore
  simpa [memberText, Slot.chars] using hread rest

end GathersAll

theorem readMembers_compact {members : List (String × Json)}
    (h : GathersAll member before members after) (rest : List Char) :
    let s := compactMembers members ++ '\x7d' :: rest
    readMembers member s true before s = .ok (after, rest) := by
  rw [compactMembers_eq_joined]
  exact readMembers_joined h allBlank_nil rest

/-! ### Whole texts -/

/-- A written object that is read as a record is read as one whole text. -/
theorem parseWith_readRecord {name : String} {object array : Reader α} {value : α}
    {members : List (String × Json)}
    (h : object (compactMembers members ++ ['\x7d']) = .ok (value, [])) :
    parseWith (readRecord name object array) (Json.object members).compact = .ok value := by
  have hread : readRecord name object array (compactChars (.object members)) =
      .ok (value, []) := h
  rw [parseWith, compact, String.toList_ofList, hread]
  rfl

/-- The value is a string or a flag. -/
def IsScalar : Json → Prop
  | string _ | boolean _ => True
  | _ => False

theorem readValue_of_isScalar {value : Json} (h : value.IsScalar) (depth : Nat)
    (rest : List Char) : readValue depth (compactChars value ++ rest) = .ok (value, rest) := by
  cases value with
  | string s =>
    change readValue depth (quoted s ++ rest) = _
    have hatom : readAtom ('"' :: (s.toList.flatMap escape ++ '"' :: rest)) =
        .ok (.string s, rest) := by
      rw [readAtom]
      simp only [readString_escape]
      rfl
    have hblank : isBlank '"' = false := rfl
    rw [quoted_append]
    cases depth with
    | zero =>
      rw [readValue, skipBlanks_cons hblank]
      exact hatom
    | succ depth =>
      rw [readValue, skipBlanks_cons hblank]
      exact hatom
  | boolean b => cases depth <;> cases b <;> rfl
  | _ => exact absurd h not_false

theorem gathers_addMember {members : List (String × Json)} (h : ∀ m ∈ members, m.2.IsScalar)
    (depth : Nat) (before : List (String × Json)) :
    GathersAll (addMember (readValue depth)) before members (members.reverse ++ before) := by
  induction members generalizing before with
  | nil => exact .nil before
  | cons m more ih =>
    obtain ⟨hm, hmore⟩ := List.forall_mem_cons.mp h
    rw [List.reverse_cons, List.append_assoc, List.singleton_append]
    refine .cons (fun rest => ?_) (ih hmore (m :: before))
    rw [addMember, passColon_cons, Except.bind, readValue_of_isScalar hm]

/-- **An object of strings and flags is read as what it is.** -/
theorem parse_compact_object {members : List (String × Json)}
    (h : ∀ m ∈ members, m.2.IsScalar) :
    Json.parse (Json.object members).compact = .ok (.object members) := by
  have hmembers := readMembers_compact (gathers_addMember h 126 []) []
  have hread : readValue depthLimit (compactChars (.object members)) =
      .ok (.object members, []) := by
    change readValue (126 + 1) ('\x7b' :: (compactMembers members ++ ['\x7d'])) = _
    have hblank : isBlank '\x7b' = false := rfl
    rw [readValue, skipBlanks_cons hblank]
    simp only [hmembers, Except.map, List.append_nil, List.reverse_reverse]
  rw [parse, parseWith, compact, String.toList_ofList, hread]
  rfl

end ByteSplice.Json
