import ByteSplice.Json.Shape
import ByteSplice.Proofs.Json.Grammar

/-!
# Reading an object member by member

A record is read from an object by a function that is different for each kind of record. It is
called for each member with what has been gathered so far, behind the key of the member. `Gathers`
says what comes of that for the members of an object, one after the other, until one is refused or
none is left. `readMembers_of_gathers` says that reading the text of the object comes to the same.
So what remains to be shown for a kind of record is what its function does with one member.

A reader gets the characters that are left and hands on those behind what it has read, so every
statement here has a `rest` that is handed on untouched.

## Main definitions

* `Json.Gathers`

## Main results

* `Json.readMembers_of_gathers`, `Json.readMembers_joined`
-/

namespace ByteSplice.Json

variable {σ : Type} {gap rest : List Char} {w : MemberText} {pieces : List MemberText}

/-- What `member` gathers from the written members of an object, one after the other, until one of
them is refused. -/
inductive Gathers (member : String → σ → Reader σ) : σ → List MemberText → Except Fault σ → Prop
  | nil (gathered : σ) : Gathers member gathered [] (.ok gathered)
  | cons {key : String} {w : MemberText} {more : List MemberText} {before between : σ}
      {result : Except Fault σ} (hpadded : w.IsPadded) (hkey : StringText key.toList w.key.text)
      (hread : ∀ rest, EndsNumber rest →
        member key before (w.key.back ++ ':' :: (w.value.chars ++ rest)) =
          .ok (between, w.value.back ++ rest))
      (hmore : Gathers member between more result) : Gathers member before (w :: more) result
  | fault {key : String} {w : MemberText} {more : List MemberText} {before : σ} {fault : Fault}
      (hpadded : w.IsPadded) (hkey : StringText key.toList w.key.text)
      (hread : ∀ rest, EndsNumber rest →
        member key before (w.key.back ++ ':' :: (w.value.chars ++ rest)) = .error fault) :
      Gathers member before (w :: more) (.error fault)

/-- Pieces as they stand behind an opening bracket, or behind another piece. -/
def piecesText (first : Bool) (pieces : List (List Char)) : List Char :=
  if first then joined pieces else later pieces

theorem nextMember_nil (first : Bool) (hgap : AllBlank gap) (rest : List Char) :
    nextMember first (gap ++ (piecesText first [] ++ '\x7d' :: rest)) = .ok (false, rest) := by
  have hskip := skipBlanks_append hgap (c := '\x7d') rfl rest
  cases first <;> simp [piecesText, joined, later, nextMember, hskip]

theorem nextMember_cons (first : Bool) (hgap : AllBlank gap) (hpadded : w.key.IsPadded)
    (more : List (List Char)) (rest : List Char) :
    nextMember first (gap ++ (piecesText first (w.chars :: more) ++ rest)) =
      .ok (true, w.key.text ++ '"' :: (w.key.back ++ ':' ::
        (w.value.chars ++ (piecesText false more ++ rest)))) := by
  cases first with
  | true =>
    change nextMember true (gap ++ (w.chars ++ later more ++ rest)) = _
    rw [List.append_assoc, w.chars_append, ← List.append_assoc, nextMember,
      skipBlanks_append (hgap.append hpadded.front) rfl]
    rfl
  | false =>
    change nextMember false (gap ++ ',' :: (w.chars ++ later more ++ rest)) = _
    rw [List.append_assoc, w.chars_append, nextMember, skipBlanks_append hgap rfl]
    simp only [skipBlanks_append hpadded.front (c := '"') rfl]
    rfl

/-- **Reading the members of an object gathers them**, and ends behind its brace. -/
theorem readMembers_of_gathers {member : String → σ → Reader σ} {before : σ}
    {result : Except Fault σ} (h : Gathers member before pieces result) (first : Bool)
    (hgap : AllBlank gap) {fuel : List Char} (hfuel : pieces.length < fuel.length)
    (rest : List Char) :
    readMembers member fuel first before
        (gap ++ (piecesText first (pieces.map MemberText.chars) ++ '\x7d' :: rest)) =
      result.map (·, rest) := by
  have hends (more : List MemberText) :
      EndsNumber (piecesText false (more.map MemberText.chars) ++ '\x7d' :: rest) :=
    endsNumber_later _ (by decide) rest
  induction h generalizing first gap fuel with
  | nil gathered =>
    cases fuel with
    | nil => exact absurd hfuel (Nat.not_lt_zero _)
    | cons _ fuel =>
      rw [readMembers, List.map_nil, nextMember_nil first hgap]
      rfl
  | cons hpadded hkey hread hmore ih =>
    cases fuel with
    | nil => exact absurd hfuel (Nat.not_lt_zero _)
    | cons _ fuel =>
      rw [readMembers, List.map_cons, nextMember_cons first hgap hpadded.key]
      simp only [readString_of_stringText hkey, hread _ (hends _)]
      exact ih false hpadded.value.back (Nat.lt_of_succ_lt_succ hfuel)
  | fault hpadded hkey hread =>
    cases fuel with
    | nil => exact absurd hfuel (Nat.not_lt_zero _)
    | cons _ fuel =>
      rw [readMembers, List.map_cons, nextMember_cons first hgap hpadded.key]
      simp only [readString_of_stringText hkey, hread _ (hends _)]
      rfl

theorem length_le_length_later (pieces : List (List Char)) :
    pieces.length ≤ (later pieces).length := by
  induction pieces with
  | nil => exact Nat.zero_le _
  | cons piece pieces ih =>
    rw [later_cons]
    simp only [List.length_cons, List.length_append]
    omega

theorem length_le_length_joined (pieces : List MemberText) :
    pieces.length ≤ (joined (pieces.map MemberText.chars)).length := by
  cases pieces with
  | nil => exact Nat.zero_le _
  | cons w pieces =>
    have hlater := length_le_length_later (pieces.map MemberText.chars)
    simp only [List.length_map] at hlater
    simp only [List.map_cons, joined, MemberText.chars, List.length_cons, List.length_append]
    omega

/-- The text that is read is fuel enough. -/
theorem readMembers_joined {member : String → σ → Reader σ} {before : σ} {result : Except Fault σ}
    (h : Gathers member before pieces result) (hgap : AllBlank gap) (rest : List Char) :
    let s := gap ++ (joined (pieces.map MemberText.chars) ++ '\x7d' :: rest)
    readMembers member s true before s = result.map (·, rest) := by
  intro s
  refine readMembers_of_gathers h true hgap ?_ rest
  have hlength := length_le_length_joined pieces
  simp only [s, List.length_append, List.length_cons]
  omega

end ByteSplice.Json
