import ByteSplice.Contract
import ByteSplice.Proofs.Json.Members
import ByteSplice.Proofs.Json.Skipping
import Mathlib.Data.List.Forall2

/-!
# Requests do not depend on the order of members

An object that is read as a request may have its members in any order, and members that mean nothing
among them. Here the texts of such objects are described from the outside (`ObjectText`), with every
freedom that there is in writing them, and it is shown what each of them is read as.

## Members

A `Member` is what one member of an object says to whoever reads a request. There are five kinds,
and the last of them says nothing: then the value may be any value, so long as the key is not one of
the four that mean something. Reading such a member goes over exactly its value, however deep that
is nested (`passMember_slot`).

## The draft

Reading one member (`readMember_of_writes`) puts what it says into the draft, or refuses it if that
has been said before. So reading all of them is a fold over the members (`gathers_of_writes`), in
which the text plays no part any more (`parse_of_objectText`). What remains to be shown is about
lists of members only. Either no field is given twice, and then the draft has the one value that is
given of each field, wherever it stands, or the fold ends with a field that is given twice
(`foldlM_take`).

A request can also be written as an array. There the order is all that tells the fields apart, so
nothing is said of arrays here.

## Main definitions

* `Request.Member`, `Request.ObjectText`.
* `Request.Repeated`, `Request.SameKnown`.

## Main results

* `parse_of_objectText`, `foldlM_take`.
* `parse_respects_members`: what a text is read as, in any order of its members.
-/

namespace ByteSplice

open Json

namespace Json

variable {α : Type} {back gap rest s : List Char} {x : Slot}

/-! ### Values that are asked for -/

/-- A field that has its value already is refused before the next one is looked at. -/
theorem readOnce_of_read (name : String) (given : Option α) {read : Reader α} {value : α}
    (hback : AllBlank back) (h : read s = .ok (value, rest)) :
    readOnce name given read (back ++ ':' :: s) =
      if given.isSome then .error (.mismatch (.duplicateField name)) else .ok (value, rest) := by
  cases given with
  | some _ => rfl
  | none =>
    rw [readOnce, passColon_append hback, Except.bind, h]
    rfl

theorem readText_slot {value : String} (hpadded : x.IsPadded) (hvalue : StringText value.toList s)
    (htext : x.text = '"' :: (s ++ ['"'])) (rest : List Char) :
    readText (x.chars ++ rest) = .ok (value, x.back ++ rest) := by
  have hchars : x.chars ++ rest = x.front ++ '"' :: (s ++ '"' :: (x.back ++ rest)) := by
    simp [Slot.chars, htext]
  simp only [hchars, readText, skipBlanks_append hpadded.front (c := '"') rfl, if_true]
  exact readString_of_stringText hvalue (x.back ++ rest)

theorem readFlag_slot {b : Bool} (hpadded : x.IsPadded) (htext : x.text = (toString b).toList)
    (rest : List Char) : readFlag (x.chars ++ rest) = .ok (b, x.back ++ rest) := by
  rw [Slot.chars, htext, List.append_assoc, List.append_assoc]
  cases b with
  | true =>
    change readFlag (x.front ++ 't' :: 'r' :: 'u' :: 'e' :: (x.back ++ rest)) = _
    rw [readFlag, skipBlanks_append hpadded.front rfl]
    rfl
  | false =>
    change readFlag (x.front ++ 'f' :: 'a' :: 'l' :: 's' :: 'e' :: (x.back ++ rest)) = _
    rw [readFlag, skipBlanks_append hpadded.front rfl]
    rfl

theorem passMember_slot (hback : AllBlank back) (hpadded : x.IsPadded) (h : IsValue x.text)
    (hrest : EndsNumber rest) :
    passMember (back ++ ':' :: (x.chars ++ rest)) = .ok (x.back ++ rest) := by
  rw [passMember, passColon_append hback, Except.bind, Slot.chars, List.append_assoc,
    List.append_assoc]
  exact passValue_of_isValue h hpadded.front (hrest.append hpadded.back)

end Json

namespace Request

/-! ### Members -/

/-- The keys that mean something. -/
def fieldNames : List String :=
  ["findText", "replaceText", "nullTerminate", "allowOverflow"]

/-- A member of an object, to whoever reads a request from it. -/
inductive Member
  | findText (value : String)
  | replaceText (value : String)
  | nullTerminate (value : Bool)
  | allowOverflow (value : Bool)
  /-- A member that means nothing. -/
  | other (key : String) (hkey : key ∉ fieldNames)

namespace Member

/-- The key of a member. -/
def key : Member → String
  | findText _ => "findText"
  | replaceText _ => "replaceText"
  | nullTerminate _ => "nullTerminate"
  | allowOverflow _ => "allowOverflow"
  | other key _ => key

/-- The text to find, if the member gives it. -/
def findText? : Member → Option String
  | findText value => some value
  | _ => none

/-- The text to put in its place, if the member gives it. -/
def replaceText? : Member → Option String
  | replaceText value => some value
  | _ => none

/-- The first flag, if the member gives it. -/
def nullTerminate? : Member → Option Bool
  | nullTerminate value => some value
  | _ => none

/-- The second flag, if the member gives it. -/
def allowOverflow? : Member → Option Bool
  | allowOverflow value => some value
  | _ => none

/-- The member means something. -/
def IsKnown (m : Member) : Prop :=
  m.key ∈ fieldNames

instance : DecidablePred IsKnown :=
  fun m => inferInstanceAs (Decidable (m.key ∈ fieldNames))

/-- How the value of a member may be written. A member that means nothing may have any value. -/
def ValueText : Member → List Char → Prop
  | findText value, t | replaceText value, t =>
    ∃ s, StringText value.toList s ∧ t = '"' :: (s ++ ['"'])
  | nullTerminate value, t | allowOverflow value, t => t = (toString value).toList
  | other _ _, t => IsValue t

/-- The member may be written like this. -/
structure Writes (m : Member) (w : MemberText) : Prop where
  padded : w.IsPadded
  key : StringText m.key.toList w.key.text
  value : m.ValueText w.value.text

end Member

/-- A whole text that is an object of the given members. -/
inductive ObjectText : List Member → List Char → Prop
  | intro {members : List Member} {pieces : List MemberText} {front gap back : List Char}
      (hfront : AllBlank front) (hgap : AllBlank gap) (hback : AllBlank back)
      (hpieces : List.Forall₂ Member.Writes members pieces) :
      ObjectText members
        (front ++ '\x7b' :: (gap ++ (joined (pieces.map MemberText.chars) ++ '\x7d' :: back)))

/-! ### One member -/

/-- Whether the field of that name has been given. -/
def Draft.given (d : Draft) (name : String) : Bool :=
  if name = "findText" then d.findText.isSome
  else if name = "replaceText" then d.replaceText.isSome
  else if name = "nullTerminate" then d.nullTerminate.isSome
  else if name = "allowOverflow" then d.allowOverflow.isSome
  else false

/-- The draft with what a member says. -/
def Draft.put (d : Draft) : Member → Draft
  | .findText value => { d with findText := some value }
  | .replaceText value => { d with replaceText := some value }
  | .nullTerminate value => { d with nullTerminate := some value }
  | .allowOverflow value => { d with allowOverflow := some value }
  | .other _ _ => d

/-- The draft with what a member says, if that has not been said. -/
def Draft.take (d : Draft) (m : Member) : Except Fault Draft :=
  if d.given m.key then .error (.mismatch (.duplicateField m.key)) else .ok (d.put m)

variable {d : Draft} {m : Member} {members members' : List Member} {pieces : List MemberText}
  {w : MemberText} {gap rest : List Char} {text text' name : String}

/-- **One member is taken as what it says**, and what stands behind it is left. -/
theorem readMember_of_writes (h : m.Writes w) (d : Draft) (hrest : EndsNumber rest) :
    readMember m.key d (w.key.back ++ ':' :: (w.value.chars ++ rest)) =
      (d.take m).map (·, w.value.back ++ rest) := by
  obtain ⟨hpadded, -, hvalue⟩ := h
  have hback := hpadded.key.back
  cases m with
  | findText value =>
    obtain ⟨s, hs, htext⟩ := hvalue
    have hread := readText_slot hpadded.value hs htext rest
    rw [readMember, Member.key, if_pos rfl, readOnce_of_read _ _ hback hread]
    cases hd : d.findText <;> simp [Draft.take, Draft.given, Draft.put, Member.key, hd, Except.map]
  | replaceText value =>
    obtain ⟨s, hs, htext⟩ := hvalue
    have hread := readText_slot hpadded.value hs htext rest
    rw [readMember, Member.key, if_neg (by decide), if_pos rfl, readOnce_of_read _ _ hback hread]
    cases hd : d.replaceText <;>
      simp [Draft.take, Draft.given, Draft.put, Member.key, hd, Except.map]
  | nullTerminate value =>
    have hread := readFlag_slot hpadded.value hvalue rest
    rw [readMember, Member.key, if_neg (by decide), if_neg (by decide), if_pos rfl,
      readOnce_of_read _ _ hback hread]
    cases hd : d.nullTerminate <;>
      simp [Draft.take, Draft.given, Draft.put, Member.key, hd, Except.map]
  | allowOverflow value =>
    have hread := readFlag_slot hpadded.value hvalue rest
    rw [readMember, Member.key, if_neg (by decide), if_neg (by decide), if_neg (by decide),
      if_pos rfl, readOnce_of_read _ _ hback hread]
    cases hd : d.allowOverflow <;>
      simp [Draft.take, Draft.given, Draft.put, Member.key, hd, Except.map]
  | other key hkey =>
    have hpass := passMember_slot hback hpadded.value hvalue hrest
    simp only [fieldNames, List.mem_cons, List.not_mem_nil, or_false, not_or] at hkey
    obtain ⟨hfind, hreplace, hterminate, hoverflow⟩ := hkey
    simp only [readMember, Draft.take, Draft.given, Draft.put, Member.key, hfind, hreplace,
      hterminate, hoverflow, if_false, hpass, Except.map, Bool.false_eq_true]

/-! ### All members -/

/-- Members are gathered by taking one after the other. -/
theorem gathers_of_writes (h : List.Forall₂ Member.Writes members pieces) (d : Draft) :
    Gathers readMember d pieces (members.foldlM Draft.take d) := by
  induction h generalizing d with
  | nil => exact .nil d
  | @cons m w members pieces hwrites hmore ih =>
    have hread (rest : List Char) (hrest : EndsNumber rest) := readMember_of_writes hwrites d hrest
    rw [List.foldlM_cons]
    cases htake : d.take m with
    | error fault =>
      simp only [htake] at hread
      exact .fault hwrites.padded hwrites.key hread
    | ok d' =>
      simp only [htake] at hread
      exact .cons hwrites.padded hwrites.key hread (ih d')

/-- The request that members make. -/
def ofMembers (members : List Member) : Except Fault Request :=
  match members.foldlM Draft.take {} with
  | .error fault => .error fault
  | .ok d =>
    match d.complete with
    | none => .error (.mismatch (.missingField "findText"))
    | some request => .ok request

/-- Behind the brace of an object. -/
theorem readObject_of_writes (h : List.Forall₂ Member.Writes members pieces) (hgap : AllBlank gap)
    (rest : List Char) :
    readObject (gap ++ (joined (pieces.map MemberText.chars) ++ '\x7d' :: rest)) =
      (ofMembers members).map (·, rest) := by
  rw [readObject, readMembers_joined (gathers_of_writes h {}) hgap, ofMembers]
  cases members.foldlM Draft.take {} with
  | error fault => rfl
  | ok d => cases hd : d.complete <;> simp [Except.map, hd]

theorem read_of_objectText {s : List Char} (h : ObjectText members s) :
    ∃ back, AllBlank back ∧ read s = (ofMembers members).map (·, back) := by
  cases h with
  | @intro pieces front gap back hfront hgap hback hpieces =>
    refine ⟨back, hback, ?_⟩
    rw [read, readRecord, skipBlanks_append hfront rfl]
    exact readObject_of_writes hpieces hgap back

/-- **A text is read as what its members say**, however it is written. -/
theorem parse_of_objectText (h : ObjectText members text.toList) :
    parse text = ofMembers members := by
  obtain ⟨back, hback, hread⟩ := read_of_objectText h
  have hempty : (skipBlanks back).isEmpty = true := by
    rw [skipBlanks, List.dropWhile_eq_nil_iff.mpr hback, List.isEmpty_nil]
  rw [parse, parseWith, hread]
  cases ofMembers members with
  | error fault => rfl
  | ok request => exact if_pos hempty

/-! ### What members say together -/

theorem Member.key_mem_of_given (h : d.given m.key = true) : m.key ∈ fieldNames := by
  cases m with
  | other key hkey =>
    simp only [fieldNames, List.mem_cons, List.not_mem_nil, or_false, not_or] at hkey
    simp [Draft.given, Member.key, hkey] at h
  | _ => simp [Member.key, fieldNames]

theorem Member.key_other_ne {key : String} (hkey : key ∉ fieldNames) (hname : name ∈ fieldNames) :
    (Member.other key hkey).key ≠ name := by
  rintro rfl
  exact hkey hname

/-- Only the field that a member gives is given by it. -/
theorem Draft.given_put (h : d.given m.key = false) (hname : name ∈ fieldNames) :
    ((d.put m).given name).toNat = (d.given name).toNat + if m.key = name then 1 else 0 := by
  cases m with
  | other key hkey =>
    simp [Draft.put, Member.key_other_ne hkey hname]
  | _ =>
    simp only [fieldNames, List.mem_cons, List.not_mem_nil, or_false] at hname
    rcases hname with rfl | rfl | rfl | rfl <;> simp_all [Draft.put, Draft.given, Member.key]

/-- The draft with what the members say, if none of it has been said. -/
def Draft.filled (d : Draft) (members : List Member) : Draft where
  findText := d.findText.or (members.findSome? Member.findText?)
  replaceText := d.replaceText.or (members.findSome? Member.replaceText?)
  nullTerminate := d.nullTerminate.or (members.findSome? Member.nullTerminate?)
  allowOverflow := d.allowOverflow.or (members.findSome? Member.allowOverflow?)

theorem Draft.filled_put (h : d.given m.key = false) (members : List Member) :
    (d.put m).filled members = d.filled (m :: members) := by
  cases m <;> simp_all [Draft.put, Draft.given, Member.key, Draft.filled, List.findSome?_cons,
    Member.findText?, Member.replaceText?, Member.nullTerminate?, Member.allowOverflow?]

/-- How often a field is given, by the draft or by the members. -/
def Draft.timesGiven (d : Draft) (members : List Member) (name : String) : Nat :=
  (d.given name).toNat + (members.map Member.key).count name

theorem Draft.timesGiven_put (h : d.given m.key = false) (hname : name ∈ fieldNames)
    (members : List Member) :
    (d.put m).timesGiven members name = d.timesGiven (m :: members) name := by
  rw [Draft.timesGiven, Draft.timesGiven, Draft.given_put h hname, List.map_cons, List.count_cons]
  simp only [beq_iff_eq]
  omega

/-- **Members are all taken, or one is refused.** They are all taken if no field is given twice, and
otherwise what is refused is a field that is given twice. -/
theorem foldlM_take (d : Draft) (members : List Member) :
    ((∀ name ∈ fieldNames, d.timesGiven members name ≤ 1) ∧
        members.foldlM Draft.take d = .ok (d.filled members)) ∨
      ∃ name ∈ fieldNames, 2 ≤ d.timesGiven members name ∧
        members.foldlM Draft.take d = .error (.mismatch (.duplicateField name)) := by
  -- A member moves from the list into the draft, which leaves the count of every field the same.
  induction members generalizing d with
  | nil =>
    refine Or.inl ⟨fun name _ => Bool.toNat_le _, ?_⟩
    simp [Draft.filled]
    rfl
  | cons m members ih =>
    rw [List.foldlM_cons]
    cases hgiven : d.given m.key with
    | true =>
      refine Or.inr ⟨m.key, Member.key_mem_of_given hgiven, ?_, ?_⟩
      · simp [Draft.timesGiven, hgiven]
        omega
      · rw [Draft.take, if_pos hgiven]
        rfl
    | false =>
      have htake : d.take m = .ok (d.put m) := by
        rw [Draft.take, hgiven]
        rfl
      rw [htake]
      rcases ih (d.put m) with ⟨honce, hok⟩ | ⟨name, hname, htwice, herror⟩
      · refine Or.inl ⟨fun name hname => ?_, ?_⟩
        · rw [← Draft.timesGiven_put hgiven hname]
          exact honce name hname
        · rw [← Draft.filled_put hgiven]
          exact hok
      · refine Or.inr ⟨name, hname, ?_, herror⟩
        rwa [← Draft.timesGiven_put hgiven hname]

/-! ### The order of members -/

section

variable {α : Type} {p : Member → Option α}

/-- The function reads the value of exactly the members with that key. -/
structure ReadsOff (name : String) (p : Member → Option α) : Prop where
  known : name ∈ fieldNames
  isSome_iff : ∀ m, (p m).isSome = true ↔ m.key = name

theorem readsOff_findText : ReadsOff "findText" Member.findText? := by
  refine ⟨by decide, fun m => ?_⟩
  cases m with
  | other key hkey => exact ⟨nofun, fun heq => absurd heq (Member.key_other_ne hkey (by decide))⟩
  | _ => simp [Member.findText?, Member.key]

theorem readsOff_replaceText : ReadsOff "replaceText" Member.replaceText? := by
  refine ⟨by decide, fun m => ?_⟩
  cases m with
  | other key hkey => exact ⟨nofun, fun heq => absurd heq (Member.key_other_ne hkey (by decide))⟩
  | _ => simp [Member.replaceText?, Member.key]

theorem readsOff_nullTerminate : ReadsOff "nullTerminate" Member.nullTerminate? := by
  refine ⟨by decide, fun m => ?_⟩
  cases m with
  | other key hkey => exact ⟨nofun, fun heq => absurd heq (Member.key_other_ne hkey (by decide))⟩
  | _ => simp [Member.nullTerminate?, Member.key]

theorem readsOff_allowOverflow : ReadsOff "allowOverflow" Member.allowOverflow? := by
  refine ⟨by decide, fun m => ?_⟩
  cases m with
  | other key hkey => exact ⟨nofun, fun heq => absurd heq (Member.key_other_ne hkey (by decide))⟩
  | _ => simp [Member.allowOverflow?, Member.key]

theorem ReadsOff.length_filterMap (h : ReadsOff name p) (members : List Member) :
    (members.filterMap p).length = (members.map Member.key).count name := by
  rw [List.length_filterMap_eq_countP, List.count_eq_countP, List.countP_map]
  refine List.countP_congr fun m _ => ?_
  simpa using h.isSome_iff m

theorem ReadsOff.filterMap_filter (h : ReadsOff name p) (members : List Member) :
    (members.filter (Member.IsKnown ·)).filterMap p = members.filterMap p := by
  rw [List.filterMap_filter]
  refine List.filterMap_congr fun m _ => ?_
  rcases hp : p m with _ | value
  · simp
  · have hkey : m.key = name := (h.isSome_iff m).mp (by rw [hp]; rfl)
    have hknown : m.IsKnown := by
      rw [Member.IsKnown, hkey]
      exact h.known
    simp [hknown]

/-- Of a field that is given once, the value that is given. -/
theorem ReadsOff.findSome?_eq_some (hp : ReadsOff name p)
    (honce : (members.map Member.key).count name ≤ 1) {value : α} (hm : m ∈ members)
    (hvalue : p m = some value) : members.findSome? p = some value := by
  have hmem : value ∈ members.filterMap p := List.mem_filterMap.mpr ⟨m, hm, hvalue⟩
  rw [← hp.length_filterMap] at honce
  rw [← List.head?_filterMap]
  generalize members.filterMap p = values at hmem honce
  match values, honce with
  | [_], _ => rw [List.mem_singleton.mp hmem, List.head?_cons]

/-- The members that mean something are the same, in any order. -/
def SameKnown (members members' : List Member) : Prop :=
  (members.filter (Member.IsKnown ·)).Perm (members'.filter (Member.IsKnown ·))

theorem SameKnown.count_eq (h : SameKnown members members') (hname : name ∈ fieldNames) :
    (members.map Member.key).count name = (members'.map Member.key).count name := by
  have hcount (members : List Member) :
      ((members.filter (Member.IsKnown ·)).map Member.key).count name =
        (members.map Member.key).count name := by
    rw [List.count_eq_countP, List.count_eq_countP, List.countP_map, List.countP_map,
      List.countP_filter]
    refine List.countP_congr fun m _ => ?_
    simp only [Function.comp_apply, beq_iff_eq, Bool.and_eq_true, decide_eq_true_eq,
      and_iff_left_iff_imp]
    rintro rfl
    exact hname
  rw [← hcount members, ← hcount members']
  exact (h.map Member.key).count_eq name

/-- A field that is given at most once has the same value in any order. -/
theorem SameKnown.findSome?_eq (h : SameKnown members members') (hp : ReadsOff name p)
    (honce : (members.map Member.key).count name ≤ 1) :
    members.findSome? p = members'.findSome? p := by
  have hperm : (members.filterMap p).Perm (members'.filterMap p) := by
    rw [← hp.filterMap_filter members, ← hp.filterMap_filter members']
    exact h.filterMap p
  rw [← hp.length_filterMap] at honce
  rw [← List.head?_filterMap, ← List.head?_filterMap]
  generalize members.filterMap p = values at hperm honce
  match values, honce with
  | [], _ => rw [List.nil_perm.mp hperm]
  | [_], _ => rw [List.singleton_perm.mp hperm]

end

/-! ### What a text is read as -/

/-- The field is given twice, or more often. -/
def Repeated (members : List Member) (name : String) : Prop :=
  name ∈ fieldNames ∧ 2 ≤ (members.map Member.key).count name

instance (members : List Member) : Decidable (∃ name, Repeated members name) :=
  inferInstanceAs
    (Decidable (∃ name, name ∈ fieldNames ∧ 2 ≤ (members.map Member.key).count name))

theorem count_le_one (h : ¬ ∃ name, Repeated members name) (hname : name ∈ fieldNames) :
    (members.map Member.key).count name ≤ 1 := by
  by_contra hcount
  exact h ⟨name, hname, by omega⟩

theorem timesGiven_empty (members : List Member) (name : String) :
    ({} : Draft).timesGiven members name = (members.map Member.key).count name := by
  simp [Draft.timesGiven, Draft.given]

/-- If no field is given twice, everything that the members say is in the draft. -/
theorem ofMembers_of_not_repeated (h : ¬ ∃ name, Repeated members name) :
    ofMembers members =
      match (({} : Draft).filled members).complete with
      | none => .error (.mismatch (.missingField "findText"))
      | some request => .ok request := by
  rcases foldlM_take {} members with ⟨_, hok⟩ | ⟨name, hname, htwice, _⟩
  · rw [ofMembers, hok]
  · rw [timesGiven_empty] at htwice
    exact absurd ⟨name, hname, htwice⟩ h

theorem ofMembers_of_repeated (h : ∃ name, Repeated members name) :
    ∃ name, Repeated members name ∧
      ofMembers members = .error (.mismatch (.duplicateField name)) := by
  rcases foldlM_take {} members with ⟨honce, _⟩ | ⟨name, hname, htwice, herror⟩
  · obtain ⟨name, hname, htwice⟩ := h
    have hle := honce name hname
    rw [timesGiven_empty] at hle
    omega
  · rw [timesGiven_empty] at htwice
    exact ⟨name, ⟨hname, htwice⟩, by rw [ofMembers, herror]⟩

theorem ofMembers_of_findText (h : ¬ ∃ name, Repeated members name) {findText : String}
    (hmem : .findText findText ∈ members) :
    ofMembers members = .ok
      { findText
        replaceText := (members.findSome? Member.replaceText?).getD ""
        nullTerminate := (members.findSome? Member.nullTerminate?).getD true
        allowOverflow := (members.findSome? Member.allowOverflow?).getD false } := by
  have hfind : members.findSome? Member.findText? = some findText :=
    readsOff_findText.findSome?_eq_some (count_le_one h readsOff_findText.known) hmem rfl
  simp [ofMembers_of_not_repeated h, Draft.filled, Draft.complete, hfind]

theorem ofMembers_of_no_findText (h : ¬ ∃ name, Repeated members name)
    (hmissing : ∀ findText, .findText findText ∉ members) :
    ofMembers members = .error (.mismatch (.missingField "findText")) := by
  have hfind : members.findSome? Member.findText? = none := by
    rw [List.findSome?_eq_none_iff]
    intro m hm
    cases m with
    | findText value => exact absurd hm (hmissing value)
    | _ => rfl
  simp [ofMembers_of_not_repeated h, Draft.filled, Draft.complete, hfind]

theorem SameKnown.toOption_ofMembers (h : SameKnown members members') :
    (ofMembers members').toOption = (ofMembers members).toOption := by
  have hrepeated (name : String) : Repeated members' name ↔ Repeated members name :=
    and_congr_right fun hname => by rw [h.count_eq hname]
  by_cases htwice : ∃ name, Repeated members name
  · obtain ⟨_, _, herror⟩ := ofMembers_of_repeated htwice
    obtain ⟨_, _, herror'⟩ := ofMembers_of_repeated ((exists_congr hrepeated).mpr htwice)
    rw [herror, herror']
    rfl
  · have hsame {α : Type} {name : String} {p : Member → Option α} (hp : ReadsOff name p) :
        members.findSome? p = members'.findSome? p :=
      h.findSome?_eq hp (count_le_one htwice hp.known)
    have hfilled : ({} : Draft).filled members = ({} : Draft).filled members' := by
      simp only [Draft.filled, hsame readsOff_findText, hsame readsOff_replaceText,
        hsame readsOff_nullTerminate, hsame readsOff_allowOverflow]
    rw [ofMembers_of_not_repeated htwice, hfilled,
      ofMembers_of_not_repeated fun h' => htwice ((exists_congr hrepeated).mp h')]

/-- **A request is what the members of its object say**, in whatever order they stand, with whatever
blanks and escapes, and whatever other members stand between them. If no field is given twice and
the text to find is given, the request has what is given and otherwise its defaults. If the text to
find is missing, or if a field is given twice, there is no request. A text with the same members
that mean something, in another order or among other members, gives the same request or none
either. -/
theorem parse_respects_members (h : ObjectText members text.toList) :
    ((¬ ∃ name, Repeated members name) → ∀ findText, .findText findText ∈ members →
      parse text = .ok
        { findText
          replaceText := (members.findSome? Member.replaceText?).getD ""
          nullTerminate := (members.findSome? Member.nullTerminate?).getD true
          allowOverflow := (members.findSome? Member.allowOverflow?).getD false }) ∧
    ((∀ findText, .findText findText ∉ members) →
      parse text = .error (.mismatch (.missingField "findText")) ∨
        ∃ name, Repeated members name ∧
          parse text = .error (.mismatch (.duplicateField name))) ∧
    ((∃ name, Repeated members name) →
      ∃ name, Repeated members name ∧
        parse text = .error (.mismatch (.duplicateField name))) ∧
    ∀ members' text', ObjectText members' text'.toList → SameKnown members members' →
      (parse text').toOption = (parse text).toOption := by
  rw [parse_of_objectText h]
  refine ⟨fun honce _ => ofMembers_of_findText honce, fun hmissing => ?_, ofMembers_of_repeated,
    fun members' text' h' hsame => ?_⟩
  · by_cases htwice : ∃ name, Repeated members name
    · exact Or.inr (ofMembers_of_repeated htwice)
    · exact Or.inl (ofMembers_of_no_findText htwice hmissing)
  · rw [parse_of_objectText h']
    exact hsame.toOption_ofMembers

/-- A member that means nothing comes first, with half of a surrogate pair for a key in it, and with
a string in which a brace and a quote stand. The last key is written with an escape. -/
theorem parse_respects_members_nested :
    ObjectText [.other "note" (by decide), .allowOverflow true, .findText "A"]
        ("\x7b \"note\":\x7b\"\\ud800\":[\"\x7d\\\"\" ,-1.50e+3]\x7d,\n" ++
          "\"allowOverflow\":true , \"\\u0066indText\" : \"A\"\x7d").toList ∧
      parse ("\x7b \"note\":\x7b\"\\ud800\":[\"\x7d\\\"\" ,-1.50e+3]\x7d,\n" ++
          "\"allowOverflow\":true , \"\\u0066indText\" : \"A\"\x7d") =
        .ok ⟨"A", "", true, true⟩ := by
  have hstring : IsValue "\"\x7d\\\"\"".toList :=
    @IsValue.string "\x7d\\\"".toList
      (.plain (by decide) (by decide) (by decide) (.short (by decide) .nil))
  have hnumber : IsValue "-1.50e+3".toList :=
    .number (@IsNumber.intro ['-'] ['1'] ['.', '5', '0'] ['e', '+', '3'] (by decide)
      (.digits rfl (by decide) (by decide)) (.digits rfl (by decide))
      (@IsExponent.digits 'e' '3' ['+'] [] (by decide) (by decide) rfl (by decide)))
  have harray : IsValue "[\"\x7d\\\"\" ,-1.50e+3]".toList :=
    @IsValue.array [] [⟨[], "\"\x7d\\\"\"".toList, [' ']⟩, ⟨[], "-1.50e+3".toList, []⟩] (by decide)
      (by decide) (by simpa using ⟨hstring, hnumber⟩)
  have hnote : IsValue "\x7b\"\\ud800\":[\"\x7d\\\"\" ,-1.50e+3]\x7d".toList :=
    @IsValue.object [] [⟨⟨[], "\\ud800".toList, []⟩,
      ⟨[], "[\"\x7d\\\"\" ,-1.50e+3]".toList, []⟩⟩] (by decide) (by decide)
      (by simpa using .unit (.digits rfl rfl rfl rfl) .nil) (by simpa using harray)
  have hkey : StringText "findText".toList "\\u0066indText".toList :=
    @StringText.cons 'f' "indText".toList "\\u0066".toList "indText".toList
      (@CharText.unit 'f' ['0', '0', '6', '6']
        (@UnitText.digits '0' '0' '6' '6' 0 0 6 6 rfl rfl rfl rfl))
      (stringText_of_plain (by decide))
  have hpieces : List.Forall₂ Member.Writes
      [.other "note" (by decide), .allowOverflow true, .findText "A"]
      [⟨⟨[' '], "note".toList, []⟩,
          ⟨[], "\x7b\"\\ud800\":[\"\x7d\\\"\" ,-1.50e+3]\x7d".toList, []⟩⟩,
        ⟨⟨['\n'], "allowOverflow".toList, []⟩, ⟨[], "true".toList, [' ']⟩⟩,
        ⟨⟨[' '], "\\u0066indText".toList, [' ']⟩, ⟨[' '], "\"A\"".toList, []⟩⟩] :=
    .cons ⟨by decide, stringText_of_plain (by decide), hnote⟩ <|
      .cons ⟨by decide, stringText_of_plain (by decide), rfl⟩ <|
        .cons ⟨by decide, hkey, ['A'], stringText_of_plain (by decide), rfl⟩ .nil
  have honce : ¬ ∃ name, Repeated
      [.other "note" (by decide), .allowOverflow true, .findText "A"] name := by
    decide
  have hobject := ObjectText.intro allBlank_nil allBlank_nil allBlank_nil hpieces
  exact ⟨hobject, (parse_respects_members hobject).1 honce "A" (by simp)⟩

end Request

end ByteSplice
