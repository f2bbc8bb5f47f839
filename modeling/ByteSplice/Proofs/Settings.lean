import ByteSplice.Settings
import ByteSplice.Proofs.Toml.Reading

/-!
# What settings follow from

Settings are read entry by entry, in the order of the document. Still only its tables count: which
there are, and what is in them under which key. Neither the order nor the notation of anything makes
a difference, and whatever is not given has its default.

## Strictness

`Allows` lists what may be given, section by section and key by key, and `Fits` says that nothing
else is. What the fields of a section take is just what is allowed (`Takes`). Whether an entry is
taken does not depend on what has been taken before, so a fold over the entries succeeds just when
each of them is allowed (`foldlM_eq_ok_iff`).

## Defaults

What a document gives is seen through one field at a time. Only one key in one section changes it
(`get_takeAll`), and keys are not there twice. So a field is what stands under its key. Where
nothing does, it is what it is in the blank section or in the section that is left out, and these
agree (`PolicySettings.blank_eq_default` and its like).

## Main definitions

* `Settings.Allows`, `Settings.Fits` and `Settings.described`.
* `Settings.Takes`

## Main results

* `Settings.ofToml_eq_ok_iff_fits`
* `Settings.parse_respects_tables`
-/

namespace ByteSplice

open Toml

/-! ### Folds over named things -/

section

variable {α β σ ε : Type} {f : σ → α → Except ε σ} {g : σ → α → σ} {p : α → Prop}

/-- A fold in which every step may fail, for reasons that have nothing to do with the state. -/
theorem foldlM_eq_ok_iff {xs : List α}
    (h : ∀ x ∈ xs, ∀ s s', f s x = .ok s' ↔ p x ∧ s' = g s x) (s s' : σ) :
    xs.foldlM f s = .ok s' ↔ (∀ x ∈ xs, p x) ∧ s' = xs.foldl g s := by
  induction xs generalizing s with
  | nil =>
    rw [List.foldlM_nil, List.foldl_nil]
    exact ⟨fun h => ⟨nofun, by cases h; rfl⟩, fun ⟨_, h⟩ => h ▸ rfl⟩
  | cons x xs ih =>
    obtain ⟨hx, hxs⟩ := List.forall_mem_cons.mp h
    rw [List.foldlM_cons, List.foldl_cons, List.forall_mem_cons, and_assoc, ← ih hxs]
    constructor
    · intro hok
      cases hfirst : f s x with
      | error e => simp [hfirst, bind, Except.bind] at hok
      | ok between =>
        obtain ⟨hp, rfl⟩ := (hx s between).mp hfirst
        rw [hfirst] at hok
        exact ⟨hp, hok⟩
    · rintro ⟨hp, hok⟩
      rw [(hx s (g s x)).mpr ⟨hp, rfl⟩]
      exact hok

/-- A fold over things under distinct keys, seen through something that only one key changes. -/
theorem foldl_of_lookup {get : σ → β} {key : String} {put : α → β → β} {step : σ → String × α → σ}
    {xs : List (String × α)} (hkeys : (xs.map Prod.fst).Nodup)
    (hstep : ∀ x ∈ xs, ∀ s, get (step s x) = if x.1 = key then put x.2 (get s) else get s) (s : σ) :
    get (xs.foldl step s) = (xs.lookup key).elim (get s) (put · (get s)) := by
  induction xs generalizing s with
  | nil => rfl
  | cons x xs ih =>
    obtain ⟨k, x⟩ := x
    obtain ⟨hnew, hmore⟩ := List.nodup_cons.mp hkeys
    obtain ⟨hx, hxs⟩ := List.forall_mem_cons.mp hstep
    rw [List.foldl_cons, ih hmore hxs, hx]
    by_cases hk : k = key
    · subst hk
      have hnone : xs.lookup k = none := by
        refine List.lookup_eq_none_iff.mpr fun y hy => ?_
        exact bne_iff_ne.mpr fun heq => hnew (List.mem_map.mpr ⟨y, hy, heq.symm⟩)
      rw [hnone, List.lookup_cons_self, if_pos rfl]
      rfl
    · rw [if_neg hk, List.lookup_cons, beq_eq_false_iff_ne.mpr (Ne.symm hk)]

end

/-! ### Defaults -/

/-- **A section without any field is as good as none.** -/
theorem EncodingSettings.blank_eq_default : EncodingSettings.blank = {} :=
  rfl

theorem PolicySettings.blank_eq_default : PolicySettings.blank = {} :=
  rfl

theorem OutputSettings.blank_eq_default : OutputSettings.blank = {} :=
  rfl

namespace Settings

/-! ### What may be given -/

/-- The value is one that may be given in this section under this key. -/
def Allows (name key : String) : Value → Prop
  | .string x =>
    (name = "encoding" ∧ key = "scheme" ∧ x ∈ ["utf8", "latin1", "hex"]) ∨
      (name = "policy" ∧ key = "zero-match" ∧ x ∈ ["silent", "report"])
  | .boolean _ =>
    (name = "policy" ∧ key ∈ ["null-terminate", "allow-overflow"]) ∨
      (name = "output" ∧ key = "backup")
  | _ => False

/-- The tables are settings: nothing is given that may not be given. -/
structure Fits (t : Tables) : Prop where
  names : ∀ name, t.has name → name ∈ ["encoding", "policy", "output"]
  values : ∀ name key v, t.value? name key = some v → Allows name key v

/-- The encoding that a value names. -/
def encodingOf : Value → Encoding
  | .string "latin1" => .latin1
  | .string "hex" => .hex
  | _ => .utf8

/-- What to do about no match, as a value names it. -/
def zeroMatchOf : Value → ZeroMatch
  | .string "report" => .report
  | _ => .silent

/-- The truth value that a value is. -/
def flagOf : Value → Bool
  | .boolean b => b
  | _ => false

/-- The settings that tables describe: what is given counts, and what is not has its default. -/
def described (t : Tables) : Settings where
  encoding := (t.value? "encoding" "scheme").elim .utf8 encodingOf
  zeroMatch := (t.value? "policy" "zero-match").elim .silent zeroMatchOf
  nullTerminate := (t.value? "policy" "null-terminate").elim true flagOf
  allowOverflow := (t.value? "policy" "allow-overflow").elim false flagOf
  backup := (t.value? "output" "backup").elim false flagOf

/-! ### One value -/

variable {name key : String} {v : Value} {s s' : Settings}

/-- The section about texts with one value given. -/
def giveEncoding (s : EncodingSettings) (member : String × Value) : EncodingSettings where
  encoding := if member.1 = "scheme" then encodingOf member.2 else s.encoding

/-- The section about requests with one value given. -/
def givePolicy (s : PolicySettings) (member : String × Value) : PolicySettings where
  zeroMatch := if member.1 = "zero-match" then zeroMatchOf member.2 else s.zeroMatch
  nullTerminate := if member.1 = "null-terminate" then flagOf member.2 else s.nullTerminate
  allowOverflow := if member.1 = "allow-overflow" then flagOf member.2 else s.allowOverflow

/-- The section about what is written with one value given. -/
def giveOutput (s : OutputSettings) (member : String × Value) : OutputSettings where
  backup := if member.1 = "backup" then flagOf member.2 else s.backup

theorem addEntry_eq_ok_iff {α : Type} {fields : List (Toml.Field α)} {record record' : α}
    {entry : String × Value} :
    addEntry fields record entry = .ok record' ↔
      ∃ field, fields.find? (fun field => field.name = entry.1) = some field ∧
        field.set entry.2 record = .ok record' := by
  unfold addEntry
  cases fields.find? (fun field => field.name = entry.1) <;> simp

section

variable {σ : Type} {fields : List (Toml.Field σ)} {give : σ → String × Value → σ} {x x' : σ}

/-- A truth value is all that a flag takes. -/
theorem map_asFlag_eq_ok_iff (hv : v.IsSimple) (g : Bool → σ) :
    v.asFlag.map g = .ok x' ↔ (∃ b, v = .boolean b) ∧ x' = g (flagOf v) := by
  cases hv <;> simp [Value.asFlag, Except.map, flagOf, eq_comm]

/-- One of the names is all that a field with names takes; `read` tells what it stands for. -/
theorem map_asName_eq_ok_iff {α : Type} {names : List (String × α)} {read : Value → α}
    (hread : ∀ e ∈ names, read (.string e.1) = e.2) (hv : v.IsSimple) (g : α → σ) :
    (v.asName names).map g = .ok x' ↔
      (∃ n ∈ names.map Prod.fst, v = .string n) ∧ x' = g (read v) := by
  cases hv with
  | boolean b => simp [Value.asName, Except.map]
  | string n =>
    cases hn : names.lookup n with
    | none =>
      have hnot : n ∉ names.map Prod.fst := fun hmem => by
        obtain ⟨e, he, rfl⟩ := List.mem_map.mp hmem
        simpa using List.lookup_eq_none_iff.mp hn e he
      simp only [Value.asName, Value.lookupName, hn, Except.map, reduceCtorEq, Value.string.injEq,
        exists_eq_right', hnot, false_and]
    | some a =>
      obtain ⟨front, back, rfl, -⟩ := List.lookup_eq_some_iff.mp hn
      have ha : read (.string n) = a := hread (n, a) (by simp)
      simp [Value.asName, Value.lookupName, hn, Except.map, ha, eq_comm]

/-- The fields of a section take the values that are allowed in it, and those are given then. -/
structure Takes (name : String) (fields : List (Toml.Field σ)) (give : σ → String × Value → σ) :
    Prop where
  set_iff : ∀ field ∈ fields, ∀ v, v.IsSimple → ∀ x x', field.set v x = .ok x' ↔
    Allows name field.name v ∧ x' = give x (field.name, v)
  /-- Nothing is allowed for which there is no field. -/
  complete : ∀ key v, Allows name key v → ∃ field ∈ fields, field.name = key

/-- **One value** is taken just when it is allowed, and is given then. -/
theorem Takes.addEntry_iff (h : Takes name fields give) {member : String × Value}
    (hmember : member.2.IsSimple) :
    addEntry fields x member = .ok x' ↔
      Allows name member.1 member.2 ∧ x' = give x member := by
  obtain ⟨key, v⟩ := member
  rw [addEntry_eq_ok_iff]
  constructor
  · rintro ⟨field, hfind, hset⟩
    obtain rfl : field.name = key := by simpa using List.find?_some hfind
    exact (h.set_iff field (List.mem_of_find?_eq_some hfind) v hmember x x').mp hset
  · rintro ⟨hallows, hgive⟩
    obtain ⟨field, hfind⟩ : ∃ field, fields.find? (fun field => field.name = key) = some field := by
      obtain ⟨field, hfield, hname⟩ := h.complete key v hallows
      refine Option.isSome_iff_exists.mp (List.find?_isSome.mpr ⟨field, hfield, ?_⟩)
      simpa using hname
    obtain rfl : field.name = key := by simpa using List.find?_some hfind
    exact ⟨field, hfind,
      (h.set_iff field (List.mem_of_find?_eq_some hfind) v hmember x x').mpr ⟨hallows, hgive⟩⟩

/-- **One section** is taken just when all its values are allowed. -/
theorem Takes.sectionField_iff (h : Takes name fields give) {shapeName : String} {blank : σ}
    {put : Settings → σ → Settings} {origin : Toml.Origin} {members : Entries}
    (hmembers : ∀ member ∈ members, member.2.IsSimple) :
    (sectionField name shapeName fields blank put).set (.table origin members) s = .ok s' ↔
      (∀ member ∈ members, Allows name member.1 member.2) ∧
        s' = put s (members.foldl give blank) := by
  have hone : ∀ member ∈ members, ∀ x x', addEntry fields x member = .ok x' ↔
      Allows name member.1 member.2 ∧ x' = give x member :=
    fun member hmember x x' => h.addEntry_iff (hmembers member hmember)
  have hfold (x : σ) : addEntries fields members blank = .ok x ↔
      (∀ member ∈ members, Allows name member.1 member.2) ∧ x = members.foldl give blank :=
    foldlM_eq_ok_iff hone blank x
  constructor
  · intro hset
    cases hread : addEntries fields members blank with
    | error e => simp [sectionField, Value.asRecord, hread, Except.map] at hset
    | ok x =>
      obtain ⟨hallowed, rfl⟩ := (hfold x).mp hread
      simp only [sectionField, Value.asRecord, hread, Except.map, Except.ok.injEq] at hset
      exact ⟨hallowed, hset.symm⟩
  · rintro ⟨hallowed, rfl⟩
    simp only [sectionField, Value.asRecord, (hfold _).mpr ⟨hallowed, rfl⟩, Except.map]

end

theorem takes_encoding : Takes "encoding" [schemeField] giveEncoding where
  set_iff field hfield v hv x x' := by
    obtain rfl := List.mem_singleton.mp hfield
    rw [schemeField, @map_asName_eq_ok_iff _ _ _ _ _ encodingOf (by decide) hv]
    cases hv <;> simp [Allows, giveEncoding, Encoding.named, Encoding.name]
  complete key v h := by
    cases v <;> simp_all [Allows, schemeField]

theorem takes_policy :
    Takes "policy" [zeroMatchField, nullTerminateField, allowOverflowField] givePolicy where
  set_iff field hfield v hv x x' := by
    simp only [List.mem_cons, List.not_mem_nil, or_false] at hfield
    rcases hfield with rfl | rfl | rfl
    · rw [zeroMatchField, @map_asName_eq_ok_iff _ _ _ _ _ zeroMatchOf (by decide) hv]
      cases hv <;> simp [Allows, givePolicy, ZeroMatch.named, ZeroMatch.name]
    · rw [nullTerminateField, map_asFlag_eq_ok_iff hv]
      cases hv <;> simp [Allows, givePolicy]
    · rw [allowOverflowField, map_asFlag_eq_ok_iff hv]
      cases hv <;> simp [Allows, givePolicy]
  complete key v h := by
    cases v <;>
      simp_all [Allows, zeroMatchField, nullTerminateField, allowOverflowField, eq_comm]

theorem takes_output : Takes "output" [backupField] giveOutput where
  set_iff field hfield v hv x x' := by
    obtain rfl := List.mem_singleton.mp hfield
    rw [backupField, map_asFlag_eq_ok_iff hv]
    cases hv <;> simp [Allows, giveOutput]
  complete key v h := by
    cases v <;> simp_all [Allows, backupField]

/-! ### One section -/

/-- The members of a section. -/
def membersOf : Value → Entries
  | .table _ members => members
  | _ => []

/-- The settings with one section given. -/
def take (s : Settings) (entry : String × Value) : Settings where
  toEncodingSettings :=
    if entry.1 = "encoding" then (membersOf entry.2).foldl giveEncoding .blank
    else s.toEncodingSettings
  toPolicySettings :=
    if entry.1 = "policy" then (membersOf entry.2).foldl givePolicy .blank
    else s.toPolicySettings
  toOutputSettings :=
    if entry.1 = "output" then (membersOf entry.2).foldl giveOutput .blank
    else s.toOutputSettings

/-- **One section** is taken just when there is one of this name and all its values are allowed. -/
theorem addEntry_sections_eq_ok_iff {entry : String × Value}
    (hentry : ∃ origin members, entry.2 = .table origin members ∧
      ∀ member ∈ members, member.2.IsSimple) (s s' : Settings) :
    addEntry sections s entry = .ok s' ↔
      (entry.1 ∈ ["encoding", "policy", "output"] ∧
        ∀ member ∈ membersOf entry.2, Allows entry.1 member.1 member.2) ∧
      s' = take s entry := by
  obtain ⟨name, v⟩ := entry
  obtain ⟨origin, members, hv, hmembers⟩ := hentry
  cases hv
  by_cases hname : name ∈ ["encoding", "policy", "output"]
  · simp only [hname, true_and, membersOf]
    simp only [List.mem_cons, List.not_mem_nil, or_false] at hname
    rcases hname with rfl | rfl | rfl
    · exact takes_encoding.sectionField_iff hmembers
    · exact takes_policy.sectionField_iff hmembers
    · exact takes_output.sectionField_iff hmembers
  · have hnone : sections.find? (fun field => field.name = name) = none := by
      refine List.find?_eq_none.mpr fun field hfield => ?_
      simp only [sections, List.mem_cons, List.not_mem_nil, or_false] at hfield
      rcases hfield with rfl | rfl | rfl <;> simp_all [sectionField, eq_comm]
    simp [addEntry, hnone, hname]

/-! ### All sections -/

variable {document : Entries}

/-- What is given in the sections, taken into the settings. -/
def takeAll (s : Settings) (document : Entries) : Settings :=
  document.foldl take s

theorem ofToml_eq_ok_iff (h : document.IsSectioned) :
    ofToml document = .ok s ↔
      (∀ entry ∈ document, entry.1 ∈ ["encoding", "policy", "output"] ∧
        ∀ member ∈ membersOf entry.2, Allows entry.1 member.1 member.2) ∧
      s = takeAll {} document :=
  foldlM_eq_ok_iff (fun entry hentry => addEntry_sections_eq_ok_iff (h entry hentry)) {} s

theorem value?_eq (document : Entries) (name key : String) :
    document.tables.value? name key =
      (document.lookup name).bind fun v => (membersOf v).lookup key := by
  rw [Entries.tables]
  dsimp only
  cases document.lookup name with
  | none => rfl
  | some v => cases v <;> rfl

theorem membersOf_keys_nodup (hv : v.IsTidy) : ((membersOf v).map Prod.fst).Nodup := by
  cases hv with
  | table hkeys hvalues => exact hkeys
  | _ => exact List.nodup_nil

/-- **What is given, seen through one field.** Where the section is left out, the field is that of
the default, and where only the key is left out it is that of the blank section. -/
theorem get_takeAll {σ β : Type} {part : Settings → σ} {give : σ → String × Value → σ} {blank : σ}
    {get : σ → β} {put : Value → β}
    (hpart : ∀ s (entry : String × Value), part (take s entry) =
      if entry.1 = name then (membersOf entry.2).foldl give blank else part s)
    (hget : ∀ x (member : String × Value), get (give x member) =
      if member.1 = key then put member.2 else get x)
    (hblank : blank = part {}) (htidy : document.IsTidy) :
    get (part (takeAll {} document)) =
      (document.tables.value? name key).elim (get (part {})) put := by
  have hmembers (v : Value) (hv : v.IsTidy) : get ((membersOf v).foldl give blank) =
      ((membersOf v).lookup key).elim (get blank) put :=
    @foldl_of_lookup _ _ _ get key (fun v _ => put v) _ _ (membersOf_keys_nodup hv)
      (fun member _ x => hget x member) blank
  rw [takeAll, @foldl_of_lookup _ _ _ part name (fun v _ => (membersOf v).foldl give blank) take
    document htidy.keys (fun entry _ s => hpart s entry), value?_eq]
  cases hlookup : document.lookup name with
  | none => rfl
  | some v =>
    have hv := htidy.values _ (Entries.mem_of_lookup hlookup)
    rw [Option.elim_some, hmembers v hv, ← hblank]
    rfl

theorem takeAll_eq_described (htidy : document.IsTidy) :
    takeAll {} document = described document.tables := by
  have hencoding := @get_takeAll "encoding" "scheme" _ _ _ toEncodingSettings giveEncoding _
    EncodingSettings.encoding encodingOf (fun _ _ => rfl) (fun _ _ => rfl)
    EncodingSettings.blank_eq_default htidy
  have hzeroMatch := @get_takeAll "policy" "zero-match" _ _ _ toPolicySettings givePolicy _
    PolicySettings.zeroMatch zeroMatchOf (fun _ _ => rfl) (fun _ _ => rfl)
    PolicySettings.blank_eq_default htidy
  have hnullTerminate := @get_takeAll "policy" "null-terminate" _ _ _ toPolicySettings givePolicy _
    PolicySettings.nullTerminate flagOf (fun _ _ => rfl) (fun _ _ => rfl)
    PolicySettings.blank_eq_default htidy
  have hallowOverflow := @get_takeAll "policy" "allow-overflow" _ _ _ toPolicySettings givePolicy _
    PolicySettings.allowOverflow flagOf (fun _ _ => rfl) (fun _ _ => rfl)
    PolicySettings.blank_eq_default htidy
  have hbackup := @get_takeAll "output" "backup" _ _ _ toOutputSettings giveOutput _
    OutputSettings.backup flagOf (fun _ _ => rfl) (fun _ _ => rfl)
    OutputSettings.blank_eq_default htidy
  rw [described, ← hencoding, ← hzeroMatch, ← hnullTerminate, ← hallowOverflow, ← hbackup]

theorem fits_iff (htidy : document.IsTidy) :
    Fits document.tables ↔
      ∀ entry ∈ document, entry.1 ∈ ["encoding", "policy", "output"] ∧
        ∀ member ∈ membersOf entry.2, Allows entry.1 member.1 member.2 := by
  constructor
  · rintro ⟨hnames, hvalues⟩ ⟨name, v⟩ hentry
    have hlookup := Entries.lookup_of_mem htidy.keys hentry
    refine ⟨hnames name ?_, fun ⟨key, w⟩ hmember => hvalues name key w ?_⟩
    · simp [Entries.tables, hlookup]
    · rw [value?_eq, hlookup]
      exact Entries.lookup_of_mem (membersOf_keys_nodup (htidy.values _ hentry)) hmember
  · intro hall
    constructor
    · intro name hhas
      obtain ⟨v, hv⟩ := Option.isSome_iff_exists.mp hhas
      exact (hall _ (Entries.mem_of_lookup hv)).1
    · intro name key w hw
      rw [value?_eq] at hw
      obtain ⟨v, hv, hw⟩ := Option.bind_eq_some_iff.mp hw
      exact (hall _ (Entries.mem_of_lookup hv)).2 _ (Entries.mem_of_lookup hw)

/-- **Settings are what the tables describe**, if the tables fit. -/
theorem ofToml_eq_ok_iff_fits (htidy : document.IsTidy) (h : document.IsSectioned) :
    ofToml document = .ok s ↔ Fits document.tables ∧ s = described document.tables := by
  rw [ofToml_eq_ok_iff h, fits_iff htidy, takeAll_eq_described htidy]

/-! ### Texts -/

variable {text text' : String} {document' : Entries}

/-- **A text gives settings just when its tables fit**, and then those that they describe. -/
theorem parse_eq_ok_iff (hparse : Toml.parse text = some document) (h : document.IsSectioned) :
    parse text = .ok s ↔ Fits document.tables ∧ s = described document.tables := by
  rw [← ofToml_eq_ok_iff_fits (Toml.parse_isTidy hparse) h]
  cases hsettings : ofToml document <;> simp [parse, hparse, hsettings]

/-- If they do not fit, that is what is wrong with the text. -/
theorem parse_of_not_fits (hparse : Toml.parse text = some document) (h : document.IsSectioned)
    (hfits : ¬ Fits document.tables) : ∃ cause, parse text = .error (.mismatch cause) := by
  cases hsettings : ofToml document with
  | error cause => exact ⟨cause, by simp [parse, hparse, hsettings]⟩
  | ok s =>
    have htidy := Toml.parse_isTidy hparse
    exact absurd ((ofToml_eq_ok_iff_fits htidy h).mp hsettings).1 hfits

/-- Texts with the same tables give the same settings, or none. -/
theorem toOption_parse_eq (hparse : Toml.parse text = some document) (h : document.IsSectioned)
    (hparse' : Toml.parse text' = some document') (h' : document'.IsSectioned)
    (htables : document.tables = document'.tables) :
    (parse text).toOption = (parse text').toOption := by
  refine Option.ext fun s => ?_
  have hok (r : Except SettingsFault Settings) : r.toOption = some s ↔ r = .ok s := by
    cases r <;> simp [Except.toOption]
  rw [hok, hok, parse_eq_ok_iff hparse h, parse_eq_ok_iff hparse' h', htables]

/-- **Settings follow from the tables of a document**, and from nothing else. -/
theorem parse_respects_tables :
    (∀ text document, Toml.parse text = some document → document.IsSectioned →
      ((∃ s, parse text = .ok s) ↔ Fits document.tables) ∧
      (∀ s, parse text = .ok s → s = described document.tables) ∧
      (¬ Fits document.tables → ∃ cause, parse text = .error (.mismatch cause))) ∧
    (∀ text text' document document', Toml.parse text = some document → document.IsSectioned →
      Toml.parse text' = some document' → document'.IsSectioned →
      document.tables = document'.tables → (parse text).toOption = (parse text').toOption) ∧
    (∀ items text, Writes items text →
      ∃ document, Toml.parse text = some document ∧ document.IsSectioned ∧
        (∀ name, document.tables.has name ↔ Names items name) ∧
        ∀ name key v, document.tables.value? name key = some v ↔ Says items name key v) ∧
    ∀ items items' text text', Writes items text → Writes items' text' →
      SaySame items items' → (parse text).toOption = (parse text').toOption := by
  refine ⟨fun text document hparse h => ⟨?_, ?_, parse_of_not_fits hparse h⟩,
    fun text text' document document' hparse h hparse' h' => toOption_parse_eq hparse h hparse' h',
    fun items text hwrites => ?_, fun items items' text text' hwrites hwrites' hsame => ?_⟩
  · simp only [parse_eq_ok_iff hparse h, exists_and_left, exists_eq, and_true]
  · exact fun s hs => ((parse_eq_ok_iff hparse h).mp hs).2
  · obtain ⟨document, hparse, h, hholds⟩ := hwrites.parse
    exact ⟨document, hparse, h, fun _ => hholds.has_iff, fun _ _ _ => hholds.value?_iff⟩
  · obtain ⟨document, hparse, h, hholds⟩ := hwrites.parse
    obtain ⟨document', hparse', h', hholds'⟩ := hwrites'.parse
    exact toOption_parse_eq hparse h hparse' h' (hholds.tables_eq hholds' hsame)

/-- A byte order mark and a comment, a dotted key, a table between braces, a header, a string with
an escape, and both kinds of line end. -/
theorem writes_mixed :
    Writes [.dotted "policy" "zero-match" (.string "report"),
        .inline "output" [("backup", .boolean true)],
        .header "encoding" [("scheme", .string "hex")]]
      ("\ufeff# defaults\r\n\"policy\" . zero-match = 'report' # dotted\n" ++
        "output=\x7b backup=true \x7d\n\n[encoding]\nscheme=\"h\\u0065x\"") := by
  have hpolicy : KeyText "policy" "\"policy\"".toList :=
    @KeyText.basic "policy" "policy".toList (basicText_of_plain (by decide))
  have hdotted : DottedText ["policy"] "zero-match" "\"policy\" . zero-match".toList :=
    @DottedText.dot "policy" "zero-match" [] "\"policy\"".toList [' '] [' '] "zero-match".toList
      hpolicy (by decide) (by decide) (.last (.bare (by decide) (by decide)))
  have hzeroMatch : LineText (.pair ⟨["policy"], "zero-match", .string "report"⟩)
      "\"policy\" . zero-match = 'report'".toList :=
    .pair (@PairText.intro _ ⟨["policy"], "zero-match", .string "report"⟩
      "\"policy\" . zero-match".toList [' '] [' '] "'report'".toList hdotted (by decide) (by decide)
      (by decide) (.simple (.string (.literal (by decide)))))
  have hbackup : PairsText [⟨[], "backup", .boolean true⟩] " backup=true ".toList :=
    @PairsText.last ⟨[], "backup", .boolean true⟩ [' '] "backup=true".toList [' '] (by decide)
      (@PairText.intro _ ⟨[], "backup", .boolean true⟩ "backup".toList [] [] "true".toList
        (.last (.bare (by decide) (by decide))) (by decide) (by decide) (by decide) .yes)
      (by decide)
  have houtput : LineText (.pair ⟨[], "output", .table .inline [("backup", .boolean true)]⟩)
      "output=\x7b backup=true \x7d".toList :=
    .pair (@PairText.intro _ ⟨[], "output", .table .inline [("backup", .boolean true)]⟩
      "output".toList [] [] "\x7b backup=true \x7d".toList (.last (.bare (by decide) (by decide)))
      (by decide) (by decide) (by decide)
      (@ValueText.inline [("backup", .boolean true)] " backup=true ".toList (by decide) hbackup))
  have hhex : BasicText "hex".toList "h\\u0065x".toList :=
    .plain (by decide) (by decide) (by decide) (@BasicText.escape 'e' ['x'] "u0065".toList ['x']
      (@EscapeText.code 'e' "0065".toList ⟨rfl, [0, 0, 6, 5], by simp [hexValue?], rfl⟩)
      (basicText_of_plain (by decide)))
  have hlines := LinesText.empty (@IsMargin.comment [] " defaults".toList nofun (by decide)) .crlf
    (@LinesText.cons _ _ [] _ " # dotted".toList _ _ nofun hzeroMatch
      (@IsMargin.comment [' '] " dotted".toList (by decide) (by decide)) .lf
      (linesText_cons houtput (.empty isMargin_nil .lf
        (linesText_cons (@lineText_header "encoding" (by decide) (by decide))
          (linesText_last (@lineText_pair "scheme" _ _ (by decide) (by decide)
            (.string (.basic hhex))))))))
  refine ⟨?_, Eq.mp (congrArg (DocumentText _) ?_) (.marked hlines)⟩
  · decide
  · decide +kernel

/-- Headers only, in another order. -/
theorem writes_headers :
    Writes [.header "output" [("backup", .boolean true)],
        .header "encoding" [("scheme", .string "hex")],
        .header "policy" [("zero-match", .string "report")]]
      ("[output]\nbackup=true\n[encoding]\nscheme=\"\"\"\nhe\\\n  x\"\"\"\n" ++
        "[policy]\nzero-match=\"report\"") := by
  have hfold : ManyText '"' true "hex".toList "he\\\n  x\"\"\"".toList :=
    .plain (by decide) (by decide) (by decide) (.plain (by decide) (by decide) (by decide)
      (@ManyText.fold '"' true ['x'] [] ['\n'] [' ', ' '] "x\"\"\"".toList rfl (by decide) .lf
        (.blanks (by decide)) (by simp [isBlank])
        (.plain (by decide) (by decide) (by decide) (@ManyText.stop '"' true 0 (by decide)))))
  have hhex : StringText "hex".toList "\"\"\"\nhe\\\n  x\"\"\"".toList :=
    @StringText.many '"' true "hex".toList ['\n'] "he\\\n  x\"\"\"".toList (by decide) (Or.inl .lf)
      hfold
  have hreport : StringText "report".toList "\"report\"".toList :=
    .basic (basicText_of_plain (by decide))
  have hlines := linesText_cons (@lineText_header "output" (by decide) (by decide))
    (linesText_cons (@lineText_pair "backup" _ _ (by decide) (by decide) .yes)
      (linesText_cons (@lineText_header "encoding" (by decide) (by decide))
        (linesText_cons (@lineText_pair "scheme" _ _ (by decide) (by decide) (.string hhex))
          (linesText_cons (@lineText_header "policy" (by decide) (by decide))
            (linesText_last (@lineText_pair "zero-match" _ _ (by decide) (by decide)
              (.string hreport)))))))
  refine ⟨?_, Eq.mp (congrArg (DocumentText _) ?_) (.plain hlines)⟩
  · decide
  · decide +kernel

/-- A key that is written with a line below. -/
theorem writes_misspelt :
    Writes [.header "policy" [("allow_overflow", .boolean true)]]
      "[policy]\nallow_overflow=true" := by
  have hlines := linesText_cons (@lineText_header "policy" (by decide) (by decide))
    (linesText_last (@lineText_pair "allow_overflow" _ _ (by decide) (by decide) .yes))
  refine ⟨?_, Eq.mp (congrArg (DocumentText _) ?_) (.plain hlines)⟩
  · decide
  · decide +kernel

/-- The first two texts say the same, and what they do not say has its default. The third is good
TOML, but no settings. -/
theorem parse_respects_tables_mixed :
    parse ("\ufeff# defaults\r\n\"policy\" . zero-match = 'report' # dotted\n" ++
        "output=\x7b backup=true \x7d\n\n[encoding]\nscheme=\"h\\u0065x\"") =
      .ok { encoding := .hex, zeroMatch := .report, backup := true } ∧
    (parse ("[output]\nbackup=true\n[encoding]\nscheme=\"\"\"\nhe\\\n  x\"\"\"\n" ++
        "[policy]\nzero-match=\"report\"")).toOption =
      (parse ("\ufeff# defaults\r\n\"policy\" . zero-match = 'report' # dotted\n" ++
        "output=\x7b backup=true \x7d\n\n[encoding]\nscheme=\"h\\u0065x\"")).toOption ∧
    ∃ cause, parse "[policy]\nallow_overflow=true" = .error (.mismatch cause) := by
  obtain ⟨hfits, -, hread, hsame⟩ := parse_respects_tables
  refine ⟨?_, hsame _ _ _ _ writes_headers writes_mixed ⟨fun name => ?_, fun name key v => ?_⟩, ?_⟩
  · obtain ⟨document, hparse, hsectioned, hnames, hvalues⟩ := hread _ _ writes_mixed
    obtain ⟨hiff, heq, -⟩ := hfits _ _ hparse hsectioned
    have hfit : Fits document.tables := by
      constructor
      · intro name h
        have hname := (hnames name).mp h
        simp only [Names, List.mem_cons, List.not_mem_nil, or_false, exists_eq_or_imp,
          exists_eq_left, Item.name] at hname
        rcases hname with rfl | rfl | rfl <;> decide
      · intro name key v h
        have hmember := (hvalues name key v).mp h
        simp only [Says, List.mem_cons, List.not_mem_nil, or_false, exists_eq_or_imp,
          exists_eq_left, Item.name, Item.members, Prod.mk.injEq] at hmember
        rcases hmember with ⟨rfl, rfl, rfl⟩ | ⟨rfl, rfl, rfl⟩ | ⟨rfl, rfl, rfl⟩ <;> simp [Allows]
    obtain ⟨s, hs⟩ := hiff.mpr hfit
    have hnone {name key : String} (h : ∀ v, ¬ Says _ name key v) :
        document.tables.value? name key = none :=
      Option.eq_none_iff_forall_ne_some.mpr fun v hv => h v ((hvalues name key v).mp hv)
    have hscheme := (hvalues "encoding" "scheme" (.string "hex")).mpr
      (by simp [Says, Item.name, Item.members])
    have hzeroMatch := (hvalues "policy" "zero-match" (.string "report")).mpr
      (by simp [Says, Item.name, Item.members])
    have hbackup := (hvalues "output" "backup" (.boolean true)).mpr
      (by simp [Says, Item.name, Item.members])
    have hnullTerminate : document.tables.value? "policy" "null-terminate" = none :=
      hnone (by simp [Says, Item.name, Item.members])
    have hallowOverflow : document.tables.value? "policy" "allow-overflow" = none :=
      hnone (by simp [Says, Item.name, Item.members])
    rw [hs, heq s hs, described, hscheme, hzeroMatch, hbackup, hnullTerminate, hallowOverflow]
    rfl
  · simp [Names, Item.name]
    tauto
  · simp [Says, Item.name, Item.members]
    tauto
  · obtain ⟨document, hparse, hsectioned, -, hvalues⟩ := hread _ _ writes_misspelt
    refine (hfits _ _ hparse hsectioned).2.2 fun hfit => ?_
    have hvalue := (hvalues "policy" "allow_overflow" (.boolean true)).mpr
      (by simp [Says, Item.name, Item.members])
    simpa [Allows] using hfit.values _ _ _ hvalue

end Settings

end ByteSplice
