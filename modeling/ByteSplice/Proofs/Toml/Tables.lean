import ByteSplice.Proofs.Toml.Tidy
import Mathlib.Tactic.SplitIfs

/-!
# Three notations for the same tables

Settings need no more of TOML than tables of strings and truth values. There are three ways to write
such a table: under a header, between braces, or value by value with dotted keys. Each table is
written in one of them. The tables may come in any order, except that what stands below a header is
in its table, so headers come last; and values with dotted keys need not stand together.

## Two views

A document that has been read is looked at through `Entries.tables`, which tells which tables there
are and what is in them, but neither in which order nor how they were written.

A document that is to be written is a list of `Item`s. What it says is which names its items have
(`Names`) and what they put there (`Says`). Both only ask whether there is such an item, so neither
depends on order or notation.

Putting the items together gives a document with just these tables (`add_items`). The induction goes
over the items from the front and keeps `Holds`: what is looked up so far is what the items so far
say. An item that is `Apart` from them finds its name free, or, if it is a dotted key, a table that
other dotted keys have made.

## Main definitions

* `Tables`, `Entries.tables` and `Entries.IsSectioned`.
* `Item`, `IsDocument`, `Names`, `Says` and `SaySame`.
* `Line` and `Item.lines`; `sectionsOf`, the sections that lines make up.

## Main results

* `saySame_of_perm`, `saySame_cons`, `saySame_dotted`: neither order nor notation matters.
* `add_items`: the items of a document are put together without a fault.
* `ofSections_sectionsOf`: the lines of the items make up what the items do.
* `Holds.isSectioned`, `Holds.has_iff`, `Holds.value?_iff`.
-/

namespace ByteSplice.Toml

/-! ### What has been read -/

/-- What a value in a section is: a string or a truth value. -/
inductive Value.IsSimple : Value → Prop
  | string (s : String) : IsSimple (.string s)
  | boolean (b : Bool) : IsSimple (.boolean b)

instance : DecidablePred Value.IsSimple
  | .string s => isTrue (.string s)
  | .boolean b => isTrue (.boolean b)
  | .integer _ | .float _ | .datetime | .array _ | .table _ _ | .tables _ => isFalse nofun

/-- Tables at the top of a document, for whoever looks up names and keys. -/
@[ext] structure Tables where
  /-- There is a table of this name. -/
  has : String → Bool
  /-- The value in the table of this name under this key. -/
  value? : String → String → Option Value

namespace Entries

/-- The tables of a document. -/
def tables (document : Entries) : Tables where
  has name := (document.lookup name).isSome
  value? name key :=
    match document.lookup name with
    | some (.table _ inner) => inner.lookup key
    | _ => none

/-- At the top there are only tables, and in them only strings and truth values. -/
def IsSectioned (document : Entries) : Prop :=
  ∀ entry ∈ document, ∃ origin inner, entry.2 = .table origin inner ∧
    ∀ member ∈ inner, member.2.IsSimple

end Entries

/-! ### What is to be written -/

/-- Keys and their values, in the order in which they are written. -/
abbrev Members := List (String × Value)

/-- One piece of a document. -/
inductive Item
  /-- A value under a dotted key of two parts. -/
  | dotted (name key : String) (value : Value)
  /-- A table between braces. -/
  | inline (name : String) (members : Members)
  /-- A header with what stands below it. -/
  | header (name : String) (members : Members)

namespace Item

/-- The table that the item is about. -/
def name : Item → String
  | dotted name _ _ | inline name _ | header name _ => name

/-- What the item puts into it. -/
def members : Item → Members
  | dotted _ key value => [(key, value)]
  | inline _ members | header _ members => members

/-- How the table comes about. -/
def origin : Item → Origin
  | dotted _ _ _ => .dotted
  | inline _ _ => .inline
  | header _ _ => .header

/-- Two items do not give the same thing: they are about different tables, or both are dotted and
have different keys. -/
def Apart : Item → Item → Prop
  | dotted name key _, dotted name' key' _ => name = name' → key ≠ key'
  | a, b => a.name ≠ b.name

instance : DecidableRel Item.Apart
  | dotted name key _, dotted name' key' _ =>
    inferInstanceAs (Decidable (name = name' → key ≠ key'))
  | dotted name _ _, inline name' _ | dotted name _ _, header name' _
  | inline name _, dotted name' _ _ | inline name _, inline name' _ | inline name _, header name' _
  | header name _, dotted name' _ _ | header name _, inline name' _
  | header name _, header name' _ =>
    inferInstanceAs (Decidable (name ≠ name'))

/-- No key is given twice, and all values are simple. -/
structure IsGood (a : Item) : Prop where
  keys : (a.members.map Prod.fst).Nodup
  values : ∀ member ∈ a.members, member.2.IsSimple

instance (a : Item) : Decidable a.IsGood :=
  decidable_of_iff ((a.members.map Prod.fst).Nodup ∧ ∀ member ∈ a.members, member.2.IsSimple)
    ⟨fun h => ⟨h.1, h.2⟩, fun h => ⟨h.keys, h.values⟩⟩

end Item

/-- The items can stand in one document, in this order. -/
structure IsDocument (items : List Item) : Prop where
  good : ∀ a ∈ items, a.IsGood
  apart : items.Pairwise Item.Apart
  /-- Headers come last. -/
  order : items.Pairwise fun a b => a.origin = .header → b.origin = .header

instance (items : List Item) : Decidable (IsDocument items) :=
  decidable_of_iff ((∀ a ∈ items, a.IsGood) ∧ items.Pairwise Item.Apart ∧
      items.Pairwise fun a b => a.origin = .header → b.origin = .header)
    ⟨fun h => ⟨h.1, h.2.1, h.2.2⟩, fun h => ⟨h.good, h.apart, h.order⟩⟩

/-- Some item is about the table of this name. -/
def Names (items : List Item) (name : String) : Prop :=
  ∃ a ∈ items, a.name = name

/-- Some item puts the value under this key into the table of this name. -/
def Says (items : List Item) (name key : String) (v : Value) : Prop :=
  ∃ a ∈ items, a.name = name ∧ (key, v) ∈ a.members

/-- The items are about the same tables, and put the same into them. -/
structure SaySame (items items' : List Item) : Prop where
  names : ∀ name, Names items name ↔ Names items' name
  values : ∀ name key v, Says items name key v ↔ Says items' name key v

/-- The order of the items does not matter. -/
theorem saySame_of_perm {items items' : List Item} (h : items.Perm items') :
    SaySame items items' where
  names _ := exists_congr fun _ => and_congr_left fun _ => h.mem_iff
  values _ _ _ := exists_congr fun _ => and_congr_left fun _ => h.mem_iff

/-- Neither does the order of the keys in an item, nor whether it is a header. -/
theorem saySame_cons {a b : Item} (hname : a.name = b.name) (hmembers : a.members.Perm b.members)
    (items : List Item) : SaySame (a :: items) (b :: items) where
  names name := by simp only [Names, List.exists_mem_cons_iff, hname]
  values name key v := by simp only [Says, List.exists_mem_cons_iff, hname, hmembers.mem_iff]

/-- Nor whether the keys are dotted. -/
theorem saySame_dotted {name : String} {members : Members} (hnil : members ≠ [])
    (items : List Item) :
    SaySame (members.map (fun member => .dotted name member.1 member.2) ++ items)
      (.header name members :: items) where
  names name' := by
    constructor
    · rintro ⟨a, ha, rfl⟩
      rcases List.mem_append.mp ha with ha | ha
      · obtain ⟨member, -, rfl⟩ := List.mem_map.mp ha
        exact ⟨_, List.mem_cons_self .., rfl⟩
      · exact ⟨a, List.mem_cons_of_mem _ ha, rfl⟩
    · rintro ⟨a, ha, rfl⟩
      rcases List.mem_cons.mp ha with rfl | ha
      · obtain ⟨member, more, rfl⟩ := List.exists_cons_of_ne_nil hnil
        exact ⟨_, List.mem_append_left _ (List.mem_cons_self ..), rfl⟩
      · exact ⟨a, List.mem_append_right _ ha, rfl⟩
  values name' key v := by
    constructor
    · rintro ⟨a, ha, rfl, hmem⟩
      rcases List.mem_append.mp ha with ha | ha
      · obtain ⟨member, hmember, rfl⟩ := List.mem_map.mp ha
        cases List.mem_singleton.mp hmem
        exact ⟨_, List.mem_cons_self .., rfl, hmember⟩
      · exact ⟨a, List.mem_cons_of_mem _ ha, rfl, hmem⟩
    · rintro ⟨a, ha, rfl, hmem⟩
      rcases List.mem_cons.mp ha with rfl | ha
      · exact ⟨_, List.mem_append_left _ (List.mem_map.mpr ⟨(key, v), hmem, rfl⟩), rfl,
          List.mem_singleton_self _⟩
      · exact ⟨a, List.mem_append_right _ ha, rfl, hmem⟩

/-! ### Putting items together -/

variable {items : List Item} {a b : Item} {document : Entries} {name key : String} {v : Value}

/-- Pairs without dots. -/
def plainPairs (members : Members) : List Pair :=
  members.map fun member => ⟨[], member.1, member.2⟩

/-- Adds an item to a document. -/
def Item.add (document : Entries) : Item → Option Entries
  | dotted name key value => Entries.insert key value [name] document
  | inline name members => Entries.insert name (.table .inline members) [] document
  | header name members =>
    Section.add document ⟨some ⟨false, [], name⟩, plainPairs members⟩

/-- What is looked up in the document is what the items say. -/
structure Holds (items : List Item) (document : Entries) : Prop where
  absent : ∀ name, ¬ Names items name → document.lookup name = none
  present : ∀ a ∈ items, ∃ inner, document.lookup a.name = some (.table a.origin inner) ∧
    ∀ key v, inner.lookup key = some v ↔ Says items a.name key v

theorem holds_nil : Holds [] [] :=
  ⟨fun _ _ => rfl, nofun⟩

theorem names_concat : Names (items ++ [a]) name ↔ Names items name ∨ a.name = name := by
  simp [Names, or_and_right, exists_or]

theorem says_concat :
    Says (items ++ [a]) name key v ↔
      Says items name key v ∨ (a.name = name ∧ (key, v) ∈ a.members) := by
  simp [Says, or_and_right, exists_or]

/-- Nothing is said about a table that no item names. -/
theorem not_says_of_not_names (h : ¬ Names items name) : ¬ Says items name key v :=
  fun ⟨b, hb, hname, _⟩ => h ⟨b, hb, hname⟩

theorem Item.IsGood.lookup_iff (h : a.IsGood) :
    a.members.lookup key = some v ↔ (key, v) ∈ a.members :=
  ⟨Entries.mem_of_lookup, Entries.lookup_of_mem h.keys⟩

theorem addPairs_plainPairs {members : Members} {start : Entries}
    (h : ((start ++ members).map Prod.fst).Nodup) :
    Entries.addPairs (plainPairs members) start = some (start ++ members) := by
  induction members generalizing start with
  | nil => simp [plainPairs, Entries.addPairs]
  | cons member members ih =>
    obtain ⟨key, v⟩ := member
    have hnew : key ∉ Entries.keys start := by
      rw [List.map_append, List.nodup_append] at h
      intro hmem
      exact h.2.2 key hmem key (List.mem_cons_self ..) rfl
    have hinsert : Entries.insert key v [] start = some (start ++ [(key, v)]) := by
      rw [Entries.insert, Entries.lookup_eq_none_iff_keys.mpr hnew]
    rw [List.append_cons] at h ⊢
    rw [← ih h, plainPairs, List.map_cons, Entries.addPairs, List.foldlM_cons, hinsert]
    rfl

/-- What an item puts under its name changes nothing under other names. -/
theorem Holds.concat (h : Holds items document) {document' inner : Entries} {w : Value}
    (hputs : Entries.Puts a.name w document document')
    (horigin : ∀ b ∈ items ++ [a], b.name = a.name → w = .table b.origin inner)
    (hinside : ∀ key v, inner.lookup key = some v ↔ Says (items ++ [a]) a.name key v) :
    Holds (items ++ [a]) document' where
  absent name hname := by
    rw [names_concat, not_or] at hname
    rw [hputs.lookup, if_neg (Ne.symm hname.2), h.absent name hname.1]
  present b hb := by
    by_cases hname : b.name = a.name
    · rw [hputs.lookup, if_pos hname, hname, horigin b hb hname]
      exact ⟨inner, rfl, hinside⟩
    · have hold : b ∈ items := (List.mem_append.mp hb).resolve_right fun hb =>
        hname (congrArg Item.name (List.mem_singleton.mp hb))
      obtain ⟨inner', hinner, hinside'⟩ := h.present b hold
      refine ⟨inner', by rw [hputs.lookup, if_neg hname, hinner], fun key v => ?_⟩
      rw [hinside', says_concat, or_iff_left fun heq => hname heq.1.symm]

/-- A table under a name that is free. -/
theorem Holds.concat_of_not_names (h : Holds items document) (ha : a.IsGood)
    (hnew : ¬ Names items a.name) {document' : Entries}
    (hputs : Entries.Puts a.name (.table a.origin a.members) document document') :
    Holds (items ++ [a]) document' := by
  refine @Holds.concat _ _ _ h document' a.members _ hputs (fun b hb hname => ?_) fun key v => ?_
  · rcases List.mem_append.mp hb with hb | hb
    · exact absurd ⟨b, hb, hname⟩ hnew
    · rw [List.mem_singleton.mp hb]
  · rw [ha.lookup_iff, says_concat, or_iff_right (not_says_of_not_names hnew), and_iff_right rfl]

/-- Where the name is free, every item puts its table there. -/
theorem Item.add_of_lookup_eq_none (ha : a.IsGood) (hnone : document.lookup a.name = none) :
    ∃ document', a.add document = some document' ∧
      Entries.Puts a.name (.table a.origin a.members) document document' := by
  cases a with
  | dotted name key v =>
    refine ⟨_, ?_, .new hnone⟩
    change document.lookup name = none at hnone
    rw [add, Entries.insert, hnone]
    rfl
  | inline name members =>
    refine ⟨_, ?_, .new hnone⟩
    change document.lookup name = none at hnone
    rw [add, Entries.insert, hnone]
    rfl
  | header name members =>
    refine ⟨_, ?_, .moved⟩
    change document.lookup name = none at hnone
    have hmembers : Entries.addPairs (plainPairs members) [] = some members :=
      @addPairs_plainPairs members [] ha.keys
    simp only [add, Section.add, Entries.under, Bool.false_eq_true, if_false, Entries.define,
      hnone, hmembers, Option.map_some]
    rfl

/-- Only dotted keys share a table with other items. -/
theorem Item.Apart.name_ne (h : b.Apart a) (ha : a.origin ≠ .dotted) : b.name ≠ a.name := by
  cases a with
  | dotted => exact absurd rfl ha
  | inline => cases b <;> exact h
  | header => cases b <;> exact h

/-- They share it with other dotted keys. -/
theorem Item.Apart.exists_dotted (h : b.Apart (.dotted name key v)) (hname : b.name = name) :
    ∃ key' v', b = .dotted name key' v' ∧ key' ≠ key := by
  cases b with
  | dotted name' key' v' =>
    cases hname
    exact ⟨key', v', rfl, h rfl⟩
  | inline => exact absurd hname h
  | header => exact absurd hname h

/-- A dotted key whose table is there. -/
theorem Holds.add_dotted (h : Holds items document)
    (hapart : ∀ b ∈ items, b.Apart (.dotted name key v)) (hold : Names items name) :
    ∃ document', Item.add document (.dotted name key v) = some document' ∧
      Holds (items ++ [.dotted name key v]) document' := by
  obtain ⟨b, hb, hname⟩ := hold
  obtain ⟨key', v', rfl, -⟩ := (hapart b hb).exists_dotted hname
  obtain ⟨inner, hinner, hinside⟩ := h.present _ hb
  change document.lookup name = some (.table .dotted inner) at hinner
  change ∀ key v, inner.lookup key = some v ↔ Says items name key v at hinside
  -- The key is free: whatever says something about this table has another key.
  have hfree : inner.lookup key = none := by
    refine Option.eq_none_iff_forall_ne_some.mpr fun w hw => ?_
    obtain ⟨c, hc, hname, hmem⟩ := (hinside key w).mp hw
    obtain ⟨key'', w', rfl, hne⟩ := (hapart c hc).exists_dotted hname
    cases List.mem_singleton.mp hmem
    exact hne rfl
  have hnew : Entries.Puts key v inner (inner ++ [(key, v)]) := .new hfree
  have hputs : Entries.Puts name (.table .dotted (inner ++ [(key, v)])) document
      (document.set name (.table .dotted (inner ++ [(key, v)]))) := .set hinner
  have hmore (key'' : String) (w : Value) :
      (inner ++ [(key, v)]).lookup key'' = some w ↔
        Says (items ++ [.dotted name key v]) name key'' w := by
    rw [hnew.lookup, says_concat, ← hinside]
    simp only [Item.name, Item.members, List.mem_singleton, Prod.mk.injEq, true_and]
    split_ifs with hkey
    · simp [hkey, hfree, eq_comm]
    · simp [hkey]
  have horigin : ∀ c ∈ items ++ [.dotted name key v], c.name = name →
      Value.table .dotted (inner ++ [(key, v)]) = .table c.origin (inner ++ [(key, v)]) := by
    intro c hc hname
    rcases List.mem_append.mp hc with hc | hc
    · obtain ⟨_, _, rfl, -⟩ := (hapart c hc).exists_dotted hname
      rfl
    · cases List.mem_singleton.mp hc
      rfl
  refine ⟨document.set name (.table .dotted (inner ++ [(key, v)])), ?_,
    h.concat hputs horigin hmore⟩
  rw [Item.add, Entries.insert, hinner]
  simp only [Entries.insert, hfree, Option.map_some]

/-- **One item.** It finds its place, and the document says what it says as well. -/
theorem Holds.add (h : Holds items document) (ha : a.IsGood) (hapart : ∀ b ∈ items, b.Apart a) :
    ∃ document', a.add document = some document' ∧ Holds (items ++ [a]) document' := by
  by_cases hnew : Names items a.name
  · by_cases hdotted : a.origin = .dotted
    · cases a with
      | dotted name key v => exact h.add_dotted hapart hnew
      | inline => cases hdotted
      | header => cases hdotted
    · obtain ⟨b, hb, hname⟩ := hnew
      exact absurd hname ((hapart b hb).name_ne hdotted)
  · obtain ⟨document', hadd, hputs⟩ := Item.add_of_lookup_eq_none ha (h.absent _ hnew)
    exact ⟨document', hadd, h.concat_of_not_names ha hnew hputs⟩

/-- **All items.** A document in which they can stand is put together, and says what they say. -/
theorem add_items (h : IsDocument items) :
    ∃ document, items.foldlM Item.add [] = some document ∧ Holds items document := by
  suffices hfold : ∀ front document, Holds front document → (∀ a ∈ items, ∀ b ∈ front, b.Apart a) →
      ∃ document', items.foldlM Item.add document = some document' ∧
        Holds (front ++ items) document' from
    hfold [] [] holds_nil nofun
  obtain ⟨hgood, hapart, -⟩ := h
  induction items with
  | nil => exact fun front document hholds _ => ⟨document, rfl, by rwa [List.append_nil]⟩
  | cons a items ih =>
    intro front document hholds hfront
    obtain ⟨hahead, hmore⟩ := List.pairwise_cons.mp hapart
    obtain ⟨between, hadd, hbetween⟩ :=
      hholds.add (hgood a (List.mem_cons_self ..)) (hfront a (List.mem_cons_self ..))
    have hlater : ∀ c ∈ items, ∀ b ∈ front ++ [a], b.Apart c := fun c hc b hb => by
      rcases List.mem_append.mp hb with hb | hb
      · exact hfront c (List.mem_cons_of_mem _ hc) b hb
      · exact List.mem_singleton.mp hb ▸ hahead c hc
    obtain ⟨document', hitems, hholds'⟩ := ih (fun c hc => hgood c (List.mem_cons_of_mem _ hc))
      hmore (front ++ [a]) between hbetween hlater
    refine ⟨document', ?_, by rwa [List.append_cons]⟩
    rw [List.foldlM_cons, hadd]
    exact hitems

/-! ### Looking at the document -/

theorem Holds.has_iff (h : Holds items document) : document.tables.has name ↔ Names items name := by
  constructor
  · intro hhas
    by_contra hnames
    simp [Entries.tables, h.absent name hnames] at hhas
  · rintro ⟨a, ha, rfl⟩
    obtain ⟨inner, hinner, -⟩ := h.present a ha
    simp [Entries.tables, hinner]

theorem Holds.value?_iff (h : Holds items document) :
    document.tables.value? name key = some v ↔ Says items name key v := by
  by_cases hnames : Names items name
  · obtain ⟨a, ha, rfl⟩ := hnames
    obtain ⟨inner, hinner, hinside⟩ := h.present a ha
    simp only [Entries.tables, hinner, hinside]
  · simp only [Entries.tables, h.absent name hnames]
    exact ⟨nofun, fun hinside => absurd hinside (not_says_of_not_names hnames)⟩

/-- **Documents that say the same are looked at as the same tables**, in whatever order and notation
they say it. -/
theorem Holds.tables_eq {items' : List Item} {document' : Entries} (h : Holds items document)
    (h' : Holds items' document') (hsame : SaySame items items') :
    document.tables = document'.tables := by
  refine Tables.ext (funext fun name => ?_) (funext fun name => funext fun key => ?_)
  · rw [Bool.eq_iff_iff, h.has_iff, h'.has_iff, hsame.names]
  · refine Option.ext fun v => ?_
    rw [h.value?_iff, h'.value?_iff, hsame.values]

theorem Holds.isSectioned (h : Holds items document) (hgood : ∀ a ∈ items, a.IsGood)
    (htidy : document.IsTidy) : document.IsSectioned := by
  rintro ⟨name, w⟩ hentry
  have hlookup := Entries.lookup_of_mem htidy.keys hentry
  have hnames : Names items name := by
    by_contra hnames
    cases (h.absent name hnames).symm.trans hlookup
  obtain ⟨a, ha, rfl⟩ := hnames
  obtain ⟨inner, hinner, hinside⟩ := h.present a ha
  cases hlookup.symm.trans hinner
  refine ⟨a.origin, inner, rfl, fun ⟨key, v⟩ hmember => ?_⟩
  have hkeys := (Entries.isTidy_table_iff.mp (htidy.values _ hentry)).keys
  obtain ⟨b, hb, -, hmem⟩ := (hinside key v).mp (Entries.lookup_of_mem hkeys hmember)
  exact (hgood b hb).values _ hmem

/-! ### Lines -/

/-- What stands on a line, if it is not empty. -/
inductive Line
  | pair (p : Pair)
  | header (h : Header)

/-- The lines in which an item is written. -/
def Item.lines : Item → List Line
  | dotted name key value => [.pair ⟨[name], key, value⟩]
  | inline name members => [.pair ⟨[], name, .table .inline members⟩]
  | header name members => .header ⟨false, [], name⟩ :: (plainPairs members).map .pair

/-- The sections that lines make up, where one section is under way. -/
def sectionsOf (current : Section) : List Line → List Section
  | [] => [current]
  | .pair p :: lines => sectionsOf { current with pairs := current.pairs ++ [p] } lines
  | .header h :: lines => current :: sectionsOf ⟨some h, []⟩ lines

theorem sectionsOf_pairs (current : Section) (pairs : List Pair) (lines : List Line) :
    sectionsOf current (pairs.map .pair ++ lines) =
      sectionsOf { current with pairs := current.pairs ++ pairs } lines := by
  induction pairs generalizing current with
  | nil => rw [List.map_nil, List.nil_append, List.append_nil]
  | cons p pairs ih =>
    rw [List.map_cons, List.cons_append, sectionsOf, ih]
    simp

/-- An item with a header is a section, and what stands in front of it is another. -/
theorem sectionsOf_header (current : Section) (members : Members) (lines : List Line) :
    sectionsOf current ((Item.header name members).lines ++ lines) =
      current :: sectionsOf ⟨some ⟨false, [], name⟩, plainPairs members⟩ lines := by
  rw [Item.lines, List.cons_append, sectionsOf, sectionsOf_pairs, List.nil_append]

/-- An item without a header is a pair. -/
theorem Item.lines_of_origin (h : a.origin ≠ .header) :
    ∃ p : Pair, a.lines = [.pair p] ∧
      ∀ document, a.add document = Entries.insert p.key p.value p.path document := by
  cases a with
  | dotted => exact ⟨_, rfl, fun _ => rfl⟩
  | inline => exact ⟨_, rfl, fun _ => rfl⟩
  | header => exact absurd rfl h

/-- Headers only. -/
theorem foldlM_sectionsOf_headers (hheaders : ∀ a ∈ items, a.origin = .header) (current : Section)
    (document : Entries) :
    (sectionsOf current (items.flatMap Item.lines)).foldlM Section.add document =
      (Section.add document current).bind (items.foldlM Item.add) := by
  induction items generalizing current document with
  | nil =>
    simp only [List.flatMap_nil, sectionsOf, List.foldlM_cons, List.foldlM_nil]
    rfl
  | cons a items ih =>
    obtain ⟨ha, hmore⟩ := List.forall_mem_cons.mp hheaders
    cases a with
    | header name members =>
      rw [List.flatMap_cons, sectionsOf_header, List.foldlM_cons]
      refine congrArg (Option.bind _) (funext fun between => ?_)
      rw [ih hmore, List.foldlM_cons]
      rfl
    | dotted => cases ha
    | inline => cases ha

/-- Pairs of the first section, and headers behind them. -/
theorem foldlM_sectionsOf
    (horder : items.Pairwise fun a b => a.origin = .header → b.origin = .header)
    (pairs : List Pair) (document : Entries) :
    (sectionsOf ⟨none, pairs⟩ (items.flatMap Item.lines)).foldlM Section.add document =
      (Entries.addPairs pairs document).bind (items.foldlM Item.add) := by
  induction items generalizing pairs with
  | nil =>
    simp only [List.flatMap_nil, sectionsOf, List.foldlM_cons, List.foldlM_nil]
    rfl
  | cons a items ih =>
    obtain ⟨hahead, hmore⟩ := List.pairwise_cons.mp horder
    by_cases hheader : a.origin = .header
    · have hall : ∀ b ∈ a :: items, b.origin = .header :=
        List.forall_mem_cons.mpr ⟨hheader, fun b hb => hahead b hb hheader⟩
      exact foldlM_sectionsOf_headers hall ⟨none, pairs⟩ document
    · obtain ⟨p, hlines, hadd⟩ := Item.lines_of_origin hheader
      have hconcat : Entries.addPairs (pairs ++ [p]) document =
          (Entries.addPairs pairs document).bind fun between => a.add between := by
        simp only [Entries.addPairs, List.foldlM_append, List.foldlM_cons, List.foldlM_nil,
          bind_pure, hadd]
        rfl
      rw [List.flatMap_cons, hlines, List.singleton_append, sectionsOf, ih hmore, hconcat,
        Option.bind_assoc]
      rfl

/-- **The lines of the items make up the document that the items do.** -/
theorem ofSections_sectionsOf (h : IsDocument items) :
    ofSections (sectionsOf ⟨none, []⟩ (items.flatMap Item.lines)) = items.foldlM Item.add [] :=
  foldlM_sectionsOf h.order [] []

end ByteSplice.Toml
