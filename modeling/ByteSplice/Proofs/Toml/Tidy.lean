import ByteSplice.Toml.Document
import Mathlib.Data.List.Nodup

/-!
# No key is given twice

Whoever takes the entries of a table one after the other, and whoever looks a key up, find the same
values only if no key is there twice. A document is put together by many changes: a value is added
behind the others, a table inside is replaced by one with more in it, a table moves to the end when
its header comes. None of them gives a key that is there already, so no table of a document, however
deep it lies, has a key twice (`parse_isTidy`).

## Changes

All changes have one of three forms (`Puts`): something new comes last, something takes the place of
what was there, or it comes last and what was there goes. For whoever looks up a key they are the
same (`Puts.lookup`), and all of them keep entries tidy (`Puts.isTidy`). What is put there is tidy
because it comes from a table inside, which is where the inductions over paths are needed.

## Main definitions

* `Value.IsTidy` and `Entries.IsTidy`.
* `Entries.Puts`.

## Main results

* `Entries.Puts.lookup`, `Entries.Puts.isTidy`.
* `value_isTidy`: a value that is read is tidy.
* `parse_isTidy`: a document that is read is tidy.
-/

namespace ByteSplice.Toml

/-- No table in the value, however deep, has a key twice. -/
inductive Value.IsTidy : Value → Prop
  | string {s : String} : IsTidy (.string s)
  | integer {n : Int} : IsTidy (.integer n)
  | float {x : Binary64} : IsTidy (.float x)
  | boolean {b : Bool} : IsTidy (.boolean b)
  | datetime : IsTidy .datetime
  | array {items : List Value} (hitems : ∀ v ∈ items, IsTidy v) : IsTidy (.array items)
  | table {origin : Origin} {entries : List (String × Value)}
      (hkeys : (entries.map Prod.fst).Nodup) (hvalues : ∀ entry ∈ entries, IsTidy entry.2) :
      IsTidy (.table origin entries)
  | tables {items : List Value} (hitems : ∀ v ∈ items, IsTidy v) : IsTidy (.tables items)

theorem Value.IsTidy.items {items : List Value} (h : (Value.tables items).IsTidy) :
    ∀ v ∈ items, v.IsTidy := by
  cases h with
  | tables hitems => exact hitems

namespace Entries

variable {entries entries' inner : Entries} {name key : String} {v : Value} {path : List String}
  {origin : Origin} {items items' : List Value}

/-- The keys, in order. -/
def keys (entries : Entries) : List String :=
  entries.map Prod.fst

/-- No key is there twice, and neither is one in any table inside. -/
structure IsTidy (entries : Entries) : Prop where
  keys : entries.keys.Nodup
  values : ∀ entry ∈ entries, entry.2.IsTidy

theorem isTidy_table_iff : (Value.table origin entries).IsTidy ↔ entries.IsTidy :=
  ⟨fun | .table hkeys hvalues => ⟨hkeys, hvalues⟩, fun h => .table h.keys h.values⟩

theorem isTidy_nil : IsTidy [] :=
  ⟨List.nodup_nil, nofun⟩

/-! ### Looking up keys -/

theorem lookup_eq_none_iff_keys : entries.lookup key = none ↔ key ∉ entries.keys := by
  simp only [List.lookup_eq_none_iff, keys, List.mem_map, bne_iff_ne, ne_eq, not_exists, not_and]
  exact ⟨fun h entry hentry heq => h entry hentry heq.symm,
    fun h entry hentry heq => h entry hentry heq.symm⟩

theorem mem_of_lookup (h : entries.lookup key = some v) : (key, v) ∈ entries := by
  obtain ⟨front, back, rfl, -⟩ := List.lookup_eq_some_iff.mp h
  exact List.mem_append_right _ (List.mem_cons_self ..)

/-- Where no key is there twice, every entry is found. -/
theorem lookup_of_mem (hkeys : entries.keys.Nodup) (h : (key, v) ∈ entries) :
    entries.lookup key = some v := by
  obtain ⟨front, back, rfl⟩ := List.append_of_mem h
  refine List.lookup_eq_some_iff.mpr ⟨front, back, rfl, fun entry hentry => ?_⟩
  rw [keys, List.map_append, List.nodup_append] at hkeys
  have hne := hkeys.2.2 entry.1 (List.mem_map_of_mem hentry) key (List.mem_cons_self ..)
  exact bne_iff_ne.mpr hne.symm

theorem IsTidy.lookup (h : entries.IsTidy) (hv : entries.lookup key = some v) : v.IsTidy :=
  h.values _ (mem_of_lookup hv)

/-! ### Putting something under a name -/

/-- The value is put under the name, and the rest of the entries stays. -/
inductive Puts (name : String) (v : Value) : Entries → Entries → Prop
  /-- It is new, and comes last. -/
  | new {entries : Entries} (h : entries.lookup name = none) :
      Puts name v entries (entries ++ [(name, v)])
  /-- It takes the place of another value. -/
  | set {entries : Entries} {old : Value} (h : entries.lookup name = some old) :
      Puts name v entries (entries.set name v)
  /-- It comes last, and another value goes. -/
  | moved {entries : Entries} : Puts name v entries (entries.without name ++ [(name, v)])

theorem keys_set (entries : Entries) : (entries.set name v).keys = entries.keys := by
  simp only [keys, set, List.map_map]
  refine List.map_congr_left fun entry _ => ?_
  simp only [Function.comp_apply]
  split_ifs with h
  · exact h.symm
  · rfl

theorem lookup_cons_of_ne (h : key ≠ name) (entries : Entries) :
    List.lookup key ((name, v) :: entries) = entries.lookup key := by
  rw [List.lookup_cons, beq_eq_false_iff_ne.mpr h]

theorem lookup_set (entries : Entries) :
    (entries.set name v).lookup key =
      if key = name then (entries.lookup name).map fun _ => v else entries.lookup key := by
  induction entries with
  | nil => simp [set]
  | cons entry entries ih =>
    obtain ⟨name', v'⟩ := entry
    rw [set, List.map_cons, ← set]
    by_cases hkey : key = name'
    · subst hkey
      by_cases hname : key = name <;> simp [hname]
    · by_cases hname : name' = name
      · subst hname
        rw [if_pos rfl, lookup_cons_of_ne hkey, ih, if_neg hkey, if_neg hkey,
          lookup_cons_of_ne hkey]
      · rw [if_neg hname, lookup_cons_of_ne hkey, ih, lookup_cons_of_ne hkey,
          lookup_cons_of_ne (Ne.symm hname)]

theorem lookup_without_self (entries : Entries) : (entries.without name).lookup name = none := by
  rw [lookup_eq_none_iff_keys, keys, without]
  simp

theorem lookup_without (entries : Entries) (h : key ≠ name) :
    (entries.without name).lookup key = entries.lookup key := by
  induction entries with
  | nil => rfl
  | cons entry entries ih =>
    obtain ⟨name', v'⟩ := entry
    by_cases hname : name' = name
    · rw [without, List.filter_cons_of_neg (by simp [hname]), ← without, ih,
        lookup_cons_of_ne (hname ▸ h)]
    · rw [without, List.filter_cons_of_pos (by simp [hname]), ← without, List.lookup_cons, ih,
        List.lookup_cons]

/-- **Whoever looks up keys cannot tell how a value has been put there.** -/
theorem Puts.lookup (h : Puts name v entries entries') :
    entries'.lookup key = if key = name then some v else entries.lookup key := by
  cases h with
  | new h =>
    rw [List.lookup_append]
    split_ifs with hkey
    · rw [hkey, h, List.lookup_cons_self, Option.none_or]
    · rw [lookup_cons_of_ne hkey, List.lookup_nil, Option.or_none]
  | set h => rw [lookup_set, h, Option.map_some]
  | moved =>
    rw [List.lookup_append]
    split_ifs with hkey
    · rw [hkey, lookup_without_self, List.lookup_cons_self, Option.none_or]
    · rw [lookup_without entries hkey, lookup_cons_of_ne hkey, List.lookup_nil, Option.or_none]

theorem Puts.keys_nodup (h : Puts name v entries entries') (hkeys : entries.keys.Nodup) :
    entries'.keys.Nodup := by
  have hlast {front : Entries} (hfront : front.keys.Nodup) (hnew : name ∉ front.keys) :
      (front ++ [(name, v)]).keys.Nodup := by
    rw [keys, List.map_append, List.nodup_append]
    refine ⟨hfront, List.nodup_singleton _, ?_⟩
    rintro key hkey key' hkey' rfl
    have heq : key = name := List.mem_singleton.mp hkey'
    exact hnew (heq ▸ hkey)
  cases h with
  | new h => exact hlast hkeys (lookup_eq_none_iff_keys.mp h)
  | set => rwa [keys_set]
  | moved =>
    have hfront : (entries.without name).keys.Nodup :=
      hkeys.sublist (List.filter_sublist.map Prod.fst)
    exact hlast hfront (lookup_eq_none_iff_keys.mp (lookup_without_self entries))

theorem Puts.eq_or_mem (h : Puts name v entries entries') :
    ∀ entry ∈ entries', entry = (name, v) ∨ entry ∈ entries := by
  intro entry hentry
  cases h with
  | new => simpa [or_comm] using hentry
  | set =>
    obtain ⟨old, hold, rfl⟩ := List.mem_map.mp hentry
    split_ifs
    · exact Or.inl rfl
    · exact Or.inr hold
  | moved =>
    rcases List.mem_append.mp hentry with hentry | hentry
    · exact Or.inr (List.mem_of_mem_filter hentry)
    · exact Or.inl (List.mem_singleton.mp hentry)

/-- **Entries stay tidy** if what is put there is. -/
theorem Puts.isTidy (h : Puts name v entries entries') (htidy : entries.IsTidy) (hv : v.IsTidy) :
    entries'.IsTidy where
  keys := h.keys_nodup htidy.keys
  values entry hentry := by
    rcases h.eq_or_mem entry hentry with rfl | hold
    · exact hv
    · exact htidy.values entry hold

/-! ### Changes inside -/

/-- The change keeps entries tidy. -/
def KeepsTidy (f : Entries → Option Entries) : Prop :=
  ∀ {entries entries' : Entries}, f entries = some entries' → entries.IsTidy → entries'.IsTidy

variable {f : Entries → Option Entries}

theorem KeepsTidy.inLast (hf : KeepsTidy f) (h : inLast f items = some items')
    (hitems : ∀ v ∈ items, v.IsTidy) : ∀ v ∈ items', v.IsTidy := by
  rw [Entries.inLast] at h
  split at h
  · next origin entries hlast =>
    obtain ⟨entries', hentries, rfl⟩ := Option.map_eq_some_iff.mp h
    have hold := isTidy_table_iff.mp (hitems _ (List.mem_of_getLast? hlast))
    intro v hv
    rcases List.mem_append.mp hv with hv | hv
    · exact hitems v (List.dropLast_subset _ hv)
    · exact List.mem_singleton.mp hv ▸ isTidy_table_iff.mpr (hf hentries hold)
  · cases h

/-- A value under a dotted key, however long the key is. -/
theorem keepsTidy_insert (hv : v.IsTidy) (path : List String) : KeepsTidy (insert key v path) := by
  induction path with
  | nil =>
    intro entries entries' h htidy
    rw [insert] at h
    split at h
    · cases h
    · next hnone =>
      cases h
      exact (Puts.new hnone).isTidy htidy hv
  | cons name path ih =>
    have htable {origin : Origin} {inner inner' : Entries}
        (h : insert key v path inner = some inner') (hinner : inner.IsTidy) :
        (Value.table origin inner').IsTidy :=
      isTidy_table_iff.mpr (ih h hinner)
    intro entries entries' h htidy
    rw [insert] at h
    split at h
    · next hnone =>
      obtain ⟨inner, hinner, rfl⟩ := Option.map_eq_some_iff.mp h
      exact (Puts.new hnone).isTidy htidy (htable hinner isTidy_nil)
    · next hsome =>
      obtain ⟨inner, hinner, rfl⟩ := Option.map_eq_some_iff.mp h
      exact (Puts.set hsome).isTidy htidy (htable hinner (isTidy_table_iff.mp (htidy.lookup hsome)))
    · next hsome =>
      split_ifs at h
      obtain ⟨inner, hinner, rfl⟩ := Option.map_eq_some_iff.mp h
      exact (Puts.set hsome).isTidy htidy (htable hinner (isTidy_table_iff.mp (htidy.lookup hsome)))
    · next items hsome =>
      split_ifs at h
      obtain ⟨items', hitems, rfl⟩ := Option.map_eq_some_iff.mp h
      exact (Puts.set hsome).isTidy htidy
        (.tables (KeepsTidy.inLast ih hitems (htidy.lookup hsome).items))
    · cases h

/-- A change of the table in which the table of a header lies. -/
theorem KeepsTidy.under (hf : KeepsTidy f) (path : List String) : KeepsTidy (under f path) := by
  induction path with
  | nil => exact hf
  | cons name path ih =>
    intro entries entries' h htidy
    rw [Entries.under] at h
    split at h
    · next hnone =>
      obtain ⟨inner, hinner, rfl⟩ := Option.map_eq_some_iff.mp h
      exact (Puts.new hnone).isTidy htidy (isTidy_table_iff.mpr (ih hinner isTidy_nil))
    · cases h
    · next hsome =>
      obtain ⟨inner, hinner, rfl⟩ := Option.map_eq_some_iff.mp h
      have hold := isTidy_table_iff.mp (htidy.lookup hsome)
      exact (Puts.set hsome).isTidy htidy (isTidy_table_iff.mpr (ih hinner hold))
    · next items hsome =>
      obtain ⟨items', hitems, rfl⟩ := Option.map_eq_some_iff.mp h
      exact (Puts.set hsome).isTidy htidy
        (.tables (KeepsTidy.inLast ih hitems (htidy.lookup hsome).items))
    · cases h

/-- A header. -/
theorem KeepsTidy.define (hf : KeepsTidy f) (key : String) : KeepsTidy (define f key) := by
  intro entries entries' h htidy
  unfold Entries.define at h
  dsimp only at h
  split at h
  · obtain ⟨inner, hinner, rfl⟩ := Option.map_eq_some_iff.mp h
    exact Puts.moved.isTidy htidy (isTidy_table_iff.mpr (hf hinner isTidy_nil))
  · next hsome =>
    obtain ⟨inner, hinner, rfl⟩ := Option.map_eq_some_iff.mp h
    have hold := isTidy_table_iff.mp (htidy.lookup hsome)
    exact Puts.moved.isTidy htidy (isTidy_table_iff.mpr (hf hinner hold))
  · cases h

/-- A header in double brackets. -/
theorem KeepsTidy.extend (hf : KeepsTidy f) (key : String) : KeepsTidy (extend f key) := by
  intro entries entries' h htidy
  unfold Entries.extend at h
  split at h
  · next hnone =>
    obtain ⟨inner, hinner, rfl⟩ := Option.map_eq_some_iff.mp h
    have hnew : ∀ v ∈ [Value.table .header inner], v.IsTidy := fun v hv =>
      List.mem_singleton.mp hv ▸ isTidy_table_iff.mpr (hf hinner isTidy_nil)
    exact (Puts.new hnone).isTidy htidy (.tables hnew)
  · next items hsome =>
    obtain ⟨inner, hinner, rfl⟩ := Option.map_eq_some_iff.mp h
    refine (Puts.set hsome).isTidy htidy (.tables fun v hv => ?_)
    rcases List.mem_append.mp hv with hv | hv
    · exact (htidy.lookup hsome).items v hv
    · exact List.mem_singleton.mp hv ▸ isTidy_table_iff.mpr (hf hinner isTidy_nil)
  · cases h

/-! ### Documents -/

theorem keepsTidy_addPairs {pairs : List Pair} (h : ∀ p ∈ pairs, p.value.IsTidy) :
    KeepsTidy (addPairs pairs) := by
  induction pairs with
  | nil =>
    intro entries entries' h htidy
    cases h
    exact htidy
  | cons p pairs ih =>
    intro entries entries' hadd htidy
    rw [addPairs, List.foldlM_cons] at hadd
    obtain ⟨between, hfirst, hmore⟩ := Option.bind_eq_some_iff.mp hadd
    have hbetween := keepsTidy_insert (h p (List.mem_cons_self ..)) p.path hfirst htidy
    exact ih (fun p hp => h p (List.mem_cons_of_mem _ hp)) hmore hbetween

end Entries

/-- The values of the pairs are tidy. -/
def Section.IsTidy (s : Section) : Prop :=
  ∀ p ∈ s.pairs, p.value.IsTidy

theorem Section.add_isTidy {s : Section} {document document' : Entries} (h : s.IsTidy)
    (hadd : Section.add document s = some document') (htidy : document.IsTidy) :
    document'.IsTidy := by
  have hpairs : Entries.KeepsTidy (Entries.addPairs s.pairs) := Entries.keepsTidy_addPairs h
  rw [Section.add] at hadd
  split at hadd
  · exact hpairs hadd htidy
  · next header _ =>
    refine Entries.KeepsTidy.under ?_ header.path hadd htidy
    split_ifs
    · exact hpairs.extend header.key
    · exact hpairs.define header.key

theorem ofSections_isTidy {parts : List Section} {entries : Entries}
    (h : ∀ s ∈ parts, s.IsTidy) (hparts : ofSections parts = some entries) : entries.IsTidy := by
  suffices hfold : ∀ start : Entries, start.IsTidy → ∀ entries,
      parts.foldlM Section.add start = some entries → entries.IsTidy from
    hfold [] Entries.isTidy_nil entries hparts
  clear hparts
  induction parts with
  | nil =>
    intro start hstart entries hparts
    cases hparts
    exact hstart
  | cons s parts ih =>
    intro start hstart entries hparts
    rw [List.foldlM_cons] at hparts
    obtain ⟨between, hfirst, hmore⟩ := Option.bind_eq_some_iff.mp hparts
    have hbetween := Section.add_isTidy (h s (List.mem_cons_self ..)) hfirst hstart
    exact ih (fun s hs => h s (List.mem_cons_of_mem _ hs)) between hbetween entries hmore

/-! ### What is read -/

/-- What the reader returns is tidy. -/
def ReadsTidy (read : Reader Value) : Prop :=
  ∀ {s rest : List Char} {v : Value}, read s = some (v, rest) → v.IsTidy

theorem integerValue_isTidy {n : Int} {v : Value} (h : integerValue n = some v) : v.IsTidy := by
  unfold integerValue at h
  split_ifs at h
  cases h
  exact .integer

theorem floatValue_isTidy {negative : Bool} {ds : List Char} {e : Int} {v : Value}
    (h : floatValue negative ds e = some v) : v.IsTidy := by
  unfold floatValue at h
  split at h
  · cases h
  · cases h
    exact .float

theorem readsTidy_basedInteger (base : Nat) (isDigit : Char → Bool) :
    ReadsTidy (basedInteger base isDigit) := by
  intro s rest v h
  obtain ⟨⟨ds, rest'⟩, -, hvalue⟩ := Option.bind_eq_some_iff.mp h
  obtain ⟨n, hn, heq⟩ := Option.map_eq_some_iff.mp hvalue
  cases heq
  exact integerValue_isTidy hn

theorem readsTidy_numberTail (negative : Bool) (whole : List Char) :
    ReadsTidy (numberTail negative whole) := by
  intro s rest v h
  unfold numberTail at h
  split at h
  · obtain ⟨⟨fraction, s⟩, -, h⟩ := Option.bind_eq_some_iff.mp h
    dsimp only at h
    split at h
    all_goals
      obtain ⟨⟨e, s⟩, -, h⟩ := Option.bind_eq_some_iff.mp h
      obtain ⟨x, hx, heq⟩ := Option.map_eq_some_iff.mp h
      cases heq
      exact floatValue_isTidy hx
  · obtain ⟨⟨e, s⟩, -, h⟩ := Option.bind_eq_some_iff.mp h
    obtain ⟨x, hx, heq⟩ := Option.map_eq_some_iff.mp h
    cases heq
    exact floatValue_isTidy hx
  · obtain ⟨⟨e, s⟩, -, h⟩ := Option.bind_eq_some_iff.mp h
    obtain ⟨x, hx, heq⟩ := Option.map_eq_some_iff.mp h
    cases heq
    exact floatValue_isTidy hx
  · obtain ⟨x, hx, heq⟩ := Option.map_eq_some_iff.mp h
    cases heq
    exact integerValue_isTidy hx

theorem readsTidy_number? : ReadsTidy number? := by
  intro s rest v h
  unfold number? at h
  split at h
  · exact readsTidy_basedInteger _ _ h
  · exact readsTidy_basedInteger _ _ h
  · exact readsTidy_basedInteger _ _ h
  · split at h
    · cases h
      exact .float
    · cases h
      exact .float
    · obtain ⟨⟨whole, rest⟩, -, h⟩ := Option.bind_eq_some_iff.mp h
      exact readsTidy_numberTail _ _ h

theorem readsTidy_scalar : ReadsTidy scalar := by
  intro s rest v h
  unfold scalar at h
  split at h
  · cases h
    exact .boolean
  · cases h
    exact .boolean
  · split at h
    · cases h
      exact .string
    · split at h
      · cases h
        exact .datetime
      · exact readsTidy_number? h

variable {item : Reader Value}

theorem pair_isTidy (hitem : ReadsTidy item) {s rest : List Char} {p : Pair}
    (h : pair item s = some (p, rest)) : p.value.IsTidy := by
  obtain ⟨⟨⟨path, key⟩, s⟩, -, h⟩ := Option.bind_eq_some_iff.mp h
  obtain ⟨s, -, h⟩ := Option.bind_eq_some_iff.mp h
  obtain ⟨⟨v, s⟩, hv, h⟩ := Option.bind_eq_some_iff.mp h
  cases h
  exact hitem hv

theorem itemsOnto_isTidy (hitem : ReadsTidy item) {fuel s rest : List Char}
    {read items : List Value} (h : itemsOnto item fuel read s = some (items, rest))
    (hread : ∀ v ∈ read, v.IsTidy) : ∀ v ∈ items, v.IsTidy := by
  induction fuel generalizing read s with
  | nil => cases h
  | cons _ fuel ih =>
    rw [itemsOnto] at h
    split at h
    · cases h
      exact fun v hv => hread v (List.mem_reverse.mp hv)
    · obtain ⟨⟨v, s⟩, hv, h⟩ := Option.bind_eq_some_iff.mp h
      have hmore : ∀ w ∈ v :: read, w.IsTidy := List.forall_mem_cons.mpr ⟨hitem hv, hread⟩
      dsimp only at h
      split at h
      · exact ih h hmore
      · cases h
        exact fun v hv => hmore v (List.mem_reverse.mp hv)
      · cases h

theorem pairsOnto_isTidy (hitem : ReadsTidy item) {fuel s rest : List Char}
    {read pairs : List Pair} (h : pairsOnto item fuel read s = some (pairs, rest))
    (hread : ∀ p ∈ read, p.value.IsTidy) : ∀ p ∈ pairs, p.value.IsTidy := by
  induction fuel generalizing read s with
  | nil => cases h
  | cons _ fuel ih =>
    rw [pairsOnto] at h
    obtain ⟨⟨p, s⟩, hp, h⟩ := Option.bind_eq_some_iff.mp h
    have hmore : ∀ q ∈ p :: read, q.value.IsTidy :=
      List.forall_mem_cons.mpr ⟨pair_isTidy hitem hp, hread⟩
    dsimp only at h
    split at h
    · exact ih h hmore
    · cases h
      exact fun p hp => hmore p (List.mem_reverse.mp hp)
    · cases h

theorem readsTidy_inlineTable (hitem : ReadsTidy item) : ReadsTidy (inlineTable item) := by
  intro s rest v h
  unfold inlineTable at h
  split at h
  · cases h
    exact Entries.isTidy_table_iff.mpr Entries.isTidy_nil
  · obtain ⟨⟨pairs, s⟩, hpairs, h⟩ := Option.bind_eq_some_iff.mp h
    obtain ⟨entries, hentries, heq⟩ := Option.map_eq_some_iff.mp h
    cases heq
    have htidy := pairsOnto_isTidy hitem hpairs nofun
    exact Entries.isTidy_table_iff.mpr
      (Entries.keepsTidy_addPairs htidy hentries Entries.isTidy_nil)

/-- **Every value that is read is tidy**, however deep it is nested. -/
theorem readsTidy_value (depth : Nat) : ReadsTidy (value depth) := by
  induction depth with
  | zero =>
    intro s rest v h
    unfold value at h
    split at h
    · cases h
    · cases h
    · exact readsTidy_scalar h
  | succ depth ih =>
    intro s rest v h
    unfold value at h
    split at h
    · obtain ⟨⟨items, s⟩, hitems, heq⟩ := Option.map_eq_some_iff.mp h
      cases heq
      exact .array (itemsOnto_isTidy ih hitems nofun)
    · exact readsTidy_inlineTable ih h
    · exact readsTidy_scalar h

theorem sectionsOnto_isTidy {fuel : Nat} {current : Section} {closed parts : List Section}
    {s : List Char} (h : sectionsOnto fuel current closed s = some parts)
    (hcurrent : current.IsTidy) (hclosed : ∀ s ∈ closed, s.IsTidy) : ∀ s ∈ parts, s.IsTidy := by
  induction fuel generalizing current closed s with
  | zero => cases h
  | succ fuel ih =>
    have hfinished : Section.IsTidy { current with pairs := current.pairs.reverse } :=
      fun p hp => hcurrent p (List.mem_reverse.mp hp)
    have hmore : ∀ s ∈ { current with pairs := current.pairs.reverse } :: closed, s.IsTidy :=
      List.forall_mem_cons.mpr ⟨hfinished, hclosed⟩
    rw [sectionsOnto] at h
    split at h
    · cases h
      exact fun s hs => hmore s (List.mem_reverse.mp hs)
    · obtain ⟨⟨header, s⟩, -, h⟩ := Option.bind_eq_some_iff.mp h
      obtain ⟨s, -, h⟩ := Option.bind_eq_some_iff.mp h
      exact ih h nofun hmore
    · split_ifs at h
      · obtain ⟨s, -, h⟩ := Option.bind_eq_some_iff.mp h
        exact ih h hcurrent hclosed
      · obtain ⟨⟨p, s⟩, hp, h⟩ := Option.bind_eq_some_iff.mp h
        obtain ⟨s, -, h⟩ := Option.bind_eq_some_iff.mp h
        have hp := pair_isTidy (readsTidy_value depthLimit) hp
        exact ih h (List.forall_mem_cons.mpr ⟨hp, hcurrent⟩) hclosed

/-- **A document has no key twice**, neither at its top nor in any table inside. -/
theorem parse_isTidy {text : String} {entries : Entries} (h : parse text = some entries) :
    entries.IsTidy := by
  obtain ⟨parts, hparts, h⟩ := Option.bind_eq_some_iff.mp h
  exact ofSections_isTidy (sectionsOnto_isTidy hparts nofun nofun) h

end ByteSplice.Toml
