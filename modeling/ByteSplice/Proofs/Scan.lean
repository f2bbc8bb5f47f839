import ByteSplice.Scan
import Mathlib.Data.List.Chain

/-!
# What a scan finds

`scanOnto` walks along bytes with a counter of how many of them still belong to the last match, and
collects what it finds in reverse. Statements about the occurrences need the same walk without
either: `occurrencesFrom` records a match and goes on behind it, or goes on by one byte.
`findAll_eq` is where the two meet, and what follows speaks of `occurrencesFrom` only.

## What singles the result out

Three properties determine what a scan returns. Each occurrence is a match; each starts where the
one before it has ended, or later; and no match is left out unless it starts inside an occurrence
that starts before it. The last is what makes the scan greedy: of two matches that overlap, the
left one is taken, so there is no choice anywhere.

`IsScanFrom` states the three from a cursor on. It satisfies the same recursion as
`occurrencesFrom`, one lemma for each case (`isScanFrom_of_length_le`, `isScanFrom_of_matchesAt`,
`isScanFrom_of_not_matchesAt`), and each of these is an equivalence. So existence and uniqueness
are one induction.

## Main definitions

* `Pattern.MatchesAt`: the pattern stands at an offset.
* `occurrencesFrom`: the scan as a recursion on what lies ahead of the cursor.
* `IsScanFrom`: the three properties, from a cursor on.

## Main results

* `findAll_eq`
* `isScanFrom_iff`, `isScanFrom_zero_iff`
* `findAll_eq_nil_iff`
* `eq_findAll_iff`: the three properties hold of `findAll` and of no other list.
* `count_of_isPrefix`, `count_append`: how many occurrences there are, along the same recursion.
-/

namespace ByteSplice

/-! ### Matches -/

/-- The pattern stands at an offset: the window there lies inside the bytes and shows it. -/
def Pattern.MatchesAt (p : Pattern) (data : Bytes) (i : Nat) : Prop :=
  i + p.length ≤ data.length ∧ (data.drop i).take p.length = p.bytes

instance (p : Pattern) (data : Bytes) (i : Nat) : Decidable (p.MatchesAt data i) :=
  inferInstanceAs (Decidable (_ ∧ _))

/-- A pattern has at least one byte, so a window that shows it cannot hang over the end. -/
theorem Pattern.matchesAt_iff_isPrefix {p : Pattern} {data : Bytes} {i : Nat} :
    p.MatchesAt data i ↔ p.bytes <+: data.drop i := by
  constructor
  · rintro ⟨-, h⟩
    rw [← h]
    exact List.take_prefix _ _
  · intro h
    have hle : p.length ≤ data.length - i := by simpa [Pattern.length] using h.length_le
    have hpos := p.length_pos
    exact ⟨by omega, (List.prefix_iff_eq_take.mp h).symm⟩

theorem Pattern.not_matchesAt_of_length_le {p : Pattern} {data : Bytes} {i : Nat}
    (h : data.length ≤ i) : ¬ p.MatchesAt data i := by
  rintro ⟨hle, -⟩
  have hpos := p.length_pos
  omega

/-- What is ahead of a cursor, once the cursor has passed over the first byte of it. -/
theorem drop_succ_of_drop_eq_cons {data rest : Bytes} {b : UInt8} {i : Nat}
    (h : data.drop i = b :: rest) : data.drop (i + 1) = rest := by
  rw [← List.drop_drop, h, List.drop_one, List.tail_cons]

/-! ### The scan as a recursion -/

/-- The occurrences that a scan finds in the given bytes, of which the first has offset `i`. -/
def occurrencesFrom (p : Pattern) (i : Nat) : Bytes → List Occurrence
  | [] => []
  | b :: rest =>
    if p.bytes <+: b :: rest then
      ⟨i, p.length⟩ :: occurrencesFrom p (i + p.length) ((b :: rest).drop p.length)
    else occurrencesFrom p (i + 1) rest
termination_by data => data.length
decreasing_by
  · have hpos := p.length_pos
    simp only [List.length_drop, List.length_cons]
    omega
  · exact Nat.lt_succ_self _

@[simp] theorem occurrencesFrom_nil (p : Pattern) (i : Nat) : occurrencesFrom p i [] = [] := by
  rw [occurrencesFrom]

theorem occurrencesFrom_of_isPrefix {p : Pattern} {data : Bytes} (h : p.bytes <+: data) (i : Nat) :
    occurrencesFrom p i data =
      ⟨i, p.length⟩ :: occurrencesFrom p (i + p.length) (data.drop p.length) := by
  cases data with
  | nil => exact absurd (List.prefix_nil.mp h) p.bytes_ne_nil
  | cons b rest => rw [occurrencesFrom, if_pos h]

theorem occurrencesFrom_of_not_isPrefix {p : Pattern} {b : UInt8} {rest : Bytes}
    (h : ¬ p.bytes <+: b :: rest) (i : Nat) :
    occurrencesFrom p i (b :: rest) = occurrencesFrom p (i + 1) rest := by
  rw [occurrencesFrom, if_neg h]

/-- The bytes that belong to the last match are passed over, and nothing is found in them. -/
theorem scanOnto_eq (p : Pattern) (found : List Occurrence) (skip i : Nat) (data : Bytes) :
    scanOnto p.bytes found skip i data =
      found.reverse ++ occurrencesFrom p (i + skip) (data.drop skip) := by
  induction data generalizing found skip i with
  | nil => cases skip <;> simp [scanOnto]
  | cons b rest ih =>
    cases skip with
    | succ skip => rw [scanOnto, ih, List.drop_succ_cons, Nat.add_right_comm, Nat.add_assoc]
    | zero =>
      rw [scanOnto, Nat.add_zero, List.drop_zero]
      by_cases h : p.bytes <+: b :: rest
      · obtain ⟨k, hk⟩ : ∃ k, p.bytes.length = k + 1 := ⟨p.length - 1, by
          have hpos := p.length_pos
          simp only [Pattern.length] at hpos ⊢
          omega⟩
        rw [if_pos (List.isPrefixOf_iff_prefix.mpr h), ih, occurrencesFrom_of_isPrefix h]
        simp only [Pattern.length, hk, Nat.add_sub_cancel, List.drop_succ_cons, Nat.add_zero,
          List.reverse_cons, List.append_assoc, List.singleton_append]
        rw [Nat.add_right_comm i 1 k, Nat.add_assoc]
      · rw [if_neg (mt List.isPrefixOf_iff_prefix.mp h), ih, occurrencesFrom_of_not_isPrefix h,
          Nat.add_zero, List.drop_zero]

/-- **A scan is the recursion from the first byte on.** -/
theorem findAll_eq (data : Bytes) (p : Pattern) : findAll data p = occurrencesFrom p 0 data := by
  rw [findAll, Scanner.remaining_eq, scanOnto_eq]
  rfl

/-! ### The three properties -/

/-- One occurrence ends before another one starts, or where it starts. -/
def Occurrence.Before (a b : Occurrence) : Prop :=
  a.stop ≤ b.offset

instance (a b : Occurrence) : Decidable (a.Before b) :=
  inferInstanceAs (Decidable (_ ≤ _))

instance : IsTrans Occurrence Occurrence.Before where
  trans _ b _ hab hbc := Nat.le_trans hab (Nat.le_trans (Nat.le_add_right b.offset b.length) hbc)

/-- `found` is what a greedy scan of `data` finds from the offset `i` on. -/
structure IsScanFrom (p : Pattern) (data : Bytes) (i : Nat) (found : List Occurrence) : Prop where
  /-- Each occurrence is a match. -/
  exact_match : ∀ o ∈ found, o.length = p.length ∧ p.MatchesAt data o.offset
  /-- Each occurrence starts where the one before it ends, or later. -/
  ordered : found.IsChain Occurrence.Before
  /-- No occurrence starts before the cursor. -/
  ahead : ∀ o ∈ found, i ≤ o.offset
  /-- A match from the cursor on is an occurrence, or starts inside one that starts before it. -/
  complete : ∀ j, i ≤ j → p.MatchesAt data j →
    ∃ o ∈ found, o.offset = j ∨ (o.offset < j ∧ j < o.stop)

theorem isScanFrom_of_length_le {p : Pattern} {data : Bytes} {i : Nat} {found : List Occurrence}
    (h : data.length ≤ i) : IsScanFrom p data i found ↔ found = [] := by
  constructor
  · intro hscan
    refine List.eq_nil_iff_forall_not_mem.mpr fun o ho => ?_
    exact Pattern.not_matchesAt_of_length_le (h.trans (hscan.ahead o ho)) (hscan.exact_match o ho).2
  · rintro rfl
    exact ⟨by simp, .nil, by simp,
      fun j hj hm => absurd hm (Pattern.not_matchesAt_of_length_le (h.trans hj))⟩

/-- Where the pattern does not stand, the cursor may as well be one byte further on. -/
theorem isScanFrom_of_not_matchesAt {p : Pattern} {data : Bytes} {i : Nat}
    {found : List Occurrence} (h : ¬ p.MatchesAt data i) :
    IsScanFrom p data i found ↔ IsScanFrom p data (i + 1) found := by
  -- neither an occurrence nor a match can be at the cursor itself
  have hne : ∀ j, p.MatchesAt data j → i ≤ j → i + 1 ≤ j := fun j hm hj =>
    Nat.lt_of_le_of_ne hj fun hij => h (hij ▸ hm)
  constructor
  · intro hscan
    exact ⟨hscan.exact_match, hscan.ordered,
      fun o ho => hne o.offset (hscan.exact_match o ho).2 (hscan.ahead o ho),
      fun j hj hm => hscan.complete j (Nat.le_of_succ_le hj) hm⟩
  · intro hscan
    exact ⟨hscan.exact_match, hscan.ordered, fun o ho => Nat.le_of_succ_le (hscan.ahead o ho),
      fun j hj hm => hscan.complete j (hne j hm hj) hm⟩

/-- A match at the cursor comes first: it lies inside no other occurrence, since none starts before
it. -/
theorem IsScanFrom.exists_eq_cons {p : Pattern} {data : Bytes} {i : Nat} {found : List Occurrence}
    (hscan : IsScanFrom p data i found) (h : p.MatchesAt data i) :
    ∃ later, found = ⟨i, p.length⟩ :: later := by
  have hpos := p.length_pos
  obtain ⟨o, ho, hoi⟩ : ∃ o ∈ found, o.offset = i := by
    obtain ⟨o, ho, heq | ⟨hlt, -⟩⟩ := hscan.complete i (Nat.le_refl i) h
    · exact ⟨o, ho, heq⟩
    · exact absurd (hscan.ahead o ho) (Nat.not_le.mpr hlt)
  cases found with
  | nil => exact absurd ho List.not_mem_nil
  | cons first later =>
    have hfirst := (hscan.exact_match first List.mem_cons_self).1
    have hstart : first.offset = i := by
      rcases List.mem_cons.mp ho with rfl | hlater
      · exact hoi
      · have hbefore := List.pairwise_cons.mp (List.isChain_iff_pairwise.mp hscan.ordered)
        have hle : first.offset + first.length ≤ o.offset := hbefore.1 o hlater
        have hge := hscan.ahead first List.mem_cons_self
        omega
    exact ⟨later, by rw [← hstart, ← hfirst]⟩

/-- Behind its first occurrence a scan goes on. -/
theorem IsScanFrom.tail {p : Pattern} {data : Bytes} {i : Nat} {later : List Occurrence}
    (hscan : IsScanFrom p data i (⟨i, p.length⟩ :: later)) :
    IsScanFrom p data (i + p.length) later := by
  have hpos := p.length_pos
  have hbefore := List.pairwise_cons.mp (List.isChain_iff_pairwise.mp hscan.ordered)
  refine ⟨fun o ho => hscan.exact_match o (List.mem_cons_of_mem _ ho), hscan.ordered.tail,
    hbefore.1, fun j hj hm => ?_⟩
  obtain ⟨o, ho, hcover⟩ := hscan.complete j (by omega) hm
  rcases List.mem_cons.mp ho with rfl | hlater
  · simp only [Occurrence.stop] at hcover
    omega
  · exact ⟨o, hlater, hcover⟩

/-- A match can be put in front of a scan from its end on. -/
theorem IsScanFrom.cons {p : Pattern} {data : Bytes} {i : Nat} {later : List Occurrence}
    (h : p.MatchesAt data i) (hscan : IsScanFrom p data (i + p.length) later) :
    IsScanFrom p data i (⟨i, p.length⟩ :: later) := by
  have hpos := p.length_pos
  refine ⟨?_, ?_, ?_, fun j hj hm => ?_⟩
  · exact List.forall_mem_cons.mpr ⟨⟨rfl, h⟩, hscan.exact_match⟩
  · refine List.isChain_iff_pairwise.mpr (List.pairwise_cons.mpr ⟨hscan.ahead, ?_⟩)
    exact List.isChain_iff_pairwise.mp hscan.ordered
  · exact List.forall_mem_cons.mpr
      ⟨Nat.le_refl i, fun o ho => (Nat.le_add_right i _).trans (hscan.ahead o ho)⟩
  · by_cases hin : i + p.length ≤ j
    · obtain ⟨o, ho, hcover⟩ := hscan.complete j hin hm
      exact ⟨o, List.mem_cons_of_mem _ ho, hcover⟩
    · refine ⟨⟨i, p.length⟩, List.mem_cons_self, ?_⟩
      simp only [Occurrence.stop]
      omega

/-- **The greedy choice is forced.** A match at the cursor is the first occurrence, and the others
make up a scan from its end on. -/
theorem isScanFrom_of_matchesAt {p : Pattern} {data : Bytes} {i : Nat} {found : List Occurrence}
    (h : p.MatchesAt data i) :
    IsScanFrom p data i found ↔
      ∃ later, found = ⟨i, p.length⟩ :: later ∧ IsScanFrom p data (i + p.length) later := by
  constructor
  · intro hscan
    obtain ⟨later, rfl⟩ := hscan.exists_eq_cons h
    exact ⟨later, rfl, hscan.tail⟩
  · rintro ⟨later, rfl, hscan⟩
    exact .cons h hscan

/-- From every cursor on there is exactly one scan, which is the recursion. -/
theorem isScanFrom_iff {p : Pattern} {data rest : Bytes} {i : Nat} {found : List Occurrence}
    (h : data.drop i = rest) : IsScanFrom p data i found ↔ found = occurrencesFrom p i rest := by
  induction i, rest using occurrencesFrom.induct p generalizing found with
  | case1 i =>
    rw [isScanFrom_of_length_le (List.drop_eq_nil_iff.mp h), occurrencesFrom_nil]
  | case2 i b rest hmatch ih =>
    rw [isScanFrom_of_matchesAt (Pattern.matchesAt_iff_isPrefix.mpr (h ▸ hmatch)),
      occurrencesFrom_of_isPrefix hmatch]
    have hrest : data.drop (i + p.length) = (b :: rest).drop p.length := by
      rw [← h, List.drop_drop]
    simp only [ih hrest, exists_eq_right]
  | case3 i b rest hmiss ih =>
    rw [isScanFrom_of_not_matchesAt (mt Pattern.matchesAt_iff_isPrefix.mp (h ▸ hmiss)),
      occurrencesFrom_of_not_isPrefix hmiss]
    exact ih (drop_succ_of_drop_eq_cons h)

/-- A scan from the first byte on is what `findAll` returns. -/
theorem isScanFrom_zero_iff {p : Pattern} {data : Bytes} {found : List Occurrence} :
    IsScanFrom p data 0 found ↔ found = findAll data p := by
  rw [findAll_eq]
  exact isScanFrom_iff List.drop_zero

theorem isScanFrom_findAll (data : Bytes) (p : Pattern) : IsScanFrom p data 0 (findAll data p) :=
  isScanFrom_zero_iff.mpr rfl

theorem length_of_mem_findAll {data : Bytes} {p : Pattern} :
    ∀ o ∈ findAll data p, o.length = p.length :=
  fun o ho => ((isScanFrom_findAll data p).exact_match o ho).1

/-- A scan finds nothing just if the pattern stands nowhere. -/
theorem findAll_eq_nil_iff {data : Bytes} {p : Pattern} :
    findAll data p = [] ↔ ∀ i, ¬ p.MatchesAt data i := by
  constructor
  · intro hnone i hm
    obtain ⟨o, ho, -⟩ := (isScanFrom_findAll data p).complete i (Nat.zero_le i) hm
    exact absurd (hnone ▸ ho) List.not_mem_nil
  · intro hnone
    refine List.eq_nil_iff_forall_not_mem.mpr fun o ho => hnone o.offset ?_
    exact ((isScanFrom_findAll data p).exact_match o ho).2

/-- **What `findAll` returns, and nothing else does.** Its occurrences are matches, none starts
before the one ahead of it has ended, and a match that is not among them starts inside one that
starts before it. Any list of which this holds is the same list. -/
theorem eq_findAll_iff (data : Bytes) (p : Pattern) (found : List Occurrence) :
    found = findAll data p ↔
      (∀ o ∈ found, o.length = p.length ∧ p.MatchesAt data o.offset) ∧
      found.IsChain (fun a b => a.stop ≤ b.offset) ∧
      ∀ j, p.MatchesAt data j →
        ∃ o ∈ found, o.offset = j ∨ (o.offset < j ∧ j < o.stop) := by
  rw [← isScanFrom_zero_iff]
  constructor
  · intro hscan
    exact ⟨hscan.exact_match, hscan.ordered, fun j => hscan.complete j (Nat.zero_le j)⟩
  · rintro ⟨hmatch, hordered, hcomplete⟩
    exact ⟨hmatch, hordered, fun o _ => Nat.zero_le o.offset, fun j _ => hcomplete j⟩

/-! ### How many there are -/

/-- The offset that a scan starts with does not change how much it finds. -/
theorem length_occurrencesFrom (p : Pattern) (i : Nat) (data : Bytes) :
    (occurrencesFrom p i data).length = count data p := by
  suffices h : ∀ j, (occurrencesFrom p i data).length = (occurrencesFrom p j data).length by
    rw [h 0, count, findAll_eq]
  induction i, data using occurrencesFrom.induct p with
  | case1 i => simp
  | case2 i b rest hmatch ih =>
    intro j
    rw [occurrencesFrom_of_isPrefix hmatch, occurrencesFrom_of_isPrefix hmatch, List.length_cons,
      List.length_cons, ih (j + p.length)]
  | case3 i b rest hmiss ih =>
    intro j
    rw [occurrencesFrom_of_not_isPrefix hmiss, occurrencesFrom_of_not_isPrefix hmiss, ih (j + 1)]

theorem count_of_isPrefix {p : Pattern} {data : Bytes} (h : p.bytes <+: data) :
    count data p = count (data.drop p.length) p + 1 := by
  rw [count, findAll_eq, occurrencesFrom_of_isPrefix h, List.length_cons, length_occurrencesFrom]

theorem count_of_not_isPrefix {p : Pattern} {b : UInt8} {rest : Bytes}
    (h : ¬ p.bytes <+: b :: rest) : count (b :: rest) p = count rest p := by
  rw [count, findAll_eq, occurrencesFrom_of_not_isPrefix h, length_occurrencesFrom]

/-- Bytes at which no match begins do not count. -/
theorem count_append {p : Pattern} {front data : Bytes}
    (h : ∀ i < front.length, ¬ p.bytes <+: (front ++ data).drop i) :
    count (front ++ data) p = count data p := by
  induction front with
  | nil => rfl
  | cons b rest ih =>
    have hhere : ¬ p.bytes <+: b :: (rest ++ data) := h 0 (Nat.succ_pos _)
    have hlater : ∀ i < rest.length, ¬ p.bytes <+: (rest ++ data).drop i := fun i hi =>
      h (i + 1) (Nat.succ_lt_succ hi)
    rw [List.cons_append, count_of_not_isPrefix hhere, ih hlater]

end ByteSplice
