import ByteSplice.Proofs.Scan

/-!
# Scanning one step at a time

A scanner can be asked for the next occurrence or for one further on, for the number or the list of
all that are still to come, and it can be drained or set up anew. Whatever it is asked, and in
whatever order, it answers like a reader of the list that `findAll` returns, who knows nothing but
an index into it.

## Where a scanner stands

A scanner knows an offset and the bytes from there on, and no index. Two things connect it with the
list. It scans the bytes it was set up for (`Scanner.Scans`), and what it would still find is the
list without its first `i` members (`Scanner.StandsAt`). The second does not determine the offset:
between two occurrences there are many, and all of them stand for the same index. So it does not
matter either where a search that fails leaves the cursor, which is short of the end unless the
pattern is a single byte.

That a scanner with an empty list ahead of it stays where it is needs no case of its own. The index
goes up to the length of the list and stays there.

## Windows

The bytes that a scanner compares with the pattern are whatever it has left, and these may be fewer
than the pattern has. `probe?` is the same search as a loop over offsets: it cuts a window out of
the bytes at each of them, stops where no window fits any more, and fails if it cuts one that is not
inside. It never fails, and it ends with the cursor where the scanner has it (`Scans.probe?_eq`).

## Main definitions

* `probe?`
* `Scanner.Scans`, `Scanner.StandsAt`
* `ScanStep`, with `Scanner.step` and `ScanStep.read` for the scanner and for the reader

## Main results

* `occurrencesFrom_eq_seek`
* `Scanner.Scans.probe?_eq`, `Scanner.Scans.drain_eq`
* `Scanner.StandsAt.step`, `Scanner.StandsAt.follow`
* `scanner_reads_findAll`
-/

namespace ByteSplice

variable {p : Pattern} {data rest : Bytes} {s : Scanner} {i j k : Nat} {o : Occurrence}

/-! ### One match and what is behind it -/

/-- A scan is its first match and the scan behind that. -/
theorem occurrencesFrom_eq_seek (p : Pattern) (i : Nat) (data : Bytes) :
    occurrencesFrom p i data =
      match seek p.bytes i data with
      | none => []
      | some (j, behind) => ⟨j, p.length⟩ :: occurrencesFrom p (j + p.length) behind := by
  induction data generalizing i with
  | nil => rw [occurrencesFrom_nil, seek]
  | cons b rest ih =>
    rw [seek]
    by_cases h : p.bytes <+: b :: rest
    · rw [occurrencesFrom_of_isPrefix h, if_pos (List.isPrefixOf_iff_prefix.mpr h)]
      rfl
    · rw [occurrencesFrom_of_not_isPrefix h, if_neg (mt List.isPrefixOf_iff_prefix.mp h), ih]

/-- Where fewer bytes are left than the pattern has, nothing is found. -/
theorem occurrencesFrom_of_length_lt (h : data.length < p.length) :
    occurrencesFrom p i data = [] := by
  induction data generalizing i with
  | nil => exact occurrencesFrom_nil p i
  | cons b rest ih =>
    rw [occurrencesFrom_of_not_isPrefix fun hmatch => Nat.not_le.mpr h hmatch.length_le]
    exact ih ((Nat.lt_succ_self _).trans h)

/-! ### Searching by windows -/

/-- The search for the next occurrence as a loop over offsets, with the offset at which it ends. It
fails if a window is not inside the bytes. -/
def probe? (data : Bytes) (p : Pattern) (cursor : Nat) : Option (Option Occurrence × Nat) :=
  if cursor + p.length ≤ data.length then
    match slice? data cursor (cursor + p.length) with
    | none => none
    | some window =>
      if window = p.bytes then some (some ⟨cursor, p.length⟩, cursor + p.length)
      else probe? data p (cursor + 1)
  else some (none, cursor)
termination_by data.length - cursor
decreasing_by
  have hpos := p.length_pos
  omega

theorem slice?_eq_some (h : i + k ≤ data.length) :
    slice? data i (i + k) = some ((data.drop i).take k) := by
  rw [slice?, if_pos ⟨Nat.le_add_right i k, h⟩, Nat.add_sub_cancel_left]

theorem probe?_of_matchesAt (h : p.MatchesAt data i) :
    probe? data p i = some (some ⟨i, p.length⟩, i + p.length) := by
  obtain ⟨hroom, hwindow⟩ := h
  rw [probe?, if_pos hroom, slice?_eq_some hroom]
  exact if_pos hwindow

theorem probe?_of_not_matchesAt (hroom : i + p.length ≤ data.length)
    (h : ¬ p.MatchesAt data i) : probe? data p i = probe? data p (i + 1) := by
  rw [probe?, if_pos hroom, slice?_eq_some hroom]
  exact if_neg fun hwindow => h ⟨hroom, hwindow⟩

theorem probe?_of_length_lt (h : data.length < i + p.length) :
    probe? data p i = some (none, i) := by
  rw [probe?, if_neg (Nat.not_le.mpr h)]

/-- A loop over windows finds what a walk along the bytes finds. If that is nothing, it has gone on
as long as there were windows. -/
theorem probe?_eq_seek (hrest : data.drop i = rest) :
    probe? data p i =
      match seek p.bytes i rest with
      | none => some (none, i + (rest.length + 1 - p.length))
      | some (j, _) => some (some ⟨j, p.length⟩, j + p.length) := by
  have hpos := p.length_pos
  induction rest generalizing i with
  | nil =>
    have hend : data.length ≤ i := List.drop_eq_nil_iff.mp hrest
    rw [probe?_of_length_lt (by omega), seek, List.length_nil, Nat.zero_add,
      Nat.sub_eq_zero_of_le hpos, Nat.add_zero]
  | cons b rest ih =>
    have hlater : data.drop (i + 1) = rest := drop_succ_of_drop_eq_cons hrest
    have hlength : data.length - i = rest.length + 1 := by
      rw [← List.length_drop, hrest, List.length_cons]
    rw [seek]
    by_cases hmatch : p.bytes <+: b :: rest
    · have hm : p.MatchesAt data i := Pattern.matchesAt_iff_isPrefix.mpr (hrest ▸ hmatch)
      rw [if_pos (List.isPrefixOf_iff_prefix.mpr hmatch), probe?_of_matchesAt hm]
    · have hmiss : ¬ p.MatchesAt data i := mt Pattern.matchesAt_iff_isPrefix.mp (hrest ▸ hmatch)
      rw [if_neg (mt List.isPrefixOf_iff_prefix.mp hmatch)]
      by_cases hroom : i + p.length ≤ data.length
      · rw [probe?_of_not_matchesAt hroom hmiss, ih hlater]
        have hpassed : i + 1 + (rest.length + 1 - p.length) =
            i + (rest.length + 1 + 1 - p.length) := by
          omega
        rw [List.length_cons, hpassed]
      · have hnone : seek p.bytes (i + 1) rest = none := by
          have hempty := occurrencesFrom_eq_seek p (i + 1) rest
          rw [occurrencesFrom_of_length_lt (by omega)] at hempty
          cases hseek : seek p.bytes (i + 1) rest with
          | none => rfl
          | some found => simp [hseek] at hempty
        rw [probe?_of_length_lt (Nat.not_le.mp hroom), hnone, List.length_cons,
          Nat.sub_eq_zero_of_le (by omega), Nat.add_zero]

/-- What is found is a match, and the walk goes on behind it. -/
theorem matchesAt_of_seek {behind : Bytes} (h : seek p.bytes i rest = some (j, behind))
    (hrest : data.drop i = rest) :
    i ≤ j ∧ p.MatchesAt data j ∧ data.drop (j + p.length) = behind := by
  induction rest generalizing i with
  | nil => cases h
  | cons b rest ih =>
    rw [seek] at h
    split at h
    · next hmatch =>
      have hmatch : p.bytes <+: b :: rest := List.isPrefixOf_iff_prefix.mp hmatch
      cases h
      refine ⟨Nat.le_refl _, Pattern.matchesAt_iff_isPrefix.mpr (hrest ▸ hmatch), ?_⟩
      rw [← List.drop_drop, hrest, Pattern.length]
    · obtain ⟨hle, hm, hbehind⟩ := ih h (drop_succ_of_drop_eq_cons hrest)
      exact ⟨Nat.le_of_succ_le hle, hm, hbehind⟩

namespace Scanner

/-! ### Scanners of given bytes -/

/-- The scanner has come to some offset of the given bytes. -/
structure Scans (s : Scanner) (data : Bytes) : Prop where
  cursor_le : s.cursor ≤ data.length
  rest_eq : s.rest = data.drop s.cursor

theorem scans_start (data : Bytes) : (start data).Scans data :=
  ⟨Nat.zero_le _, rfl⟩

theorem remaining_eq_occurrencesFrom (p : Pattern) (s : Scanner) :
    s.remaining p = occurrencesFrom p s.cursor s.rest := by
  rw [remaining_eq, scanOnto_eq]
  rfl

/-- Behind a search that failed there are fewer bytes than the pattern has, so there is nothing left
to find. -/
theorem remaining_finish (p : Pattern) (s : Scanner) : (s.finish p).remaining p = [] := by
  have hpos := p.length_pos
  rw [remaining_eq_occurrencesFrom, finish]
  refine occurrencesFrom_of_length_lt ?_
  rw [List.length_drop]
  omega

/-- A search that fails has gone on as long as it could, so it goes no further if it is made
again. -/
theorem finish_finish (p : Pattern) (s : Scanner) : (s.finish p).finish p = s.finish p := by
  have hpassed : (s.rest.drop (s.rest.length + 1 - p.length)).length + 1 - p.length = 0 := by
    have hpos := p.length_pos
    rw [List.length_drop]
    omega
  simp only [finish, hpassed, Nat.add_zero, List.drop_zero]

/-- What a scanner does next, by what there is left to find. -/
theorem next_cases (p : Pattern) (s : Scanner) :
    (s.remaining p = [] ∧ s.next p = (none, s.finish p)) ∨
      ∃ o t, seek p.bytes s.cursor s.rest = some (o.offset, t.rest) ∧ o.length = p.length ∧
        t.cursor = o.stop ∧ s.remaining p = o :: t.remaining p ∧ s.next p = (some o, t) := by
  have hscan := occurrencesFrom_eq_seek p s.cursor s.rest
  simp only [remaining_eq_occurrencesFrom]
  rw [next_eq]
  cases hseek : seek p.bytes s.cursor s.rest with
  | none =>
    rw [hseek] at hscan
    exact Or.inl ⟨hscan, rfl⟩
  | some found =>
    obtain ⟨j, behind⟩ := found
    rw [hseek] at hscan
    exact Or.inr ⟨⟨j, p.length⟩, ⟨j + p.length, behind⟩, rfl, rfl, rfl, hscan, rfl⟩

namespace Scans

theorem finish (h : s.Scans data) (p : Pattern) : (s.finish p).Scans data := by
  have hpos := p.length_pos
  have hlength : s.rest.length = data.length - s.cursor := by rw [h.rest_eq, List.length_drop]
  have hle := h.cursor_le
  constructor
  · simp only [Scanner.finish]
    omega
  · simp only [Scanner.finish, h.rest_eq, List.drop_drop]

/-- Two scanners of the same bytes differ in their offsets only. -/
theorem eq_of_cursor_eq {t : Scanner} (h : s.Scans data) (h' : t.Scans data)
    (hcursor : s.cursor = t.cursor) : s = t := by
  have hrest : s.rest = t.rest := by rw [h.rest_eq, h'.rest_eq, hcursor]
  cases s
  cases t
  cases hcursor
  cases hrest
  rfl

/-- Each occurrence that is still to come starts at the cursor or behind it and ends inside. -/
theorem of_mem_remaining (h : s.Scans data) (ho : o ∈ s.remaining p) :
    s.cursor ≤ o.offset ∧ o.stop ≤ data.length := by
  rw [remaining_eq_occurrencesFrom] at ho
  have hscan : IsScanFrom p data s.cursor (occurrencesFrom p s.cursor s.rest) :=
    (isScanFrom_iff h.rest_eq.symm).mpr rfl
  obtain ⟨hlength, hinside, -⟩ := hscan.exact_match o ho
  exact ⟨hscan.ahead o ho, by rwa [Occurrence.stop, hlength]⟩

theorem behind (h : s.Scans data) (hstart : s.cursor ≤ o.offset) (hstop : o.stop ≤ data.length) :
    (s.behind o).Scans data := by
  refine ⟨hstop, ?_⟩
  have hle : s.cursor ≤ o.stop := hstart.trans (Nat.le_add_right _ _)
  simp only [Scanner.behind, h.rest_eq, List.drop_drop, Nat.add_sub_cancel' hle]

theorem next (h : s.Scans data) (p : Pattern) : (s.next p).2.Scans data := by
  rcases next_cases p s with ⟨-, hnext⟩ | ⟨o, t, hseek, hlength, hcursor, -, hnext⟩
  · rw [hnext]
    exact h.finish p
  · obtain ⟨-, ⟨hroom, -⟩, hbehind⟩ := matchesAt_of_seek hseek h.rest_eq.symm
    have hstop : t.cursor = o.offset + p.length := by rw [hcursor, Occurrence.stop, hlength]
    rw [hnext]
    exact ⟨hstop ▸ hroom, by rw [hstop, hbehind]⟩

/-- **A call ends, and every window is inside.** The offset at which it ends is the cursor. -/
theorem probe?_eq (h : s.Scans data) (p : Pattern) :
    probe? data p s.cursor = some ((s.next p).1, (s.next p).2.cursor) := by
  rw [probe?_eq_seek h.rest_eq.symm, next_eq]
  cases seek p.bytes s.cursor s.rest with
  | none => rfl
  | some found => rfl

/-- **To drain a scanner is to ask it for the next occurrence** until there is none. -/
theorem drain_eq (h : s.Scans data) (p : Pattern) :
    s.drain p =
      match s.next p with
      | (none, t) => ([], t)
      | (some o, t) => (o :: (t.drain p).1, (t.drain p).2) := by
  rcases next_cases p s with ⟨hnone, hnext⟩ | ⟨o, t, -, -, hcursor, hsome, hnext⟩
  · simp only [hnext, drain, hnone, List.getLast?_nil, Option.elim_none]
  · have ht : t.Scans data := by simpa [hnext] using h.next p
    have hbehind : ∀ b ∈ s.remaining p, (s.behind b).Scans data := fun b hb =>
      h.behind (h.of_mem_remaining hb).1 (h.of_mem_remaining hb).2
    rw [hsome] at hbehind
    simp only [hnext, drain, hsome]
    cases hlast : (t.remaining p).getLast? with
    | none =>
      -- nothing is behind the occurrence, so the scanner has come there already
      have hempty : t.remaining p = [] := List.getLast?_eq_none_iff.mp hlast
      have hfirst := hbehind o List.mem_cons_self
      simp only [hempty, List.getLast?_singleton, Option.elim_some, Option.elim_none,
        hfirst.eq_of_cursor_eq ht hcursor.symm]
    | some b =>
      have hb : b ∈ t.remaining p := List.mem_of_getLast? hlast
      have hend := ht.behind (ht.of_mem_remaining hb).1 (ht.of_mem_remaining hb).2
      have hcons : (o :: t.remaining p).getLast? = some b := by
        rw [List.getLast?_cons, hlast, Option.getD_some]
      have hsame := (hbehind b (List.mem_cons_of_mem _ hb)).eq_of_cursor_eq hend rfl
      simp only [hcons, Option.elim_some, hsame]

theorem drain (h : s.Scans data) (p : Pattern) : (s.drain p).2.Scans data := by
  rw [Scanner.drain]
  cases hlast : (s.remaining p).getLast? with
  | none => exact h.finish p
  | some o =>
    obtain ⟨hstart, hstop⟩ := h.of_mem_remaining (List.mem_of_getLast? hlast)
    exact (h.behind hstart hstop).finish p

/-- Draining ends where passing over all that are still to come, and more, ends. -/
theorem drain_eq_nth (h : s.Scans data) (hk : (s.remaining p).length ≤ k) :
    (s.drain p).2 = (s.nth p k).2 := by
  induction k generalizing s with
  | zero =>
    have hnone : s.remaining p = [] := List.length_eq_zero_iff.mp (Nat.le_zero.mp hk)
    rcases next_cases p s with ⟨-, hnext⟩ | ⟨o, t, -, -, -, hsome, -⟩
    · rw [h.drain_eq, nth, hnext]
    · cases hnone.symm.trans hsome
  | succ k ih =>
    rcases next_cases p s with ⟨-, hnext⟩ | ⟨o, t, -, -, -, hsome, hnext⟩
    · rw [h.drain_eq, nth, hnext]
    · have ht : t.Scans data := by simpa [hnext] using h.next p
      have hfewer : (t.remaining p).length ≤ k := by simpa [hsome] using hk
      simpa only [h.drain_eq, nth, hnext] using ih ht hfewer

end Scans

/-- Behind a search that failed a scanner answers that there is nothing, and stays where it is. -/
theorem nth_finish (p : Pattern) (s : Scanner) (k : Nat) :
    (s.finish p).nth p k = (none, s.finish p) := by
  have hnext : (s.finish p).next p = (none, s.finish p) := by
    rcases next_cases p (s.finish p) with ⟨-, hnext⟩ | ⟨o, t, -, -, -, hsome, -⟩
    · rw [hnext, finish_finish]
    · cases (remaining_finish p s).symm.trans hsome
  cases k with
  | zero => exact hnext
  | succ k => rw [nth, hnext]

theorem eq_finish_of_next_eq_none (h : (s.next p).1 = none) : (s.next p).2 = s.finish p := by
  rcases next_cases p s with ⟨-, hnext⟩ | ⟨o, t, -, -, -, -, hnext⟩
  · rw [hnext]
  · simp [hnext] at h

/-! ### The index that a scanner stands for -/

/-- What the scanner would still find is the list of all occurrences without its first `i`
members. -/
structure StandsAt (s : Scanner) (data : Bytes) (p : Pattern) (i : Nat) : Prop
    extends s.Scans data where
  le_length : i ≤ (findAll data p).length
  remaining_eq : s.remaining p = (findAll data p).drop i

theorem standsAt_start (data : Bytes) (p : Pattern) : (start data).StandsAt data p 0 :=
  ⟨scans_start data, Nat.zero_le _, rfl⟩

/-- A scanner that would find nothing more stands at the end. -/
theorem Scans.standsAt_end (h : s.Scans data) (hnone : s.remaining p = []) :
    s.StandsAt data p (findAll data p).length :=
  ⟨h, Nat.le_refl _, by rw [hnone, List.drop_length]⟩

namespace StandsAt

theorem next (h : s.StandsAt data p i) :
    (s.next p).1 = (findAll data p)[i]? ∧
      (s.next p).2.StandsAt data p (min (i + 1) (findAll data p).length) := by
  rcases next_cases p s with ⟨hnone, hnext⟩ | ⟨o, t, -, -, -, hsome, hnext⟩
  · have hend : (findAll data p).length ≤ i :=
      List.drop_eq_nil_iff.mp (h.remaining_eq.symm.trans hnone)
    rw [hnext, List.getElem?_eq_none hend, Nat.min_eq_right (Nat.le_succ_of_le hend)]
    exact ⟨rfl, (h.finish p).standsAt_end (remaining_finish p s)⟩
  · have hdrop : (findAll data p).drop i = o :: t.remaining p := h.remaining_eq.symm.trans hsome
    have hhere : (findAll data p)[i]? = some o := by rw [← List.head?_drop, hdrop, List.head?_cons]
    have hlater : t.remaining p = (findAll data p).drop (i + 1) := by
      rw [← List.tail_drop, hdrop, List.tail_cons]
    have hi : i + 1 ≤ (findAll data p).length := (List.getElem?_eq_some_iff.mp hhere).1
    have ht : t.Scans data := by simpa [hnext] using h.toScans.next p
    rw [hnext, hhere, Nat.min_eq_left hi]
    exact ⟨rfl, ht, hi, hlater⟩

theorem nth (h : s.StandsAt data p i) (k : Nat) :
    (s.nth p k).1 = (findAll data p)[i + k]? ∧
      (s.nth p k).2.StandsAt data p (min (i + k + 1) (findAll data p).length) := by
  induction k generalizing s i with
  | zero => exact h.next
  | succ k ih =>
    obtain ⟨hanswer, hstands⟩ := h.next
    rw [Scanner.nth]
    rcases next_cases p s with ⟨-, hnext⟩ | ⟨o, t, -, -, -, -, hnext⟩
    · rw [hnext] at hanswer hstands ⊢
      have hend : (findAll data p).length ≤ i := List.getElem?_eq_none_iff.mp hanswer.symm
      rw [Nat.min_eq_right (by omega)] at hstands
      rw [List.getElem?_eq_none (by omega), Nat.min_eq_right (by omega)]
      exact ⟨rfl, hstands⟩
    · rw [hnext] at hanswer hstands ⊢
      have hi : i < (findAll data p).length := (List.getElem?_eq_some_iff.mp hanswer.symm).1
      rw [Nat.min_eq_left hi] at hstands
      have hlater := ih hstands
      rwa [Nat.add_right_comm i 1 k, Nat.add_assoc i k 1] at hlater

theorem drain (h : s.StandsAt data p i) :
    (s.drain p).1 = (findAll data p).drop i ∧
      (s.drain p).2.StandsAt data p (findAll data p).length :=
  ⟨h.remaining_eq, (h.toScans.drain p).standsAt_end (remaining_finish p _)⟩

end StandsAt

end Scanner

/-! ### Steps -/

/-- What can be done with a scanner. -/
inductive ScanStep
  /-- Asks for the next occurrence. -/
  | next
  /-- Asks for the occurrence behind the next `k`. -/
  | nth (k : Nat)
  /-- Counts what a copy of the scanner would still find. -/
  | count
  /-- Lists what a copy of the scanner would still find. -/
  | collect
  /-- Takes all that is still to be found. -/
  | drain
  /-- Sets the scanner up anew. -/
  | restart
  deriving DecidableEq, Repr

/-- What there is to learn from a step. -/
inductive ScanAnswer
  | occurrence (found : Option Occurrence)
  | number (n : Nat)
  | list (found : List Occurrence)
  | nothing
  deriving DecidableEq, Repr

/-- What a scanner of the given bytes does. -/
def Scanner.step (data : Bytes) (p : Pattern) (s : Scanner) : ScanStep → ScanAnswer × Scanner
  | .next => (.occurrence (s.next p).1, (s.next p).2)
  | .nth k => (.occurrence (s.nth p k).1, (s.nth p k).2)
  | .count => (.number (s.remaining p).length, s)
  | .collect => (.list (s.remaining p), s)
  | .drain => (.list (s.drain p).1, (s.drain p).2)
  | .restart => (.nothing, .start data)

namespace ScanStep

/-- What a reader of a list does, who has come to the index `i`. -/
def read (found : List Occurrence) (i : Nat) : ScanStep → ScanAnswer × Nat
  | next => (.occurrence found[i]?, min (i + 1) found.length)
  | nth k => (.occurrence found[i + k]?, min (i + k + 1) found.length)
  | count => (.number (found.length - i), i)
  | collect => (.list (found.drop i), i)
  | drain => (.list (found.drop i), found.length)
  | restart => (.nothing, 0)

/-- Takes steps one after the other. Returns all answers, and where the steps lead to. -/
def follow {σ : Type} (step : σ → ScanStep → ScanAnswer × σ) (state : σ) :
    List ScanStep → List ScanAnswer × σ
  | [] => ([], state)
  | x :: more =>
    let (answer, state) := step state x
    let (answers, state) := follow step state more
    (answer :: answers, state)

end ScanStep

namespace Scanner

/-- **A step of a scanner is a step of the reader.** -/
theorem StandsAt.step (h : s.StandsAt data p i) (x : ScanStep) :
    (s.step data p x).1 = (x.read (findAll data p) i).1 ∧
      (s.step data p x).2.StandsAt data p (x.read (findAll data p) i).2 := by
  cases x with
  | next => exact ⟨congrArg ScanAnswer.occurrence h.next.1, h.next.2⟩
  | nth k => exact ⟨congrArg ScanAnswer.occurrence (h.nth k).1, (h.nth k).2⟩
  | count =>
    refine ⟨congrArg ScanAnswer.number ?_, h⟩
    rw [h.remaining_eq, List.length_drop]
  | collect => exact ⟨congrArg ScanAnswer.list h.remaining_eq, h⟩
  | drain => exact ⟨congrArg ScanAnswer.list h.drain.1, h.drain.2⟩
  | restart => exact ⟨rfl, standsAt_start data p⟩

/-- Whatever a scanner and the reader do, they give the same answers and stay together. -/
theorem StandsAt.follow (h : s.StandsAt data p i) (steps : List ScanStep) :
    (ScanStep.follow (Scanner.step data p) s steps).1 =
        (ScanStep.follow (ScanStep.read (findAll data p)) i steps).1 ∧
      (ScanStep.follow (Scanner.step data p) s steps).2.StandsAt data p
        (ScanStep.follow (ScanStep.read (findAll data p)) i steps).2 := by
  induction steps generalizing s i with
  | nil => exact ⟨rfl, h⟩
  | cons x more ih =>
    obtain ⟨hanswer, hstands⟩ := h.step x
    obtain ⟨hanswers, hlast⟩ := ih hstands
    exact ⟨congrArg₂ List.cons hanswer hanswers, hlast⟩

end Scanner

/-- **A scanner is an index into the list of all occurrences**, whatever is done with it.

Wherever that has led to, the scanner is inside the bytes, and a search from there ends and compares
windows that are inside. Once a search has found nothing, every later one finds nothing. -/
theorem scanner_reads_findAll (data : Bytes) (p : Pattern) (steps : List ScanStep) :
    let found := findAll data p
    let answers := (ScanStep.follow (Scanner.step data p) (Scanner.start data) steps).1
    let s := (ScanStep.follow (Scanner.step data p) (Scanner.start data) steps).2
    answers = (ScanStep.follow (ScanStep.read found) 0 steps).1 ∧
      (s.cursor ≤ data.length ∧ s.rest = data.drop s.cursor) ∧
      probe? data p s.cursor = some ((s.next p).1, (s.next p).2.cursor) ∧
      ((s.next p).1 = none → ∀ k, (s.next p).2.nth p k = (none, (s.next p).2)) ∧
      (s.drain p).2 = (s.nth p found.length).2 ∧
      first data p = found.head? ∧ count data p = found.length := by
  intro found answers s
  have hstart := Scanner.standsAt_start data p
  obtain ⟨hanswers, hstands⟩ := hstart.follow steps
  have hscans : s.Scans data := hstands.toScans
  have hfew : (s.remaining p).length ≤ found.length := by
    rw [hstands.remaining_eq, List.length_drop]
    exact Nat.sub_le _ _
  refine ⟨hanswers, ⟨hscans.cursor_le, hscans.rest_eq⟩, hscans.probe?_eq p, fun hnone k => ?_,
    hscans.drain_eq_nth hfew, ?_, rfl⟩
  · rw [Scanner.eq_finish_of_next_eq_none hnone]
    exact Scanner.nth_finish p s k
  · rw [List.head?_eq_getElem?]
    exact hstart.next.1

end ByteSplice
