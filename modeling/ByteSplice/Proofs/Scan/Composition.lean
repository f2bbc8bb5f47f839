import ByteSplice.Proofs.Scan

/-!
# Scanning bytes in pieces

Bytes can be scanned before all of them are there, and a scan can be taken up again where it has
been left. Both hold because a scan takes the match that it comes to first, and never looks back.

## What is appended

Appended bytes can complete a match that has begun in front of them, so there may be new matches
across the seam, and where the pattern overlaps itself a new match may even start inside an old one.
Neither touches what was found. All matches have one length, so of two that overlap the one that
starts first also ends first; a match that ends in front of the seam can only be left out for one
that ends there as well.

This needs no walk along both scans. The occurrences that end in front of the seam have the three
properties that single out a scan of the front (`IsScanFrom.of_append`), so they are that scan.

## Where a scan is cut

The end of an occurrence is a place where a scan can be cut in two. Behind it the scan knows of
nothing in front (`IsScanFrom.behind`), and offsets are counted from wherever one likes
(`occurrencesFrom_add`). What is in front is the scan of the bytes up to there, since the rest of
the bytes can be taken as appended.

## Main definitions

* `Occurrence.shift`

## Main results

* `IsScanFrom.of_append`, `filter_findAll_append`
* `IsScanFrom.behind`, `findAll_behind`
* `findAll_composes`
-/

namespace ByteSplice

variable {p : Pattern} {data front back : Bytes} {o : Occurrence}
  {found earlier later : List Occurrence} {i : Nat}

/-- An occurrence in bytes that have `n` more in front of them. -/
def Occurrence.shift (n : Nat) (o : Occurrence) : Occurrence :=
  ⟨n + o.offset, o.length⟩

/-! ### Bytes that are appended -/

/-- A window that ends in front of the seam shows what it showed before. -/
theorem Pattern.matchesAt_append_iff (hinside : i + p.length ≤ front.length) :
    p.MatchesAt (front ++ back) i ↔ p.MatchesAt front i := by
  have hwindow : ((front ++ back).drop i).take p.length = (front.drop i).take p.length := by
    rw [List.drop_append_of_le_length (by omega), List.take_append_of_le_length]
    rw [List.length_drop]
    omega
  have hroom : i + p.length ≤ (front ++ back).length := by
    rw [List.length_append]
    omega
  rw [MatchesAt, MatchesAt, hwindow]
  simp only [hroom, hinside, true_and]

/-- **What a scan finds in front of the seam is a scan of the front.** -/
theorem IsScanFrom.of_append (h : IsScanFrom p (front ++ back) i found) :
    IsScanFrom p front i (found.filter fun o => o.stop ≤ front.length) := by
  have hmem : ∀ o, o ∈ found.filter (fun o => o.stop ≤ front.length) ↔
      o ∈ found ∧ o.stop ≤ front.length := by
    simp
  refine ⟨fun o ho => ?_, ?_, fun o ho => h.ahead o ((hmem o).mp ho).1, fun j hj hm => ?_⟩
  · obtain ⟨ho, hstop⟩ := (hmem o).mp ho
    obtain ⟨hlength, hmatch⟩ := h.exact_match o ho
    rw [Occurrence.stop, hlength] at hstop
    exact ⟨hlength, (Pattern.matchesAt_append_iff hstop).mp hmatch⟩
  · exact List.isChain_iff_pairwise.mpr ((List.isChain_iff_pairwise.mp h.ordered).filter _)
  · -- what keeps a match from being found starts no later, so it ends in front of the seam too
    obtain ⟨o, ho, hcover⟩ := h.complete j hj ((Pattern.matchesAt_append_iff hm.1).mpr hm)
    refine ⟨o, (hmem o).mpr ⟨ho, ?_⟩, hcover⟩
    have hlength := (h.exact_match o ho).1
    have hroom := hm.1
    rw [Occurrence.stop, hlength]
    omega

/-- **Appending bytes leaves alone what ends in front of them.** -/
theorem filter_findAll_append (front back : Bytes) (p : Pattern) :
    (findAll (front ++ back) p).filter (fun o => o.stop ≤ front.length) = findAll front p :=
  isScanFrom_zero_iff.mp (isScanFrom_findAll (front ++ back) p).of_append

/-! ### Offsets -/

/-- What is found depends on the first offset only in that all offsets are counted from it. -/
theorem occurrencesFrom_add (p : Pattern) (n i : Nat) (data : Bytes) :
    occurrencesFrom p (n + i) data = (occurrencesFrom p i data).map (Occurrence.shift n) := by
  induction i, data using occurrencesFrom.induct p with
  | case1 i => simp
  | case2 i b rest hmatch ih =>
    rw [occurrencesFrom_of_isPrefix hmatch, occurrencesFrom_of_isPrefix hmatch, List.map_cons,
      Nat.add_assoc, ih]
    rfl
  | case3 i b rest hmiss ih =>
    rw [occurrencesFrom_of_not_isPrefix hmiss, occurrencesFrom_of_not_isPrefix hmiss,
      Nat.add_assoc, ih]

/-! ### The end of an occurrence -/

/-- Of the occurrences around a given one, those in front end where it starts or before, and those
behind start where it ends or later. -/
theorem IsScanFrom.around (h : IsScanFrom p data i (earlier ++ o :: later)) :
    (∀ x ∈ earlier, x.stop ≤ o.offset) ∧ ∀ x ∈ later, o.stop ≤ x.offset := by
  have hpairs := List.pairwise_append.mp (List.isChain_iff_pairwise.mp h.ordered)
  obtain ⟨-, hlater, hseam⟩ := hpairs
  exact ⟨fun x hx => hseam x hx o List.mem_cons_self, (List.pairwise_cons.mp hlater).1⟩

/-- **Behind an occurrence a scan goes on from its end**, and nothing in front matters to it. -/
theorem IsScanFrom.behind (h : IsScanFrom p data i (earlier ++ o :: later)) :
    IsScanFrom p data o.stop later := by
  have hpos := p.length_pos
  obtain ⟨hfront, hnext⟩ := h.around
  have hordered : later.IsChain Occurrence.Before := h.ordered.right_of_append.tail
  refine ⟨fun x hx => h.exact_match x (by simp [hx]), hordered, hnext, fun j hj hm => ?_⟩
  have hstart : i ≤ o.offset := h.ahead o (by simp)
  have hstop : o.stop = o.offset + o.length := rfl
  obtain ⟨x, hx, hcover⟩ := h.complete j (by omega) hm
  have hlength := (h.exact_match x hx).1
  have hend : x.stop = x.offset + x.length := rfl
  -- what ends at the cursor or in front of it covers nothing from there on
  have hbehind : ¬ x.stop ≤ o.stop := by omega
  rcases List.mem_append.mp hx with hx | hx
  · have hbefore := hfront x hx
    omega
  · rcases List.mem_cons.mp hx with rfl | hx
    · omega
    · exact ⟨x, hx, hcover⟩

/-- What is found behind an occurrence is what a scan finds that begins there. -/
theorem findAll_behind (h : findAll data p = earlier ++ o :: later) :
    later = (findAll (data.drop o.stop) p).map (Occurrence.shift o.stop) := by
  have hscan : IsScanFrom p data o.stop later := (h ▸ isScanFrom_findAll data p).behind
  rw [(isScanFrom_iff rfl).mp hscan, findAll_eq, ← occurrencesFrom_add, Nat.add_zero]

/-- The occurrences that end in front of the end of a given one, or there, are those up to it. -/
theorem filter_stop_le (h : IsScanFrom p data i (earlier ++ o :: later)) :
    (earlier ++ o :: later).filter (fun x => x.stop ≤ o.stop) = earlier ++ [o] := by
  have hpos := p.length_pos
  obtain ⟨hfront, hnext⟩ := h.around
  have hearlier : earlier.filter (fun x => x.stop ≤ o.stop) = earlier := by
    refine List.filter_eq_self.mpr fun x hx => decide_eq_true ?_
    have hbefore := hfront x hx
    have hstop : o.stop = o.offset + o.length := rfl
    omega
  have hlater : later.filter (fun x => x.stop ≤ o.stop) = [] := by
    refine List.filter_eq_nil_iff.mpr fun x hx => ?_
    have hbehind := hnext x hx
    have hlength := (h.exact_match x (by simp [hx])).1
    have hstop : x.stop = x.offset + x.length := rfl
    rw [decide_eq_true_eq]
    omega
  rw [List.filter_append, hearlier, List.filter_cons_of_pos (by simp), hlater]

/-- **A scan can be made in pieces.**

Whatever bytes are appended, the occurrences that end in front of them are those that were there
without them. Where an occurrence ends, a scan falls apart: up to there it is the scan of the bytes
up to there, and from there on it is the scan of the bytes from there on, with offsets counted from
the start of all bytes. -/
theorem findAll_composes (p : Pattern) :
    (∀ front back : Bytes,
      (findAll (front ++ back) p).filter (fun o => o.stop ≤ front.length) = findAll front p) ∧
    ∀ (data : Bytes) (earlier later : List Occurrence) (o : Occurrence),
      findAll data p = earlier ++ o :: later →
        later = (findAll (data.drop o.stop) p).map (Occurrence.shift o.stop) ∧
        earlier ++ [o] = findAll (data.take o.stop) p := by
  refine ⟨fun front back => filter_findAll_append front back p,
    fun data earlier later o h => ⟨findAll_behind h, ?_⟩⟩
  have hscan : IsScanFrom p data 0 (earlier ++ o :: later) := h ▸ isScanFrom_findAll data p
  have hinside : o.stop ≤ data.length := by
    obtain ⟨hlength, hroom, -⟩ := hscan.exact_match o (by simp)
    rwa [Occurrence.stop, hlength]
  have hfront : (data.take o.stop).length = o.stop := List.length_take_of_le hinside
  calc earlier ++ [o]
      = (findAll data p).filter (fun x => x.stop ≤ o.stop) := by rw [h, filter_stop_le hscan]
    _ = findAll (data.take o.stop) p := by
      have hcut := filter_findAll_append (data.take o.stop) (data.drop o.stop) p
      rwa [List.take_append_drop, hfront] at hcut

/-- In `aaaaaaaa` the pattern `aaa` is found at 0 and 3. Cut behind the first of the two, the bytes
in front hold that one and those behind hold the other at 0. Cut inside the second, the bytes in
front hold the first one still and nothing else. -/
theorem findAll_composes_overlapping :
    let p : Pattern := ⟨[0x61, 0x61, 0x61], by decide⟩
    let data : Bytes := List.replicate 8 0x61
    findAll data p = [] ++ ⟨0, 3⟩ :: [⟨3, 3⟩] ∧
      [⟨3, 3⟩] = (findAll (data.drop 3) p).map (Occurrence.shift 3) ∧
      [⟨0, 3⟩] = findAll (data.take 3) p ∧
      (findAll data p).filter (fun o => o.stop ≤ 5) = findAll (data.take 5) p := by
  intro p data
  have hscan : findAll data p = [] ++ ⟨0, 3⟩ :: [⟨3, 3⟩] := by decide +kernel
  obtain ⟨hbehind, hfront⟩ := (findAll_composes p).2 data [] [⟨3, 3⟩] ⟨0, 3⟩ hscan
  exact ⟨hscan, hbehind, hfront, (findAll_composes p).1 (data.take 5) (data.drop 5)⟩

end ByteSplice
