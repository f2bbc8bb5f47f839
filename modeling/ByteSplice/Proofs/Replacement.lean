import ByteSplice.Proofs.Scan
import ByteSplice.Splice

/-!
# Scanning and splicing in one pass

A scan says where the pattern is, and a splice puts the replacement there. The two are separate
walks along the same bytes, each with a cursor of its own, and all that goes from one to the other
is a list of offsets. `replaceAll` is the one walk that does both: where the pattern stands it
writes the replacement and goes on behind the match, elsewhere it copies a byte.

## The gap

A splice copies in pieces and the one pass copies in bytes, so they agree at the occurrences only.
In between the splice is behind by the bytes that have been passed over since the last match. These
are the `gap` of `splice_occurrencesFrom`; the scan is ahead of the splice by its length.

## Pieces

The one pass takes a match off the front of the bytes, or whatever has no byte in common with the
pattern, and goes on with the rest as if there had been nothing before it. What is said of several
replacements on the same bytes is said of one such piece after the other.

## Main definitions

* `replaceAll`

## Main results

* `splice_findAll`
* `replaceAll_pattern_append`, `replaceAll_append_of_disjoint`: the pieces that bytes fall into.
* `isPrefix_replaceAll`, `isPrefix_of_isPrefix_replaceAll`
* `replaceAll_of_not_matchesAt`
* `length_replaceAll`
-/

namespace ByteSplice

variable {p : Pattern} {replacement data rest gap : Bytes} {b : UInt8}

/-! ### One pass -/

/-- The bytes with every match replaced, from left to right and in one pass. -/
def replaceAll (p : Pattern) (replacement : Bytes) : Bytes → Bytes
  | [] => []
  | b :: rest =>
    if p.bytes <+: b :: rest then
      replacement ++ replaceAll p replacement ((b :: rest).drop p.length)
    else b :: replaceAll p replacement rest
termination_by data => data.length
decreasing_by
  · have hpos := p.length_pos
    simp only [List.length_drop, List.length_cons]
    omega
  · exact Nat.lt_succ_self _

@[simp] theorem replaceAll_nil (p : Pattern) (replacement : Bytes) :
    replaceAll p replacement [] = [] := by
  rw [replaceAll]

theorem replaceAll_of_isPrefix (h : p.bytes <+: data) :
    replaceAll p replacement data =
      replacement ++ replaceAll p replacement (data.drop p.length) := by
  cases data with
  | nil => exact absurd (List.prefix_nil.mp h) p.bytes_ne_nil
  | cons b rest => rw [replaceAll, if_pos h]

theorem replaceAll_of_not_isPrefix (h : ¬ p.bytes <+: b :: rest) :
    replaceAll p replacement (b :: rest) = b :: replaceAll p replacement rest := by
  rw [replaceAll, if_neg h]

/-- Bytes at which no match begins are copied. -/
theorem replaceAll_append {front : Bytes}
    (h : ∀ i < front.length, ¬ p.bytes <+: (front ++ data).drop i) :
    replaceAll p replacement (front ++ data) = front ++ replaceAll p replacement data := by
  induction front with
  | nil => rfl
  | cons b rest ih =>
    have hhere : ¬ p.bytes <+: b :: (rest ++ data) := h 0 (Nat.succ_pos _)
    have hlater : ∀ i < rest.length, ¬ p.bytes <+: (rest ++ data).drop i := fun i hi =>
      h (i + 1) (Nat.succ_lt_succ hi)
    rw [List.cons_append, replaceAll_of_not_isPrefix hhere, ih hlater, List.cons_append]

/-! ### Pieces -/

theorem replaceAll_pattern_append (p : Pattern) (replacement rest : Bytes) :
    replaceAll p replacement (p.bytes ++ rest) = replacement ++ replaceAll p replacement rest := by
  rw [replaceAll_of_isPrefix (List.prefix_append _ _), Pattern.length, List.drop_left]

theorem count_pattern_append (p : Pattern) (rest : Bytes) :
    count (p.bytes ++ rest) p = count rest p + 1 := by
  rw [count_of_isPrefix (List.prefix_append _ _), Pattern.length, List.drop_left]

/-- What bytes begin with has its first byte in common with them. -/
theorem not_isPrefix_append_of_disjoint {bytes front : Bytes}
    (hdisjoint : List.Disjoint bytes front) (hbytes : bytes ≠ []) (hfront : front ≠ []) :
    ¬ bytes <+: front ++ data := by
  obtain ⟨b, more, rfl⟩ := List.exists_cons_of_ne_nil hbytes
  obtain ⟨c, others, rfl⟩ := List.exists_cons_of_ne_nil hfront
  intro h
  obtain rfl := (List.cons_prefix_cons.mp h).1
  exact hdisjoint List.mem_cons_self List.mem_cons_self

section Disjoint

variable {front : Bytes} (hdisjoint : List.Disjoint p.bytes front)

include hdisjoint

/-- No match begins among bytes that have none in common with the pattern. -/
theorem not_isPrefix_drop_of_disjoint :
    ∀ i < front.length, ¬ p.bytes <+: (front ++ data).drop i := by
  intro i hi
  rw [List.drop_append_of_le_length hi.le]
  refine not_isPrefix_append_of_disjoint (fun b hb hfront => ?_) p.bytes_ne_nil ?_
  · exact hdisjoint hb (List.mem_of_mem_drop hfront)
  · exact List.ne_nil_of_length_pos (by rw [List.length_drop]; omega)

theorem replaceAll_append_of_disjoint :
    replaceAll p replacement (front ++ data) = front ++ replaceAll p replacement data :=
  replaceAll_append (not_isPrefix_drop_of_disjoint hdisjoint)

theorem count_append_of_disjoint : count (front ++ data) p = count data p :=
  count_append (not_isPrefix_drop_of_disjoint hdisjoint)

end Disjoint

/-- What the bytes begin with is not changed by replacing something else. -/
theorem isPrefix_replaceAll {bytes : Bytes} (hpattern : List.Disjoint bytes p.bytes)
    (h : bytes <+: data) : bytes <+: replaceAll p replacement data := by
  induction data using replaceAll.induct p generalizing bytes with
  | case1 => rwa [replaceAll_nil]
  | case2 b rest hmatch ih =>
    by_cases hbytes : bytes = []
    · simp [hbytes]
    · obtain ⟨behind, hbehind⟩ := hmatch
      rw [← hbehind] at h
      exact absurd h (not_isPrefix_append_of_disjoint hpattern hbytes p.bytes_ne_nil)
  | case3 b rest hmiss ih =>
    rw [replaceAll_of_not_isPrefix hmiss]
    cases bytes with
    | nil => simp
    | cons c more =>
      obtain ⟨rfl, hmore⟩ := List.cons_prefix_cons.mp h
      exact List.cons_prefix_cons.mpr ⟨rfl, ih (List.disjoint_cons_left.mp hpattern).2 hmore⟩

/-- **Nothing is begun by a replacement** that has none of its bytes. Only a replacement of no bytes
could bring together what was apart. -/
theorem isPrefix_of_isPrefix_replaceAll {bytes : Bytes}
    (hreplacement : List.Disjoint bytes replacement) (hne : replacement ≠ [])
    (h : bytes <+: replaceAll p replacement data) : bytes <+: data := by
  induction data using replaceAll.induct p generalizing bytes with
  | case1 => rwa [replaceAll_nil] at h
  | case2 b rest hmatch ih =>
    by_cases hbytes : bytes = []
    · simp [hbytes]
    · rw [replaceAll_of_isPrefix hmatch] at h
      exact absurd h (not_isPrefix_append_of_disjoint hreplacement hbytes hne)
  | case3 b rest hmiss ih =>
    rw [replaceAll_of_not_isPrefix hmiss] at h
    cases bytes with
    | nil => simp
    | cons c more =>
      obtain ⟨rfl, hmore⟩ := List.cons_prefix_cons.mp h
      exact List.cons_prefix_cons.mpr ⟨rfl, ih (List.disjoint_cons_left.mp hreplacement).2 hmore⟩

/-! ### A scan and a splice -/

/-- The cursor of a splice moves behind an occurrence that lies ahead of it. -/
theorem splice_cons {total cursor : Nat} {written : List Bytes} {o : Occurrence}
    {more : List Occurrence} (hstart : o.offset = cursor + gap.length) (hstop : o.stop ≤ total) :
    splice replacement total written cursor (gap ++ data) (o :: more) =
      splice replacement total (replacement :: gap :: written) o.stop (data.drop o.length)
        more := by
  have htake : (gap ++ data).take (o.offset - cursor) = gap := by
    rw [hstart, Nat.add_sub_cancel_left, List.take_left]
  have hdrop : (gap ++ data).drop (o.stop - cursor) = data.drop o.length := by
    rw [Occurrence.stop, hstart, Nat.add_assoc, Nat.add_sub_cancel_left,
      ← List.drop_drop, List.drop_left]
  have hfit : ¬ (o.offset < cursor ∨ total < o.stop) := by omega
  rw [splice, if_neg hfit, htake, hdrop]

/-- What a scan finds ahead of the cursor, the splice replaces. -/
theorem splice_occurrencesFrom {total i : Nat} (cursor : Nat) (written : List Bytes) (gap : Bytes)
    (hi : i = cursor + gap.length) (htotal : total = i + data.length) :
    splice replacement total written cursor (gap ++ data) (occurrencesFrom p i data) =
      .ok (written.reverse.flatten ++ gap ++ replaceAll p replacement data) := by
  induction i, data using occurrencesFrom.induct p generalizing cursor written gap with
  | case1 i => simp [splice]
  | case2 i b rest hmatch ih =>
    rw [occurrencesFrom_of_isPrefix hmatch, replaceAll_of_isPrefix hmatch]
    have hle : p.length ≤ (b :: rest).length := hmatch.length_le
    have hstop : (⟨i, p.length⟩ : Occurrence).stop ≤ total := by
      rw [Occurrence.stop, htotal]
      exact Nat.add_le_add_left hle i
    rw [splice_cons hi hstop]
    have hrest := ih (i + p.length) (replacement :: gap :: written) [] rfl (by
      rw [List.length_drop, htotal]
      omega)
    simpa [Occurrence.stop] using hrest
  | case3 i b rest hmiss ih =>
    rw [occurrencesFrom_of_not_isPrefix hmiss, replaceAll_of_not_isPrefix hmiss]
    have hrest := ih cursor written (gap ++ [b])
      (by rw [hi, List.length_append, List.length_singleton, Nat.add_assoc])
      (by rw [htotal, List.length_cons]; omega)
    simpa using hrest

/-- **A splice by the occurrences of a scan is the one pass.** -/
theorem splice_findAll (p : Pattern) (replacement data : Bytes) :
    splice replacement data.length [] 0 data (findAll data p) =
      .ok (replaceAll p replacement data) := by
  rw [findAll_eq]
  exact splice_occurrencesFrom 0 [] [] rfl (Nat.zero_add _).symm

/-- Where there is no match there is nothing to replace. -/
theorem replaceAll_of_not_matchesAt (replacement : Bytes) (h : ∀ i, ¬ p.MatchesAt data i) :
    replaceAll p replacement data = data := by
  have hsplice := splice_findAll p replacement data
  rw [findAll_eq_nil_iff.mpr h] at hsplice
  simpa [splice] using hsplice.symm

/-- Each match is replaced once, and what overlaps it on the right is not a match any more. -/
example : replaceAll ⟨[1, 1], by decide⟩ [2] [1, 1, 1, 1, 1] = [2, 2, 1] := by
  cbv

/-! ### Lengths -/

/-- Every match takes the bytes of the pattern away and brings those of the replacement. As sums on
both sides this needs no word about how much there is to take from. -/
theorem length_replaceAll_add (p : Pattern) (replacement : Bytes) (i : Nat) (data : Bytes) :
    (replaceAll p replacement data).length + (occurrencesFrom p i data).length * p.length =
      data.length + (occurrencesFrom p i data).length * replacement.length := by
  induction i, data using occurrencesFrom.induct p with
  | case1 i => simp
  | case2 i b rest hmatch ih =>
    have hle : p.length ≤ (b :: rest).length := hmatch.length_le
    rw [List.length_drop] at ih
    rw [replaceAll_of_isPrefix hmatch, occurrencesFrom_of_isPrefix hmatch, List.length_append,
      List.length_cons, Nat.succ_mul, Nat.succ_mul]
    omega
  | case3 i b rest hmiss ih =>
    rw [replaceAll_of_not_isPrefix hmiss, occurrencesFrom_of_not_isPrefix hmiss, List.length_cons,
      List.length_cons]
    omega

/-- The matches lie side by side in the bytes, so there is room for all of them. -/
theorem count_mul_length_le (p : Pattern) (data : Bytes) :
    count data p * p.length ≤ data.length := by
  have hdeleted := length_replaceAll_add p [] 0 data
  rw [← findAll_eq, List.length_nil, Nat.mul_zero, Nat.add_zero] at hdeleted
  rw [← hdeleted]
  exact Nat.le_add_left _ _

/-- **The length of the replaced bytes** is known from the number of matches. -/
theorem length_replaceAll (p : Pattern) (replacement data : Bytes) :
    (replaceAll p replacement data).length =
      data.length - count data p * p.length + count data p * replacement.length := by
  have hsum := length_replaceAll_add p replacement 0 data
  rw [← findAll_eq, show (findAll data p).length = count data p from rfl] at hsum
  have hroom := count_mul_length_le p data
  omega

end ByteSplice
