import ByteSplice.Proofs.Fitting
import Mathlib.Data.Nat.Find

/-!
# Plans that nobody has made

A plan is a value, and its occurrences may be any list of offsets and lengths: out of order, one
upon the other, of no length, or far behind the end. A splice looks at one occurrence at a time and
remembers nothing but a cursor. This module says that this is enough, for every list.

An occurrence is in place if it starts where the one before it ends, or later, and ends inside the
contents (`InPlace`). A splice gets through just if all occurrences are in place, and otherwise it
names the first that is not (`splice_eq_misplaced`). Both are inductions along the occurrences, in
which the end of the one before is the cursor.

## What comes out

`rewritten` says what the contents become without any walk, one place after the other. At each place
the replacement is written once for every occurrence that starts there, and then the byte of that
place follows unless an occurrence covers it. The order of the occurrences has no part in this. It
is what a splice yields whenever it gets through (`spliced_eq_rewritten`).

Offsets and lengths are numbers without a bound here, so an occurrence ends where its offset and its
length add up to.

## Main definitions

* `priorStop`, `InPlace`
* `rewrittenAt`, `rewritten`

## Main results

* `laidOut_iff_inPlace`, `splice_eq_misplaced`
* `spliced_eq_rewritten`
* `Plan.apply_guards_every_occurrence`
-/

namespace ByteSplice

variable {data replacement output rest : Bytes} {plan : Plan} {found more : List Occurrence}
  {o : Occurrence} {written : List Bytes} {cursor total i k : Nat}

/-! ### Occurrences in place -/

/-- Where the occurrence before the given one ends; for the first one, the cursor. -/
def priorStop (cursor : Nat) (found : List Occurrence) (k : Nat) : Nat :=
  (found.take k).getLast?.elim cursor Occurrence.stop

@[simp] theorem priorStop_zero (cursor : Nat) (found : List Occurrence) :
    priorStop cursor found 0 = cursor := by
  rw [priorStop, List.take_zero]
  rfl

/-- Behind the first occurrence the cursor is at its end. -/
@[simp] theorem priorStop_cons_succ (cursor : Nat) (o : Occurrence) (more : List Occurrence)
    (k : Nat) : priorStop cursor (o :: more) (k + 1) = priorStop o.stop more k := by
  rw [priorStop, priorStop, List.take_succ_cons, List.getLast?_cons]
  cases (more.take k).getLast? <;> rfl

/-- The rule for one occurrence, which is the given one of a list. -/
structure InPlace (cursor total : Nat) (found : List Occurrence) (k : Nat) (o : Occurrence) :
    Prop where
  /-- It starts where the one before it ends, or later. -/
  behind : priorStop cursor found k ≤ o.offset
  /-- It does not end behind the end. -/
  inside : o.stop ≤ total

instance (cursor total : Nat) (found : List Occurrence) (k : Nat) (o : Occurrence) :
    Decidable (InPlace cursor total found k o) :=
  decidable_of_iff (priorStop cursor found k ≤ o.offset ∧ o.stop ≤ total)
    ⟨fun h => ⟨h.1, h.2⟩, fun h => ⟨h.behind, h.inside⟩⟩

theorem inPlace_zero_iff :
    InPlace cursor total found 0 o ↔ cursor ≤ o.offset ∧ o.stop ≤ total :=
  ⟨fun ⟨hbehind, hinside⟩ => ⟨by simpa using hbehind, hinside⟩,
    fun ⟨hbehind, hinside⟩ => ⟨by simpa using hbehind, hinside⟩⟩

theorem inPlace_cons_succ_iff {b : Occurrence} :
    InPlace cursor total (o :: more) (k + 1) b ↔ InPlace o.stop total more k b :=
  ⟨fun ⟨hbehind, hinside⟩ => ⟨by simpa using hbehind, hinside⟩,
    fun ⟨hbehind, hinside⟩ => ⟨by simpa using hbehind, hinside⟩⟩

/-- **One at a time is enough.** Occurrences that are each in place with respect to the one before
lie one behind the other. -/
theorem laidOut_iff_inPlace :
    LaidOut cursor total found ↔ ∀ k o, found[k]? = some o → InPlace cursor total found k o := by
  induction found generalizing cursor with
  | nil => simp [laidOut_nil]
  | cons first more ih =>
    rw [laidOut_cons_iff, ih]
    constructor
    · rintro ⟨hfirst, hmore⟩ k o ho
      cases k with
      | zero =>
        obtain rfl : first = o := by simpa using ho
        exact inPlace_zero_iff.mpr hfirst
      | succ k => exact inPlace_cons_succ_iff.mpr (hmore k o (by simpa using ho))
    · intro h
      refine ⟨inPlace_zero_iff.mp (h 0 first rfl), fun k o ho => ?_⟩
      exact inPlace_cons_succ_iff.mp (h (k + 1) o (by simpa using ho))

/-- Occurrences without a length at the very front are in place. -/
theorem inPlace_replicate {n : Nat} (ho : (List.replicate n (⟨0, 0⟩ : Occurrence))[k]? = some o) :
    InPlace 0 total (List.replicate n ⟨0, 0⟩) k o := by
  have hlaid : LaidOut 0 total (List.replicate n ⟨0, 0⟩) := by
    refine ⟨List.isChain_replicate_of_rel n (Nat.le_refl 0), fun _ _ => Nat.zero_le _,
      fun b hb => ?_⟩
    rw [List.eq_of_mem_replicate hb, Occurrence.stop]
    exact Nat.zero_le _
  exact laidOut_iff_inPlace.mp hlaid k o ho

/-- **The first occurrence that is not in place is named.** -/
theorem splice_eq_misplaced (ho : found[k]? = some o)
    (hbefore : ∀ j < k, ∀ b, found[j]? = some b → InPlace cursor total found j b)
    (hmisplaced : ¬ InPlace cursor total found k o) :
    splice replacement total written cursor rest found = .error (.misplaced o.offset) := by
  induction found generalizing cursor written rest k with
  | nil => simp at ho
  | cons first more ih =>
    cases k with
    | zero =>
      obtain rfl : first = o := by simpa using ho
      rw [inPlace_zero_iff] at hmisplaced
      rw [splice, if_pos (by omega)]
    | succ k =>
      have hfirst := inPlace_zero_iff.mp (hbefore 0 (Nat.succ_pos k) first rfl)
      rw [splice, if_neg (by omega)]
      refine ih (by simpa using ho) (fun j hj b hb => ?_) (mt inPlace_cons_succ_iff.mpr hmisplaced)
      exact inPlace_cons_succ_iff.mp (hbefore (j + 1) (Nat.succ_lt_succ hj) b (by simpa using hb))

/-- If not all occurrences are in place, one of those that are not is the first. -/
theorem exists_first_misplaced
    (h : ¬ ∀ k o, found[k]? = some o → InPlace cursor total found k o) :
    ∃ k o, found[k]? = some o ∧ ¬ InPlace cursor total found k o ∧
      ∀ j < k, ∀ b, found[j]? = some b → InPlace cursor total found j b := by
  classical
  push Not at h
  let k := Nat.find h
  obtain ⟨o, ho, hmisplaced⟩ := Nat.find_spec h
  refine ⟨k, o, ho, hmisplaced, fun j hj b hb => ?_⟩
  by_contra hnot
  exact Nat.find_min h hj ⟨b, hb, hnot⟩

/-! ### The contents with ranges replaced -/

/-- The place belongs to the range of the occurrence. -/
def Occurrence.Covers (o : Occurrence) (i : Nat) : Prop :=
  o.offset ≤ i ∧ i < o.stop

instance (o : Occurrence) (i : Nat) : Decidable (o.Covers i) :=
  inferInstanceAs (Decidable (_ ∧ _))

/-- What one place of the contents becomes: the replacement for every occurrence that starts there,
and then the byte, unless an occurrence covers it. -/
def rewrittenAt (replacement data : Bytes) (found : List Occurrence) (i : Nat) : Bytes :=
  (found.filter fun o => o.offset = i).flatMap (fun _ => replacement) ++
    if ∃ o ∈ found, o.Covers i then [] else data[i]?.toList

/-- What the contents become, one place after the other. An occurrence without a length may stand
behind the last byte, so that place counts too. -/
def rewritten (replacement data : Bytes) (found : List Occurrence) : Bytes :=
  (List.range' 0 (data.length + 1)).flatMap (rewrittenAt replacement data found)

/-- Without occurrences every place keeps its byte. -/
theorem flatMap_getElem? (data : Bytes) (i n : Nat) :
    (List.range' i n).flatMap (fun j => data[j]?.toList) = (data.drop i).take n := by
  induction n generalizing i with
  | zero => rw [List.range'_zero, List.flatMap_nil, List.take_zero]
  | succ n ih =>
    rw [List.range'_succ, List.flatMap_cons, ih]
    by_cases hi : i < data.length
    · rw [List.drop_eq_getElem_cons hi, List.take_succ_cons, List.getElem?_eq_getElem hi]
      rfl
    · have hend : data.length ≤ i := Nat.not_lt.mp hi
      rw [List.getElem?_eq_none hend, List.drop_eq_nil_of_le hend,
        List.drop_eq_nil_of_le (hend.trans (Nat.le_succ i))]
      simp

section

variable (hlaid : LaidOut cursor data.length (o :: more))

include hlaid

/-- Up to the first occurrence every place keeps its byte. -/
theorem rewrittenAt_of_lt (replacement : Bytes) (hi : i < o.offset) :
    rewrittenAt replacement data (o :: more) i = data[i]?.toList := by
  obtain ⟨-, hmore⟩ := laidOut_cons_iff.mp hlaid
  have hbehind : ∀ b ∈ o :: more, i < b.offset := by
    refine List.forall_mem_cons.mpr ⟨hi, fun b hb => ?_⟩
    have hahead := hmore.ahead b hb
    rw [Occurrence.stop] at hahead
    omega
  have hnone : (o :: more).filter (fun b => b.offset = i) = [] := by
    refine List.filter_eq_nil_iff.mpr fun b hb => ?_
    have hlt := hbehind b hb
    rw [decide_eq_true_eq]
    omega
  have hfree : ¬ ∃ b ∈ o :: more, b.Covers i := by
    rintro ⟨b, hb, hstart, -⟩
    exact absurd hstart (Nat.not_le.mpr (hbehind b hb))
  rw [rewrittenAt, hnone, if_neg hfree, List.flatMap_nil, List.nil_append]

/-- Inside the first occurrence a place has nothing but the replacement to become; behind it the
first occurrence counts only if it has no length. -/
theorem rewrittenAt_cons (replacement : Bytes) (hi : o.offset ≤ i) :
    rewrittenAt replacement data (o :: more) i =
      (if o.offset = i then replacement else []) ++
        if i < o.stop then [] else rewrittenAt replacement data more i := by
  obtain ⟨-, hmore⟩ := laidOut_cons_iff.mp hlaid
  have hfront : ((o :: more).filter fun b => b.offset = i).flatMap (fun _ => replacement) =
      (if o.offset = i then replacement else []) ++
        (more.filter fun b => b.offset = i).flatMap (fun _ => replacement) := by
    by_cases hstart : o.offset = i <;> simp [hstart]
  rw [rewrittenAt, hfront, List.append_assoc]
  congr 1
  by_cases hinside : i < o.stop
  · have hnone : more.filter (fun b => b.offset = i) = [] := by
      refine List.filter_eq_nil_iff.mpr fun b hb => ?_
      have hahead := hmore.ahead b hb
      rw [decide_eq_true_eq]
      omega
    have hcovered : ∃ b ∈ o :: more, b.Covers i := ⟨o, List.mem_cons_self, hi, hinside⟩
    rw [hnone, if_pos hcovered, if_pos hinside, List.flatMap_nil, List.nil_append]
  · have hcovered : (∃ b ∈ o :: more, b.Covers i) ↔ ∃ b ∈ more, b.Covers i := by
      simp [Occurrence.Covers, hinside]
    rw [if_neg hinside, rewrittenAt]
    simp only [hcovered]

/-- From the first occurrence on there is its replacement, and then what the places behind it
become. -/
theorem flatMap_rewrittenAt_cons (replacement : Bytes) :
    (List.range' o.offset (data.length + 1 - o.offset)).flatMap
        (rewrittenAt replacement data (o :: more)) =
      replacement ++ (List.range' o.stop (data.length + 1 - o.stop)).flatMap
        (rewrittenAt replacement data more) := by
  obtain ⟨⟨-, hstop⟩, -⟩ := laidOut_cons_iff.mp hlaid
  have hat (i : Nat) (hi : o.offset ≤ i) := rewrittenAt_cons hlaid replacement hi
  have hsum : o.offset + o.length = o.stop := rfl
  cases hlength : o.length with
  | zero =>
    -- the place of the occurrence is the first one behind it as well
    have hsame : o.stop = o.offset := by omega
    obtain ⟨n, hn⟩ : ∃ n, data.length + 1 - o.offset = n + 1 :=
      ⟨data.length - o.offset, by omega⟩
    rw [hsame, hn, List.range'_succ, List.flatMap_cons, List.flatMap_cons, hat o.offset le_rfl,
      if_pos rfl, if_neg (by omega), List.append_assoc]
    congr 2
    refine List.flatMap_congr fun i hi => ?_
    have hlater := (List.mem_range'_1.mp hi).1
    rw [hat i (by omega), if_neg (by omega), if_neg (by omega), List.nil_append]
  | succ l =>
    have hsplit : List.range' o.offset (data.length + 1 - o.offset) =
        o.offset :: (List.range' (o.offset + 1) l ++
          List.range' o.stop (data.length + 1 - o.stop)) := by
      rw [show o.stop = o.offset + 1 + l by omega, List.range'_append_1, ← List.range'_succ]
      congr 1
      omega
    have hcovered : (List.range' (o.offset + 1) l).flatMap
        (rewrittenAt replacement data (o :: more)) = [] := by
      refine List.flatMap_eq_nil_iff.mpr fun i hi => ?_
      have hrange := List.mem_range'_1.mp hi
      rw [hat i (by omega), if_neg (by omega), if_pos (by omega), List.nil_append]
    have hbehind : (List.range' o.stop (data.length + 1 - o.stop)).flatMap
        (rewrittenAt replacement data (o :: more)) =
        (List.range' o.stop (data.length + 1 - o.stop)).flatMap
          (rewrittenAt replacement data more) := by
      refine List.flatMap_congr fun i hi => ?_
      have hlater := (List.mem_range'_1.mp hi).1
      rw [hat i (by omega), if_neg (by omega), if_neg (by omega), List.nil_append]
    rw [hsplit, List.flatMap_cons, List.flatMap_append, hcovered, hbehind, hat o.offset le_rfl,
      if_pos rfl, if_pos (by omega), List.append_nil, List.nil_append]

end

/-- What a splice makes of the bytes behind its cursor is what their places become. -/
theorem spliced_eq_flatMap (replacement : Bytes) (hcursor : cursor ≤ data.length)
    (hlaid : LaidOut cursor data.length found) :
    spliced replacement cursor (data.drop cursor) found =
      (List.range' cursor (data.length + 1 - cursor)).flatMap
        (rewrittenAt replacement data found) := by
  induction found generalizing cursor with
  | nil =>
    have hkept : rewrittenAt replacement data [] = fun i => data[i]?.toList := by
      funext i
      simp [rewrittenAt]
    rw [hkept, flatMap_getElem?, spliced, List.take_of_length_le]
    rw [List.length_drop]
    omega
  | cons o more ih =>
    obtain ⟨⟨hstart, hstop⟩, hmore⟩ := laidOut_cons_iff.mp hlaid
    have hoffset : o.offset ≤ o.stop := Nat.le_add_right _ _
    have hsplit : List.range' cursor (data.length + 1 - cursor) =
        List.range' cursor (o.offset - cursor) ++
          List.range' o.offset (data.length + 1 - o.offset) := by
      rw [show data.length + 1 - cursor =
          (o.offset - cursor) + (data.length + 1 - o.offset) by omega, ← List.range'_append_1,
        Nat.add_sub_cancel' hstart]
    have hgap : (List.range' cursor (o.offset - cursor)).flatMap
        (rewrittenAt replacement data (o :: more)) =
        (data.drop cursor).take (o.offset - cursor) := by
      rw [← flatMap_getElem?]
      refine List.flatMap_congr fun i hi => rewrittenAt_of_lt hlaid replacement ?_
      have hrange := List.mem_range'_1.mp hi
      omega
    have hrest : (data.drop cursor).drop (o.stop - cursor) = data.drop o.stop := by
      rw [List.drop_drop]
      congr 1
      omega
    rw [spliced, hrest, ih hstop hmore, hsplit, List.flatMap_append, hgap,
      flatMap_rewrittenAt_cons hlaid, List.append_assoc]

/-- **What comes out of a splice** is known place by place. -/
theorem spliced_eq_rewritten (replacement : Bytes) (hlaid : LaidOut 0 data.length found) :
    spliced replacement 0 data found = rewritten replacement data found :=
  spliced_eq_flatMap replacement (Nat.zero_le _) hlaid

/-! ### Plans of any kind -/

/-- A plan that is allowed, and was made for contents like these, is a splice. -/
theorem Plan.apply_eq_splice (hallowed : plan.verdict = .allowed)
    (hlength : data.length = plan.sourceLength)
    (hdigest : Digest.ofBytes data = plan.sourceDigest) :
    plan.apply data = splice plan.replacement data.length [] 0 data plan.occurrences := by
  have hsame : ¬ (data.length ≠ plan.sourceLength ∨ Digest.ofBytes data ≠ plan.sourceDigest) := by
    simp [hlength, hdigest]
  simp only [apply, hallowed, if_neg hsame]

/-- **The check at every occurrence is exact**, whatever the occurrences of a plan are, if the plan
is allowed and was made for contents of this length and digest.

Applying the plan succeeds just if every occurrence starts where the one before it ends, or later,
and ends inside the contents. Then the contents come out with the ranges of the occurrences
replaced, and with all other bytes in order. Otherwise the plan is refused, and the offset of the
first occurrence that breaks the rule is named. -/
theorem Plan.apply_guards_every_occurrence (hallowed : plan.verdict = .allowed)
    (hlength : data.length = plan.sourceLength)
    (hdigest : Digest.ofBytes data = plan.sourceDigest) :
    ((∃ output, plan.apply data = .ok output) ↔
      ∀ k o, plan.occurrences[k]? = some o →
        InPlace 0 data.length plan.occurrences k o) ∧
    (∀ output, plan.apply data = .ok output →
      output = rewritten plan.replacement data plan.occurrences) ∧
    ((¬ ∃ output, plan.apply data = .ok output) →
      ∃ k o, plan.occurrences[k]? = some o ∧
        ¬ InPlace 0 data.length plan.occurrences k o ∧
        (∀ j < k, ∀ b, plan.occurrences[j]? = some b →
          InPlace 0 data.length plan.occurrences j b) ∧
        (plan.apply data).mapError Refusal.toPatchError = .error (.illegalPlan
          ("occurrence at offset " ++ toString o.offset ++
            " is out of order or out of bounds"))) := by
  rw [Plan.apply_eq_splice hallowed hlength hdigest]
  have hiff := exists_splice_eq_ok_iff plan.replacement data.length [] 0 data plan.occurrences
  rw [laidOut_iff_inPlace] at hiff
  refine ⟨hiff, fun output hok => ?_, fun hnot => ?_⟩
  · obtain ⟨hlaid, rfl⟩ := splice_eq_ok_iff.mp hok
    exact spliced_eq_rewritten plan.replacement hlaid
  · obtain ⟨k, o, ho, hmisplaced, hbefore⟩ := exists_first_misplaced (mt hiff.mpr hnot)
    refine ⟨k, o, ho, hmisplaced, hbefore, ?_⟩
    rw [splice_eq_misplaced ho hbefore hmisplaced]
    rfl

end ByteSplice
