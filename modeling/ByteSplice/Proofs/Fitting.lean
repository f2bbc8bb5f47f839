import ByteSplice.Proofs.Planning

/-!
# Which contents a plan fits

A plan can be kept, and the contents it was made for can change in the meantime. `Plan.apply` looks
at three things before it lets a plan near any contents: the verdict, the length and digest of the
contents, and, at each occurrence, whether there is room for it. This module says what a plan that
planning has made meets with when it is held against contents of any kind.

Room is a matter of numbers. A splice gets through just if the occurrences lie one behind the other
up to the end (`LaidOut`), and what the bytes are does not matter. The occurrences of a scan are
laid out in the bytes that were scanned, so they are in any other bytes of the same length. Hence
the check at the occurrences never turns away a plan that planning has made: what has passed the
length and the digest passes (`Plans.exists_apply_iff`), and what has not is told that the contents
are others (`Plans.refusal_of_apply`).

The length of what comes out is a matter of numbers as well. Contents that only look like those of
the plan, having the same length and the same digest, grow or shrink just as those would
(`Plans.length_apply_add`).

## Main definitions

* `LaidOut`
* `spliced`

## Main results

* `splice_eq_ok_iff`, `exists_splice_eq_ok_iff`, `length_spliced_add`
* `Rules.Plans.exists_apply_iff`, `Rules.Plans.refusal_of_apply`
* `Rules.Plans.length_apply_add`, `Rules.Plans.length_apply`
-/

namespace ByteSplice

variable {rules : Rules} {request : Request} {data contents output : Bytes} {plan : Plan}
  {found more : List Occurrence} {o : Occurrence} {cursor total : Nat}

/-! ### Room for a splice -/

/-- The occurrences lie one behind the other, from a cursor on and up to an end. -/
structure LaidOut (cursor total : Nat) (found : List Occurrence) : Prop where
  /-- Each occurrence starts where the one before it ends, or later. -/
  ordered : found.IsChain Occurrence.Before
  /-- No occurrence starts before the cursor. -/
  ahead : ∀ o ∈ found, cursor ≤ o.offset
  /-- No occurrence ends behind the end. -/
  inside : ∀ o ∈ found, o.stop ≤ total

theorem laidOut_nil (cursor total : Nat) : LaidOut cursor total [] :=
  ⟨.nil, by simp, by simp⟩

/-- The first occurrence moves the cursor to its own end. -/
theorem laidOut_cons_iff :
    LaidOut cursor total (o :: more) ↔
      (cursor ≤ o.offset ∧ o.stop ≤ total) ∧ LaidOut o.stop total more := by
  constructor
  · rintro ⟨hordered, hahead, hinside⟩
    have hbehind := (List.pairwise_cons.mp (List.isChain_iff_pairwise.mp hordered)).1
    exact ⟨⟨hahead o List.mem_cons_self, hinside o List.mem_cons_self⟩, hordered.tail, hbehind,
      fun b hb => hinside b (List.mem_cons_of_mem _ hb)⟩
  · rintro ⟨⟨hstart, hstop⟩, hordered, hahead, hinside⟩
    refine ⟨?_, ?_, List.forall_mem_cons.mpr ⟨hstop, hinside⟩⟩
    · refine List.isChain_iff_pairwise.mpr (List.pairwise_cons.mpr ⟨hahead, ?_⟩)
      exact List.isChain_iff_pairwise.mp hordered
    · have hlong : o.offset ≤ o.stop := Nat.le_add_right _ _
      exact List.forall_mem_cons.mpr
        ⟨hstart, fun b hb => hstart.trans (hlong.trans (hahead b hb))⟩

/-- What a splice makes of the bytes behind its cursor. -/
def spliced (replacement : Bytes) (cursor : Nat) (rest : Bytes) : List Occurrence → Bytes
  | [] => rest
  | o :: more =>
    rest.take (o.offset - cursor) ++ replacement ++
      spliced replacement o.stop (rest.drop (o.stop - cursor)) more

/-- A splice gets through where the occurrences are laid out, and then it only puts pieces
together. -/
theorem splice_eq_ok_iff {replacement rest : Bytes} {written : List Bytes} :
    splice replacement total written cursor rest found = .ok output ↔
      LaidOut cursor total found ∧
        written.reverse.flatten ++ spliced replacement cursor rest found = output := by
  induction found generalizing written cursor rest with
  | nil => simp [splice, spliced, laidOut_nil]
  | cons o more ih =>
    rw [splice, laidOut_cons_iff]
    split_ifs with hmisplaced
    · refine iff_of_false (by simp) fun h => ?_
      omega
    · have hfit : cursor ≤ o.offset ∧ o.stop ≤ total := by omega
      simp [ih, hfit, spliced]

/-- **When a splice gets through.** Neither the bytes nor the replacement have a say in it. -/
theorem exists_splice_eq_ok_iff (replacement : Bytes) (total : Nat) (written : List Bytes)
    (cursor : Nat) (rest : Bytes) (found : List Occurrence) :
    (∃ output, splice replacement total written cursor rest found = .ok output) ↔
      LaidOut cursor total found := by
  simp only [splice_eq_ok_iff, exists_and_left, exists_eq', and_true]

/-- The occurrences of a scan are laid out in what was scanned. -/
theorem laidOut_findAll (data : Bytes) (p : Pattern) :
    LaidOut 0 data.length (findAll data p) := by
  have hscan := isScanFrom_findAll data p
  refine ⟨hscan.ordered, hscan.ahead, fun o ho => ?_⟩
  obtain ⟨hlength, hinside, -⟩ := hscan.exact_match o ho
  rw [Occurrence.stop, hlength]
  exact hinside

/-- Every occurrence takes its length away and brings that of the replacement, whatever the bytes
are. The bytes behind the cursor are all there are up to the end. -/
theorem length_spliced_add (replacement : Bytes) {rest : Bytes} {length : Nat}
    (hrest : cursor + rest.length = total) (hlaid : LaidOut cursor total found)
    (hlength : ∀ o ∈ found, o.length = length) :
    (spliced replacement cursor rest found).length + found.length * length =
      rest.length + found.length * replacement.length := by
  induction found generalizing cursor rest with
  | nil => simp [spliced]
  | cons o more ih =>
    obtain ⟨⟨hstart, hend⟩, hmore⟩ := laidOut_cons_iff.mp hlaid
    obtain ⟨ho, hlater⟩ := List.forall_mem_cons.mp hlength
    have hstop : o.offset + length = o.stop := by rw [← ho, Occurrence.stop]
    have hbehind : o.stop + (rest.drop (o.stop - cursor)).length = total := by
      rw [List.length_drop]
      omega
    have hafter := ih hbehind hmore hlater
    rw [List.length_drop] at hafter
    simp only [spliced, List.length_append, List.length_take, List.length_cons, Nat.succ_mul]
    omega

/-! ### A plan against any contents -/

/-- What `Plan.apply` looks at, and in which order. -/
theorem Plan.apply_eq_ok_iff :
    plan.apply contents = .ok output ↔
      plan.verdict = .allowed ∧
        (contents.length = plan.sourceLength ∧ Digest.ofBytes contents = plan.sourceDigest) ∧
        splice plan.replacement contents.length [] 0 contents plan.occurrences = .ok output := by
  rw [apply]
  cases plan.verdict with
  | denied reason => simp
  | allowed =>
    simp only [true_and]
    split_ifs with hother
    · refine iff_of_false not_false ?_
      rintro ⟨⟨hlength, hdigest⟩, -⟩
      exact hother.elim (absurd hlength) (absurd hdigest)
    · push Not at hother
      exact (and_iff_right hother).symm

/-- What a plan makes of contents that it can be applied to. -/
theorem Plan.eq_spliced_of_apply (happly : plan.apply contents = .ok output) :
    contents.length = plan.sourceLength ∧ LaidOut 0 contents.length plan.occurrences ∧
      output = spliced plan.replacement 0 contents plan.occurrences := by
  obtain ⟨-, ⟨hlength, -⟩, hsplice⟩ := Plan.apply_eq_ok_iff.mp happly
  obtain ⟨hlaid, rfl⟩ := splice_eq_ok_iff.mp hsplice
  exact ⟨hlength, hlaid, rfl⟩

/-- A denied plan fits nothing. -/
theorem Plan.apply_of_denied {e : PatchError} (h : plan.verdict = .denied e) (contents : Bytes) :
    plan.apply contents = .error (.denied e) := by
  simp only [apply, h]

namespace Rules

/-- **A plan fits contents of the length and the digest of those it was made for**, if it is
allowed, and no others. -/
theorem Plans.exists_apply_iff (h : rules.Plans data request plan) (contents : Bytes) :
    (∃ output, plan.apply contents = .ok output) ↔
      plan.verdict = .allowed ∧ contents.length = data.length ∧
        Digest.ofBytes contents = Digest.ofBytes data := by
  simp only [Plan.apply_eq_ok_iff, exists_and_left, exists_splice_eq_ok_iff, h.sourceLength_eq,
    h.sourceDigest_eq, h.occurrences_eq]
  refine and_congr_right fun _ => and_iff_left_of_imp fun hsame => ?_
  rw [hsame.1]
  exact laidOut_findAll data plan.pattern

/-- A plan is turned away because it was denied, or because the contents are others. -/
theorem Plans.refusal_of_apply (h : rules.Plans data request plan) {refusal : Refusal}
    (happly : plan.apply contents = .error refusal) :
    (∃ e, plan.verdict = .denied e ∧ refusal = .denied e) ∨
      (plan.verdict = .allowed ∧ refusal = .otherContents) := by
  cases hverdict : plan.verdict with
  | denied e =>
    rw [Plan.apply_of_denied hverdict] at happly
    exact Or.inl ⟨e, rfl, (Except.error.inj happly).symm⟩
  | allowed =>
    by_cases hother : contents.length ≠ plan.sourceLength ∨
        Digest.ofBytes contents ≠ plan.sourceDigest
    · simp only [Plan.apply, hverdict, if_pos hother] at happly
      exact Or.inr ⟨rfl, (Except.error.inj happly).symm⟩
    · rw [h.sourceLength_eq, h.sourceDigest_eq] at hother
      push Not at hother
      obtain ⟨output, hok⟩ := (h.exists_apply_iff contents).mpr ⟨hverdict, hother⟩
      cases happly.symm.trans hok

/-- **What applying a plan does to the length**, also where the contents are not those that the
plan was made for but only look like them. -/
theorem Plans.length_apply_add (h : rules.Plans data request plan)
    (happly : plan.apply contents = .ok output) :
    output.length + plan.occurrences.length * plan.pattern.length =
      contents.length + plan.occurrences.length * plan.replacement.length := by
  obtain ⟨-, hlaid, rfl⟩ := Plan.eq_spliced_of_apply happly
  exact length_spliced_add plan.replacement (Nat.zero_add _) hlaid h.length_of_mem

/-- There is room in the contents for all occurrences that are planned for them. -/
theorem Plans.mul_length_le (h : rules.Plans data request plan) :
    plan.occurrences.length * plan.pattern.length ≤ data.length := by
  rw [h.occurrences_eq]
  exact count_mul_length_le plan.pattern data

/-- **The length that a plan promises** is the length of what it makes of contents. -/
theorem Plans.length_apply (h : rules.Plans data request plan)
    (happly : plan.apply contents = .ok output) : output.length = plan.outputLength := by
  have hsum := h.length_apply_add happly
  have hroom := h.mul_length_le
  obtain ⟨-, ⟨hlength, -⟩, -⟩ := Plan.apply_eq_ok_iff.mp happly
  rw [Plan.outputLength]
  rw [h.sourceLength_eq] at hlength ⊢
  omega

end Rules

end ByteSplice
