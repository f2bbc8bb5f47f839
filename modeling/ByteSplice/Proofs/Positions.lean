import ByteSplice.Proofs.Fitting

/-!
# Where the bytes go

Applying a plan moves bytes. Every occurrence takes the bytes of the pattern away and brings those
of the replacement, so what lies behind `k` occurrences is `k` times the length of the replacement
further on, and `k` times that of the pattern further back. Which of the two is more does not
matter, nor does it matter how many bytes lie between the occurrences.

Each byte of the output has one of two origins (`Origin`). Either it is a byte of the contents that
no occurrence covers, or it is a byte of the replacement, written for one of the occurrences. `Puts`
says where a byte of either origin is put, in numbers alone. The headline is that these numbers are
right: the byte is found there (`Puts.getElem?_spliced`), and every place of the output is given to
one origin and to one only (`existsUnique_puts`).

## The induction

Both go along the occurrences, with a cursor as in a splice. What is put behind a cursor is what
lies up to the first occurrence, then the replacement, then what is put behind that occurrence,
moved on by the length of the first two (`puts_cons_cases`, and `Puts.cons` for the way back). There
it counts as the bytes of one occurrence less, and this is the only place where the products grow by
one (`moved_succ`).

## Main definitions

* `Origin`, with `Origin.byte`
* `moved`, `Puts`, `Plan.Puts`

## Main results

* `puts_cons_cases`, `Puts.cons`
* `Puts.getElem?_spliced`, `existsUnique_puts`
* `Rules.apply_puts_each_byte_once`
-/

namespace ByteSplice

variable {rules : Rules} {request : Request} {data contents replacement output : Bytes}
  {plan : Plan} {found more : List Occurrence} {o : Occurrence} {x : Origin}
  {old new total cursor i j k : Nat}

/-! ### Counting the occurrences that have ended -/

/-- Behind a cursor no occurrence ends before it. -/
theorem LaidOut.countP_eq_zero (hlaid : LaidOut cursor total found) (hi : i < cursor) :
    (found.countP fun o => o.stop ≤ i) = 0 := by
  refine List.countP_eq_zero.mpr fun o ho => ?_
  have hahead := hlaid.ahead o ho
  rw [decide_eq_true_eq, Occurrence.stop]
  omega

/-- The occurrences that have ended lie side by side between the cursor and there. -/
theorem LaidOut.countP_mul_le (hlaid : LaidOut cursor total found)
    (hlength : ∀ o ∈ found, o.length = old) (i : Nat) :
    (found.countP fun o => o.stop ≤ i) * old ≤ i - cursor := by
  induction found generalizing cursor with
  | nil => simp
  | cons o more ih =>
    obtain ⟨⟨hstart, -⟩, hmore⟩ := laidOut_cons_iff.mp hlaid
    obtain ⟨ho, hlater⟩ := List.forall_mem_cons.mp hlength
    have hstop : o.offset + old = o.stop := by rw [← ho, Occurrence.stop]
    have hrest := ih hmore hlater
    rw [List.countP_cons]
    split_ifs with hended
    · rw [decide_eq_true_eq] at hended
      rw [Nat.succ_mul]
      omega
    · rw [Nat.add_zero]
      omega

/-- So do those that are ahead of one of them. -/
theorem LaidOut.mul_le_offset (hlaid : LaidOut cursor total found)
    (hlength : ∀ o ∈ found, o.length = old) (ho : found[k]? = some o) :
    k * old ≤ o.offset - cursor := by
  induction found generalizing cursor k with
  | nil => simp at ho
  | cons first more ih =>
    obtain ⟨⟨hstart, -⟩, hmore⟩ := laidOut_cons_iff.mp hlaid
    obtain ⟨hfirst, hlater⟩ := List.forall_mem_cons.mp hlength
    cases k with
    | zero => simp
    | succ k =>
      rw [List.getElem?_cons_succ] at ho
      have hstop : first.offset + old = first.stop := by rw [← hfirst, Occurrence.stop]
      have hahead := hmore.ahead o (List.mem_of_getElem? ho)
      have hrest := ih hmore hlater ho
      rw [Nat.succ_mul]
      omega

/-! ### Origins -/

/-- Where a byte of an output comes from. -/
inductive Origin
  /-- It stands in the contents, at the given offset. -/
  | kept (i : Nat)
  /-- It stands in the replacement, at the index `r`, and is written for the occurrence number
  `k`. -/
  | written (k r : Nat)
  deriving DecidableEq, Repr

namespace Origin

/-- The byte that has an origin. -/
def byte (contents replacement : Bytes) : Origin → Option UInt8
  | kept i => contents[i]?
  | written _ r => replacement[r]?

/-- The same origin if there is one more occurrence in front. -/
def later : Origin → Origin
  | kept i => kept i
  | written k r => written (k + 1) r

theorem byte_later (contents replacement : Bytes) (x : Origin) :
    x.later.byte contents replacement = x.byte contents replacement := by
  cases x <;> rfl

end Origin

/-- Where the offset `i` gets to when `k` occurrences of length `old` in front of it are replaced by
something of length `new`. -/
def moved (old new k i : Nat) : Nat :=
  i + k * new - k * old

@[simp] theorem moved_zero (old new i : Nat) : moved old new 0 i = i := by
  simp [moved]

/-- Behind a cursor, a byte of origin `x` is put at `j`. Places are counted from the cursor on. -/
inductive Puts (old new total cursor : Nat) (found : List Occurrence) : Origin → Nat → Prop
  /-- A byte that no occurrence covers is moved by those that have ended. -/
  | kept {i j : Nat} (hcursor : cursor ≤ i) (htotal : i < total)
      (houtside : ∀ o ∈ found, i < o.offset ∨ o.stop ≤ i)
      (hplace : j = moved old new (found.countP fun o => o.stop ≤ i) (i - cursor)) :
      Puts old new total cursor found (.kept i) j
  /-- A replacement starts where its occurrence is moved to by those in front of it. -/
  | written {k r j : Nat} {o : Occurrence} (ho : found[k]? = some o) (hr : r < new)
      (hplace : j = moved old new k (o.offset - cursor) + r) :
      Puts old new total cursor found (.written k r) j

/-- What is put somewhere is there to be put. -/
theorem Puts.exists_byte (h : Puts old replacement.length contents.length cursor found x j) :
    ∃ b, x.byte contents replacement = some b := by
  cases h with
  | kept _ htotal => exact ⟨_, List.getElem?_eq_getElem htotal⟩
  | written _ hr => exact ⟨_, List.getElem?_eq_getElem hr⟩

/-- Without occurrences every byte stays where it is. -/
theorem puts_nil_iff :
    Puts old new total cursor [] x j ↔ x = .kept (cursor + j) ∧ cursor + j < total := by
  constructor
  · rintro (⟨hcursor, htotal, -, hplace⟩ | ⟨ho, -, -⟩)
    · rw [List.countP_nil, moved_zero] at hplace
      rw [Origin.kept.injEq]
      omega
    · simp at ho
  · rintro ⟨rfl, htotal⟩
    exact .kept (Nat.le_add_right cursor j) htotal (List.forall_mem_nil _) (by simp)

section Cons

variable (hlaid : LaidOut cursor total (o :: more)) (hlength : ∀ b ∈ o :: more, b.length = old)

include hlaid

/-- Up to the first occurrence bytes are kept. -/
theorem puts_kept_front (h : cursor + j < o.offset) :
    Puts old new total cursor (o :: more) (.kept (cursor + j)) j := by
  obtain ⟨⟨-, hend⟩, hmore⟩ := laidOut_cons_iff.mp hlaid
  have hstop : o.offset ≤ o.stop := Nat.le_add_right _ _
  have hbehind : cursor + j < o.stop := h.trans_le hstop
  refine .kept (Nat.le_add_right cursor j) (hbehind.trans_le hend) ?_ ?_
  · exact List.forall_mem_cons.mpr
      ⟨Or.inl h, fun b hb => Or.inl (hbehind.trans_le (hmore.ahead b hb))⟩
  · rw [List.countP_cons_of_neg (by simpa using hbehind), hmore.countP_eq_zero hbehind,
      moved_zero, Nat.add_sub_cancel_left]

include hlength

/-- One more occurrence in front brings its replacement and takes its own bytes away. -/
theorem moved_succ (hi : o.stop ≤ i) (hroom : k * old ≤ i - o.stop) :
    moved old new (k + 1) (i - cursor) =
      o.offset - cursor + new + moved old new k (i - o.stop) := by
  obtain ⟨⟨hstart, -⟩, -⟩ := laidOut_cons_iff.mp hlaid
  have hstop : o.offset + old = o.stop := by rw [← hlength o List.mem_cons_self, Occurrence.stop]
  simp only [moved, Nat.succ_mul]
  omega

/-- What is put behind the first occurrence is moved on by what comes before. -/
theorem Puts.cons (h : Puts old new total o.stop more x j) :
    Puts old new total cursor (o :: more) x.later (o.offset - cursor + new + j) := by
  obtain ⟨⟨hstart, -⟩, hmore⟩ := laidOut_cons_iff.mp hlaid
  have hlater := (List.forall_mem_cons.mp hlength).2
  have hstop : o.offset ≤ o.stop := Nat.le_add_right _ _
  cases h with
  | @kept i _ hcursor htotal houtside hplace =>
    have hroom := hmore.countP_mul_le hlater i
    refine .kept (by omega) htotal (List.forall_mem_cons.mpr ⟨Or.inr hcursor, houtside⟩) ?_
    rw [List.countP_cons_of_pos (by simpa using hcursor), hplace,
      moved_succ hlaid hlength hcursor hroom]
  | @written k r _ b hb hr hplace =>
    have hahead := hmore.ahead b (List.mem_of_getElem? hb)
    have hroom := hmore.mul_le_offset hlater hb
    refine .written hb hr ?_
    rw [hplace, moved_succ hlaid hlength hahead hroom, Nat.add_assoc _ _ r]

/-- **What one occurrence does to the places behind a cursor.** Up to it bytes are kept, at it the
replacement is written, and behind it there is what is put behind its own end. -/
theorem puts_cons_cases (h : Puts old new total cursor (o :: more) x j) :
    (x = .kept (cursor + j) ∧ cursor + j < o.offset) ∨
      (∃ r < new, x = .written 0 r ∧ j = o.offset - cursor + r) ∨
      ∃ y l, Puts old new total o.stop more y l ∧ x = y.later ∧
        j = o.offset - cursor + new + l := by
  obtain ⟨⟨hstart, hend⟩, hmore⟩ := laidOut_cons_iff.mp hlaid
  have hlater := (List.forall_mem_cons.mp hlength).2
  cases h with
  | @kept i _ hcursor htotal houtside hplace =>
    obtain ⟨hhere, hbehind⟩ := List.forall_mem_cons.mp houtside
    by_cases hended : o.stop ≤ i
    · have hroom := hmore.countP_mul_le hlater i
      refine Or.inr (Or.inr ⟨.kept i, _, .kept hended htotal hbehind rfl, rfl, ?_⟩)
      rw [hplace, List.countP_cons_of_pos (by simpa using hended),
        moved_succ hlaid hlength hended hroom]
    · rw [List.countP_cons_of_neg (by simpa using hended),
        hmore.countP_eq_zero (Nat.not_le.mp hended), moved_zero] at hplace
      refine Or.inl ?_
      rw [Origin.kept.injEq]
      omega
  | @written k r _ b hb hr hplace =>
    cases k with
    | zero =>
      obtain rfl : o = b := by simpa using hb
      exact Or.inr (Or.inl ⟨r, hr, rfl, by rw [hplace, moved_zero]⟩)
    | succ k =>
      rw [List.getElem?_cons_succ] at hb
      have hahead := hmore.ahead b (List.mem_of_getElem? hb)
      have hroom := hmore.mul_le_offset hlater hb
      refine Or.inr (Or.inr ⟨.written k r, _, .written hb hr rfl, rfl, ?_⟩)
      rw [hplace, moved_succ hlaid hlength hahead hroom, Nat.add_assoc _ _ r]

end Cons

/-! ### The places of a splice -/

section Spliced

variable (hlaid : LaidOut cursor contents.length found)
  (hlength : ∀ o ∈ found, o.length = old)

include hlaid hlength

/-- **A byte is where it is put.** -/
theorem Puts.getElem?_spliced
    (h : Puts old replacement.length contents.length cursor found x j) :
    (spliced replacement cursor (contents.drop cursor) found)[j]? =
      x.byte contents replacement := by
  induction found generalizing cursor x j with
  | nil =>
    obtain ⟨rfl, -⟩ := puts_nil_iff.mp h
    rw [spliced, List.getElem?_drop, Origin.byte]
  | cons o more ih =>
    obtain ⟨⟨hstart, hend⟩, hmore⟩ := laidOut_cons_iff.mp hlaid
    have hstop : o.offset ≤ o.stop := Nat.le_add_right _ _
    have hfront : ((contents.drop cursor).take (o.offset - cursor)).length = o.offset - cursor := by
      rw [List.length_take, List.length_drop]
      omega
    rw [spliced, List.append_assoc]
    rcases puts_cons_cases hlaid hlength h with ⟨rfl, hj⟩ | ⟨r, hr, rfl, rfl⟩ | ⟨y, l, hy, rfl, rfl⟩
    · rw [List.getElem?_append_left (by omega), List.getElem?_take_of_lt (by omega),
        List.getElem?_drop, Origin.byte]
    · rw [List.getElem?_append_right (by omega), hfront, Nat.add_sub_cancel_left,
        List.getElem?_append_left hr, Origin.byte]
    · have hrest : (contents.drop cursor).drop (o.stop - cursor) = contents.drop o.stop := by
        rw [List.drop_drop]
        congr 1
        omega
      rw [List.getElem?_append_right (by omega), hfront, Nat.add_assoc, Nat.add_sub_cancel_left,
        List.getElem?_append_right (Nat.le_add_right _ _), Nat.add_sub_cancel_left, hrest,
        ih hmore (List.forall_mem_cons.mp hlength).2 hy, Origin.byte_later]

/-- **Each place has one origin.** -/
theorem existsUnique_puts
    (hj : j < (spliced replacement cursor (contents.drop cursor) found).length) :
    ∃! x, Puts old replacement.length contents.length cursor found x j := by
  induction found generalizing cursor j with
  | nil =>
    rw [spliced, List.length_drop] at hj
    refine ⟨.kept (cursor + j), puts_nil_iff.mpr ⟨rfl, by omega⟩, fun x hx => ?_⟩
    exact (puts_nil_iff.mp hx).1
  | cons o more ih =>
    obtain ⟨⟨hstart, hend⟩, hmore⟩ := laidOut_cons_iff.mp hlaid
    have hstop : o.offset ≤ o.stop := Nat.le_add_right _ _
    have hrest : (contents.drop cursor).drop (o.stop - cursor) = contents.drop o.stop := by
      rw [List.drop_drop]
      congr 1
      omega
    simp only [spliced, List.length_append, List.length_take, List.length_drop, hrest] at hj
    -- the three segments share no place, so the origin comes from the one that the place lies in
    by_cases hfront : cursor + j < o.offset
    · refine ⟨_, puts_kept_front hlaid hfront, fun x hx => ?_⟩
      rcases puts_cons_cases hlaid hlength hx with ⟨hx, -⟩ | ⟨r, -, -, hj⟩ | ⟨y, l, -, -, hj⟩
      · exact hx
      · omega
      · omega
    · obtain ⟨s, rfl⟩ : ∃ s, j = o.offset - cursor + s := Nat.exists_eq_add_of_le (by omega)
      by_cases hhere : s < replacement.length
      · refine ⟨.written 0 s, .written rfl hhere (by rw [moved_zero]), fun x hx => ?_⟩
        rcases puts_cons_cases hlaid hlength hx with ⟨-, hlt⟩ | ⟨r, -, hx, hs⟩ | ⟨y, l, -, -, hs⟩
        · omega
        · rw [hx, Nat.add_left_cancel hs]
        · omega
      · obtain ⟨l, rfl⟩ : ∃ l, s = replacement.length + l := Nat.exists_eq_add_of_le (by omega)
        have hl : l < (spliced replacement o.stop (contents.drop o.stop) more).length := by omega
        obtain ⟨x, hput, honly⟩ := ih hmore (List.forall_mem_cons.mp hlength).2 hl
        rw [← Nat.add_assoc]
        refine ⟨x.later, hput.cons hlaid hlength, fun y hy => ?_⟩
        rcases puts_cons_cases hlaid hlength hy with ⟨-, hlt⟩ | ⟨r, hr, -, hs⟩ |
          ⟨z, m, hz, rfl, hm⟩
        · omega
        · omega
        · obtain rfl := Nat.add_left_cancel hm
          rw [honly z hz]

end Spliced

/-! ### The places of a plan -/

/-- Where a plan puts the bytes of contents that it is applied to. -/
def Plan.Puts (plan : Plan) : Origin → Nat → Prop :=
  ByteSplice.Puts plan.pattern.length plan.replacement.length plan.sourceLength 0 plan.occurrences

namespace Rules

/-- Each byte of the output is where the plan puts it. -/
theorem Plans.getElem?_of_puts (h : rules.Plans data request plan)
    (happly : plan.apply contents = .ok output) (hput : plan.Puts x j) :
    output[j]? = x.byte contents plan.replacement := by
  obtain ⟨hlength, hlaid, rfl⟩ := Plan.eq_spliced_of_apply happly
  rw [Plan.Puts, ← hlength] at hput
  exact hput.getElem?_spliced hlaid h.length_of_mem

/-- No byte is put behind the end of the output. -/
theorem Plans.lt_length_of_puts (h : rules.Plans data request plan)
    (happly : plan.apply contents = .ok output) (hput : plan.Puts x j) : j < output.length := by
  have hbyte := h.getElem?_of_puts happly hput
  rw [Plan.Puts, ← (Plan.eq_spliced_of_apply happly).1] at hput
  obtain ⟨b, hb⟩ := hput.exists_byte
  exact (List.getElem?_eq_some_iff.mp (hbyte.trans hb)).1

/-- Behind `k` occurrences the replacement stands where the next one is moved to. -/
theorem Plans.take_drop_apply (h : rules.Plans data request plan)
    (happly : plan.apply contents = .ok output) (ho : plan.occurrences[k]? = some o) :
    (output.drop (o.offset + k * plan.replacement.length - k * plan.pattern.length)).take
      plan.replacement.length = plan.replacement := by
  refine List.ext_getElem? fun r => ?_
  by_cases hr : r < plan.replacement.length
  · rw [List.getElem?_take_of_lt hr, List.getElem?_drop]
    exact h.getElem?_of_puts happly (x := .written k r) (.written ho hr rfl)
  · rw [List.getElem?_eq_none (by rw [List.length_take]; omega),
      List.getElem?_eq_none (Nat.not_lt.mp hr)]

/-- Behind `k` occurrences a byte outside of them stands where it is moved to. -/
theorem Plans.getElem?_apply (h : rules.Plans data request plan)
    (happly : plan.apply contents = .ok output) (hi : i < contents.length)
    (houtside : ∀ o ∈ plan.occurrences, i < o.offset ∨ o.stop ≤ i)
    (hk : k = plan.occurrences.countP fun o => o.stop ≤ i) :
    output[i + k * plan.replacement.length - k * plan.pattern.length]? = contents[i]? := by
  obtain ⟨hlength, -, -⟩ := Plan.eq_spliced_of_apply happly
  refine h.getElem?_of_puts happly (x := .kept i) ?_
  exact .kept (Nat.zero_le i) (hlength ▸ hi) houtside (by rw [hk, moved, Nat.sub_zero])

/-- **Where every byte goes.** A plan was made for some contents and is applied to these or to
others of the same length and digest. The lengths can be subtracted; the occurrences lie one behind
the other in the contents; the replacement stands where each occurrence is moved to, and each byte
outside of all occurrences where it is moved to; and these places are all places of the output, with
one origin for each of them. -/
theorem apply_puts_each_byte_once (heval : rules.evaluate data request = .ok plan)
    (happly : plan.apply contents = .ok output) :
    (plan.occurrences = findAll data plan.pattern ∧ plan.sourceLength = data.length) ∧
      plan.occurrences.length * plan.pattern.length ≤ plan.sourceLength ∧
      output.length = plan.outputLength ∧
      plan.outputLength =
        data.length - plan.occurrences.length * plan.pattern.length +
          plan.occurrences.length * plan.replacement.length ∧
      LaidOut 0 contents.length plan.occurrences ∧
      (∀ k o, plan.occurrences[k]? = some o →
        k * plan.pattern.length ≤ o.offset ∧
          (output.drop (o.offset + k * plan.replacement.length - k * plan.pattern.length)).take
            plan.replacement.length = plan.replacement) ∧
      (∀ i < contents.length, (∀ o ∈ plan.occurrences, i < o.offset ∨ o.stop ≤ i) →
        ∀ k, k = (plan.occurrences.countP fun o => o.stop ≤ i) →
          k * plan.pattern.length ≤ i ∧
            output[i + k * plan.replacement.length - k * plan.pattern.length]? = contents[i]?) ∧
      (∀ j < output.length, ∃! x, plan.Puts x j) ∧
      ∀ x j, plan.Puts x j →
        j < output.length ∧ output[j]? = x.byte contents plan.replacement := by
  have h := evaluate_eq_ok_iff.mp heval
  obtain ⟨hlength, hlaid, houtput⟩ := Plan.eq_spliced_of_apply happly
  refine ⟨⟨h.occurrences_eq, h.sourceLength_eq⟩, h.sourceLength_eq ▸ h.mul_length_le,
    h.length_apply happly, ?_, hlaid, fun k o ho => ?_, fun i hi houtside k hk => ?_,
    fun j hj => ?_, fun x j hput => ?_⟩
  · rw [Plan.outputLength, h.sourceLength_eq]
  · exact ⟨hlaid.mul_le_offset h.length_of_mem ho, h.take_drop_apply happly ho⟩
  · have hroom := hlaid.countP_mul_le h.length_of_mem i
    exact ⟨hk ▸ hroom, h.getElem?_apply happly hi houtside hk⟩
  · rw [houtput] at hj
    rw [Plan.Puts, ← hlength]
    exact existsUnique_puts hlaid h.length_of_mem hj
  · exact ⟨h.lt_length_of_puts happly hput, h.getElem?_of_puts happly hput⟩

/-- A block of bytes with two of them left open. For `0x00` and `0x55` it has the same digest as for
`0x02` and `0xd5`. -/
def twinBlock (a b : UInt8) : Bytes :=
  [0x4d, 0xc9, 0x68, 0xff, 0x0e, 0xe3, 0x5c, 0x20, 0x95, 0x72, 0xd4, 0x77, 0x7b, 0x72, 0x15, 0x87,
    0xd3, 0x6f, 0xa7, 0xb2, 0x1b, 0xdc, 0x56, 0xb7, 0x4a, 0x3d, 0xc0, 0x78, 0x3e, 0x7b, 0x95, 0x18,
    0xaf, 0xbf, 0xa2, a, 0xa8, 0x28, 0x4b, 0xf3, 0x6e, 0x8e, 0x4b, 0x55, 0xb3, 0x5f, 0x42, 0x75,
    0x93, 0xd8, 0x49, 0x67, 0x6d, 0xa0, 0xd1, b, 0x5d, 0x83, 0x60, 0xfb, 0x5f, 0x07, 0xfe, 0xa2]

/-- The plan was made for the twin of the contents and finds two occurrences there, of which the
second is none in the contents. It is replaced all the same. -/
theorem apply_puts_each_byte_once_twin :
    let rules : Rules := { encoding := .hex }
    let request : Request := ⟨"55", "010203", false, true⟩
    let data := twinBlock 0x00 0x55
    let contents := twinBlock 0x02 0xd5
    contents ≠ data ∧ ∃ plan output, rules.evaluate data request = .ok plan ∧
      plan.apply contents = .ok output ∧ output.length = 68 ∧ (output.drop 57).take 3 = [1, 2, 3] ∧
      output[35]? = some 0x02 ∧ output[67]? = some 0xa2 := by
  intro rules request data contents
  let plan : Plan := ⟨⟨⟨[0x55], by decide⟩, [1, 2, 3], [⟨43, 1⟩, ⟨55, 1⟩]⟩, .allowed, 64,
    Digest.ofBytes data⟩
  have hscan : plan.occurrences = findAll data plan.pattern := by decide +kernel
  have hfind : Encoding.hex.encode "55" = .ok [0x55] := rfl
  have hreplace : Encoding.hex.encode "010203" = .ok [1, 2, 3] := rfl
  have h : rules.Plans data request plan :=
    ⟨⟨hfind, [1, 2, 3], hreplace, rfl⟩, hscan, nofun, rfl, rfl, rfl⟩
  have hdigest : Digest.ofBytes contents = Digest.ofBytes data := by decide +kernel
  have heval : rules.evaluate data request = .ok plan := evaluate_eq_ok_iff.mpr h
  obtain ⟨output, happly⟩ := (h.exists_apply_iff contents).mpr ⟨rfl, rfl, hdigest⟩
  obtain ⟨-, -, hlength, -, -, hwritten, hkept, -, -⟩ := apply_puts_each_byte_once heval happly
  refine ⟨by decide, plan, output, heval, happly, hlength, (hwritten 1 ⟨55, 1⟩ rfl).2, ?_, ?_⟩
  · exact (hkept 35 (by decide) (by decide) 0 (by decide)).2
  · exact (hkept 63 (by decide) (by decide) 2 (by decide)).2

end Rules

end ByteSplice
