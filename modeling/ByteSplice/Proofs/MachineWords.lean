import ByteSplice.Machine
import ByteSplice.Proofs.Placement

/-!
# What a machine makes of a plan

On a machine a splice can end in a third way, and that is not at all (`Plan.applyIn`). This module
says when it comes to what `Plan.apply` says, and what becomes of it otherwise.

A plan that planning has made never meets with the bounds of a machine, as long as the contents have
room with one replacement more for each occurrence (`Plans.applyIn_eq`). Of a plan of any other kind
two things have to be asked. The length that it expects of its output has to be one, and no
occurrence may run out of the words. The second means that the first occurrence that is out of place
is not one that starts where it may and has an end that is no word (`Machine.Overruns`). If both
hold then the check at the occurrences is exact on every machine. If one of them does not, a machine
that checks its sums stops, and one that does not may come to anything: it can stop at a slice, and
it can write a byte twice (`Plan.applyIn_misses_occurrences`).

The walk is followed by induction along the occurrences. What carries it is that the cursor is
inside the contents, and that there is room for the bytes ahead and for a replacement for each
occurrence ahead (`Machine.HasRoom`).

## Main definitions

* `Machine.Overruns`, `Machine.HasRoom`

## Main results

* `Machine.walk_eq_splice`, `Machine.walk_eq_none`
* `Plan.applyIn_guards_every_occurrence`
* `Rules.Plans.applyIn_eq`
-/

namespace ByteSplice

variable {m : Machine} {data replacement output : Bytes} {plan : Plan}
  {found more : List Occurrence} {o : Occurrence} {written : List Bytes} {cursor total k : Nat}

/-! ### Words -/

namespace Machine

theorem maxLength_lt_wordCount (m : Machine) : m.maxLength < m.wordCount := by
  have hpos : 0 < 2 ^ (m.bits - 1) := Nat.two_pow_pos _
  have hle : 2 ^ (m.bits - 1) ≤ 2 ^ m.bits :=
    Nat.pow_le_pow_right Nat.two_pos (Nat.sub_le _ _)
  rw [maxLength, wordCount, Nat.one_shiftLeft, Nat.one_shiftLeft]
  omega

/-- A calculation with a word for its outcome comes to it on every machine. -/
theorem word?_of_lt {z : Int} {n : Nat} (hz : z = n) (h : n < m.wordCount) :
    m.word? z = some n := by
  rw [hz, word?, if_pos ⟨Int.natCast_nonneg n, Int.ofNat_lt.mpr h⟩, Int.toNat_natCast]

/-- A machine that checks its sums stops at every other outcome. -/
theorem word?_of_stops (hstops : m.overflow = .stops) {n : Int}
    (h : n < 0 ∨ (m.wordCount : Int) ≤ n) : m.word? n = none := by
  rw [word?, if_neg (by omega), hstops]

theorem word?_of_wraps (hwraps : m.overflow = .wraps) (n : Int) :
    m.word? n = some (n % m.wordCount).toNat := by
  rw [word?]
  split_ifs with h
  · rw [Int.emod_eq_of_lt h.1 h.2]
  · rw [hwraps]

theorem append?_of_le (h : output.length + replacement.length ≤ m.maxLength) :
    m.append? output replacement = some (output ++ replacement) :=
  if_pos h

end Machine

theorem Occurrence.stopIn_of_lt (h : o.stop < m.wordCount) : o.stopIn m = some o.stop :=
  Machine.word?_of_lt (Int.natCast_add _ _).symm h

theorem Occurrence.stopIn_of_stops (hstops : m.overflow = .stops) (h : m.wordCount ≤ o.stop) :
    o.stopIn m = none :=
  Machine.word?_of_stops hstops (Or.inr (Int.ofNat_le.mpr h))

/-! ### Room for the output -/

namespace Plan

/-- If the patterns fit into the contents, the room is the length that the plan promises. -/
theorem roomIn_of_le (hfit : plan.occurrences.length * plan.pattern.length ≤ plan.sourceLength)
    (hwords : plan.sourceLength + plan.occurrences.length * plan.replacement.length <
      m.wordCount) : plan.roomIn m = some plan.outputLength := by
  have htaken : m.word? (plan.occurrences.length * plan.pattern.length) =
      some (plan.occurrences.length * plan.pattern.length) :=
    Machine.word?_of_lt (Int.natCast_mul _ _).symm (by omega)
  have hbrought : m.word? (plan.occurrences.length * plan.replacement.length) =
      some (plan.occurrences.length * plan.replacement.length) :=
    Machine.word?_of_lt (Int.natCast_mul _ _).symm (by omega)
  simp only [roomIn, htaken, hbrought, Option.bind_eq_bind, Option.bind_some]
  rw [Machine.word?_of_lt (Int.ofNat_sub hfit).symm (by omega), Option.bind_some,
    Machine.word?_of_lt (Int.natCast_add _ _).symm (by omega), outputLength]

/-- A machine that checks its sums stops if they do not. -/
theorem roomIn_of_stops (hstops : m.overflow = .stops)
    (h : plan.sourceLength < plan.occurrences.length * plan.pattern.length) :
    plan.roomIn m = none := by
  rw [roomIn]
  by_cases hword : plan.occurrences.length * plan.pattern.length < m.wordCount
  · rw [Machine.word?_of_lt (Int.natCast_mul _ _).symm hword, Option.bind_eq_bind,
      Option.bind_some, Machine.word?_of_stops hstops (by omega)]
    rfl
  · rw [Machine.word?_of_stops hstops (by omega)]
    rfl

/-- A machine that does not check its sums comes to the same as if it left out only in the end what
does not fit. -/
theorem roomIn_of_wraps (hwraps : m.overflow = .wraps) (plan : Plan) :
    plan.roomIn m = some
      (((plan.sourceLength - plan.occurrences.length * plan.pattern.length +
        plan.occurrences.length * plan.replacement.length : Int) % m.wordCount).toNat) := by
  have hword : (m.wordCount : Int) ≠ 0 := by
    have hpos := m.maxLength_lt_wordCount
    omega
  simp only [roomIn, Machine.word?_of_wraps hwraps, Option.bind_eq_bind, Option.bind_some,
    Int.toNat_of_nonneg (Int.emod_nonneg _ hword)]
  rw [Int.emod_add_emod, Int.add_emod_emod, Int.add_emod, Int.sub_emod_emod, ← Int.add_emod]

/-- When there is room for the output of a plan, if there is room for the contents and all
replacements. -/
theorem exists_roomIn
    (hfit : plan.occurrences.length * plan.pattern.length ≤ plan.sourceLength ∨
      m.overflow = .wraps ∧ plan.occurrences.length * plan.pattern.length ≤
        plan.sourceLength + plan.occurrences.length * plan.replacement.length)
    (hmemory : plan.sourceLength + plan.occurrences.length * plan.replacement.length ≤
      m.maxLength) : ∃ room, plan.roomIn m = some room ∧ room ≤ m.maxLength := by
  rcases hfit with hfit | ⟨hwraps, hfit⟩
  · refine ⟨_, roomIn_of_le hfit (hmemory.trans_lt m.maxLength_lt_wordCount), ?_⟩
    rw [outputLength]
    omega
  · refine ⟨_, roomIn_of_wraps hwraps plan, ?_⟩
    have hword := m.maxLength_lt_wordCount
    have hrest := Int.natCast_mul plan.occurrences.length plan.pattern.length
    have hmore := Int.natCast_mul plan.occurrences.length plan.replacement.length
    rw [Int.emod_eq_of_lt (by omega) (by omega)]
    omega

end Plan

/-! ### The walk -/

namespace Machine

/-- The first occurrence that is out of place starts where it may, but has an end that is not a
word. -/
def Overruns (m : Machine) (cursor total : Nat) (found : List Occurrence) : Prop :=
  ∃ k o, found[k]? = some o ∧
    (∀ j < k, ∀ b, found[j]? = some b → InPlace cursor total found j b) ∧
    priorStop cursor found k ≤ o.offset ∧ m.wordCount ≤ o.stop

theorem overruns_cons_iff :
    m.Overruns cursor total (o :: more) ↔
      cursor ≤ o.offset ∧
        (m.wordCount ≤ o.stop ∨ o.stop ≤ total ∧ m.Overruns o.stop total more) := by
  constructor
  · rintro ⟨k, b, hb, hbefore, hbehind, hover⟩
    cases k with
    | zero =>
      obtain rfl : o = b := by simpa using hb
      exact ⟨by simpa using hbehind, Or.inl hover⟩
    | succ k =>
      obtain ⟨hstart, hstop⟩ := inPlace_zero_iff.mp (hbefore 0 (Nat.succ_pos k) o rfl)
      refine ⟨hstart, Or.inr ⟨hstop, k, b, by simpa using hb, fun j hj c hc => ?_,
        by simpa using hbehind, hover⟩⟩
      exact inPlace_cons_succ_iff.mp (hbefore (j + 1) (Nat.succ_lt_succ hj) c (by simpa using hc))
  · rintro ⟨hstart, hover | ⟨hstop, k, b, hb, hbefore, hbehind, hover⟩⟩
    · exact ⟨0, o, rfl, nofun, by simpa using hstart, hover⟩
    · refine ⟨k + 1, b, by simpa using hb, fun j hj c hc => ?_, by simpa using hbehind, hover⟩
      cases j with
      | zero =>
        obtain rfl : o = c := by simpa using hc
        exact inPlace_zero_iff.mpr ⟨hstart, hstop⟩
      | succ j =>
        have hin := hbefore j (Nat.lt_of_succ_lt_succ hj) c (by simpa using hc)
        exact inPlace_cons_succ_iff.mpr hin

/-- A walk that has come so far meets with no bound ahead of it but those of the words. -/
structure HasRoom (m : Machine) (replacement data output : Bytes) (cursor : Nat)
    (found : List Occurrence) : Prop where
  /-- The contents are a vector. -/
  contents : data.length ≤ m.maxLength
  /-- The cursor is inside the contents, or at their end. -/
  inside : cursor ≤ data.length
  /-- What was written has room for the bytes ahead and a replacement for each occurrence ahead. -/
  ahead : output.length + (data.length - cursor) + found.length * replacement.length ≤ m.maxLength

theorem HasRoom.cons (h : m.HasRoom replacement data output cursor (o :: more))
    (hstart : cursor ≤ o.offset) (hstop : o.stop ≤ data.length) :
    m.HasRoom replacement data
      (output ++ (data.drop cursor).take (o.offset - cursor) ++ replacement) o.stop more := by
  have hoffset : o.offset ≤ o.stop := Nat.le_add_right _ _
  have hahead := h.ahead
  rw [List.length_cons, Nat.succ_mul] at hahead
  refine ⟨h.contents, hstop, ?_⟩
  rw [List.length_append, List.length_append, List.length_take, List.length_drop]
  omega

theorem walk_nil (h : m.HasRoom replacement data output cursor []) :
    m.walk replacement data output cursor [] = some (.ok (output ++ data.drop cursor)) := by
  have htail : slice? data cursor data.length = some (data.drop cursor) := by
    rw [slice?, if_pos ⟨h.inside, le_rfl⟩, ← List.length_drop, List.take_length]
  have hwhole : m.append? output (data.drop cursor) = some (output ++ data.drop cursor) := by
    have hahead := h.ahead
    refine append?_of_le ?_
    rw [List.length_drop]
    omega
  simp only [walk, htail, hwhole, Option.bind_eq_bind, Option.bind_some, Option.pure_def]

/-- An occurrence that starts too early is refused before its end is asked for. -/
theorem walk_cons_of_lt (h : o.offset < cursor) :
    m.walk replacement data output cursor (o :: more) = some (.error (.misplaced o.offset)) := by
  rw [walk, if_pos h]

/-- A machine that checks its sums stops at an end that is not a word. -/
theorem walk_cons_of_stops (hstops : m.overflow = .stops) (hstart : cursor ≤ o.offset)
    (h : m.wordCount ≤ o.stop) : m.walk replacement data output cursor (o :: more) = none := by
  rw [walk, if_neg (Nat.not_lt.mpr hstart), Occurrence.stopIn_of_stops hstops h]
  rfl

/-- An occurrence that ends behind the contents is refused, if its end is a word. -/
theorem walk_cons_of_length_lt (hstart : cursor ≤ o.offset) (hword : o.stop < m.wordCount)
    (h : data.length < o.stop) :
    m.walk replacement data output cursor (o :: more) = some (.error (.misplaced o.offset)) := by
  rw [walk, if_neg (Nat.not_lt.mpr hstart), Occurrence.stopIn_of_lt hword, Option.bind_eq_bind,
    Option.bind_some, if_pos h]

/-- **The check at an occurrence is what the next slice asks for.** -/
theorem walk_cons_of_inPlace (h : m.HasRoom replacement data output cursor (o :: more))
    (hstart : cursor ≤ o.offset) (hstop : o.stop ≤ data.length) :
    m.walk replacement data output cursor (o :: more) =
      m.walk replacement data
        (output ++ (data.drop cursor).take (o.offset - cursor) ++ replacement) o.stop more := by
  have hoffset : o.offset ≤ o.stop := Nat.le_add_right _ _
  have hword : o.stop < m.wordCount :=
    (hstop.trans h.contents).trans_lt m.maxLength_lt_wordCount
  have hgap : slice? data cursor o.offset = some ((data.drop cursor).take (o.offset - cursor)) :=
    if_pos ⟨hstart, hoffset.trans hstop⟩
  have hroom := (h.cons hstart hstop).ahead
  rw [List.length_append, List.length_append] at hroom
  have hkept : m.append? output ((data.drop cursor).take (o.offset - cursor)) =
      some (output ++ (data.drop cursor).take (o.offset - cursor)) :=
    append?_of_le (by omega)
  have hwritten : m.append? (output ++ (data.drop cursor).take (o.offset - cursor)) replacement =
      some (output ++ (data.drop cursor).take (o.offset - cursor) ++ replacement) := by
    refine append?_of_le ?_
    rw [List.length_append]
    omega
  rw [walk, if_neg (Nat.not_lt.mpr hstart)]
  simp only [Occurrence.stopIn_of_lt hword, if_neg (Nat.not_lt.mpr hstop), hgap, hkept, hwritten,
    Option.bind_eq_bind, Option.bind_some]

/-- **A walk on a machine is the splice**, unless an occurrence runs out of the words. -/
theorem walk_eq_splice
    (h : m.HasRoom replacement data written.reverse.flatten cursor found)
    (hruns : ¬ m.Overruns cursor data.length found) :
    m.walk replacement data written.reverse.flatten cursor found =
      some (splice replacement data.length written cursor (data.drop cursor) found) := by
  induction found generalizing written cursor with
  | nil => rw [walk_nil h, splice, List.reverse_cons, List.flatten_append, List.flatten_singleton]
  | cons o more ih =>
    rw [overruns_cons_iff] at hruns
    rw [splice]
    split_ifs with hmisplaced
    · by_cases hstart : o.offset < cursor
      · exact walk_cons_of_lt hstart
      · have hstop : data.length < o.stop := hmisplaced.resolve_left hstart
        have hword : o.stop < m.wordCount := by
          by_contra hnot
          exact hruns ⟨Nat.not_lt.mp hstart, Or.inl (Nat.not_lt.mp hnot)⟩
        exact walk_cons_of_length_lt (Nat.not_lt.mp hstart) hword hstop
    · have hstart : cursor ≤ o.offset := by omega
      have hstop : o.stop ≤ data.length := by omega
      have hoffset : o.offset ≤ o.stop := Nat.le_add_right _ _
      have hrest : (data.drop cursor).drop (o.stop - cursor) = data.drop o.stop := by
        rw [List.drop_drop, Nat.add_sub_cancel' (hstart.trans hoffset)]
      have hwritten : written.reverse.flatten ++ (data.drop cursor).take (o.offset - cursor) ++
          replacement = (replacement :: (data.drop cursor).take (o.offset - cursor) ::
            written).reverse.flatten := by simp
      have hroom := h.cons hstart hstop
      rw [hwritten] at hroom
      rw [walk_cons_of_inPlace h hstart hstop, hwritten, hrest]
      exact ih hroom fun hover => hruns ⟨hstart, Or.inr ⟨hstop, hover⟩⟩

/-- A machine that checks its sums stops where an occurrence runs out of the words. -/
theorem walk_eq_none (hstops : m.overflow = .stops)
    (h : m.HasRoom replacement data output cursor found)
    (hruns : m.Overruns cursor data.length found) :
    m.walk replacement data output cursor found = none := by
  induction found generalizing output cursor with
  | nil =>
    obtain ⟨k, o, ho, -⟩ := hruns
    simp at ho
  | cons o more ih =>
    obtain ⟨hstart, hover | ⟨hstop, hmore⟩⟩ := overruns_cons_iff.mp hruns
    · exact walk_cons_of_stops hstops hstart hover
    · rw [walk_cons_of_inPlace h hstart hstop]
      exact ih (h.cons hstart hstop) hmore

/-- No occurrence runs out of the words if all end inside contents that have a word for their
length. -/
theorem not_overruns_of_laidOut (h : LaidOut cursor total found) (htotal : total < m.wordCount) :
    ¬ m.Overruns cursor total found := by
  rintro ⟨k, o, ho, -, -, hover⟩
  have hinside := h.inside o (List.mem_of_getElem? ho)
  omega

end Machine

/-! ### Plans -/

namespace Plan

section

variable (hallowed : plan.verdict = .allowed) (hlength : data.length = plan.sourceLength)
  (hdigest : Digest.ofBytes data = plan.sourceDigest)

include hallowed hlength hdigest

/-- A plan that is allowed, and was made for contents like these, is reckoned and then walked. -/
theorem applyIn_eq_bind (m : Machine) :
    plan.applyIn m data = (plan.roomIn m).bind fun room =>
      if m.maxLength < room then none
      else m.walk plan.replacement data [] 0 plan.occurrences := by
  have hsame : ¬ (data.length ≠ plan.sourceLength ∨ Digest.ofBytes data ≠ plan.sourceDigest) := by
    simp [hlength, hdigest]
  simp only [applyIn, hallowed, if_neg hsame, Option.bind_eq_bind]

theorem applyIn_eq_walk {room : Nat} (hroom : plan.roomIn m = some room)
    (hle : room ≤ m.maxLength) :
    plan.applyIn m data = m.walk plan.replacement data [] 0 plan.occurrences := by
  rw [applyIn_eq_bind hallowed hlength hdigest, hroom, Option.bind_some,
    if_neg (Nat.not_lt.mpr hle)]

variable (hmemory : data.length + plan.occurrences.length * plan.replacement.length ≤ m.maxLength)

include hmemory

omit hallowed hlength hdigest in
theorem hasRoom_start :
    m.HasRoom plan.replacement data [] 0 plan.occurrences :=
  ⟨(Nat.le_add_right _ _).trans hmemory, Nat.zero_le _, by simpa using hmemory⟩

/-- **A machine comes to the same as a splice without bounds** if the length of the output can be
reckoned and no occurrence runs out of the words. -/
theorem applyIn_eq_apply
    (hfit : plan.occurrences.length * plan.pattern.length ≤ data.length ∨
      m.overflow = .wraps ∧ plan.occurrences.length * plan.pattern.length ≤
        data.length + plan.occurrences.length * plan.replacement.length)
    (hruns : ¬ m.Overruns 0 data.length plan.occurrences) :
    plan.applyIn m data = some (plan.apply data) := by
  have hstart := hasRoom_start hmemory
  rw [hlength] at hfit hmemory
  obtain ⟨room, hroom, hle⟩ := exists_roomIn hfit hmemory
  rw [applyIn_eq_walk hallowed hlength hdigest hroom hle,
    apply_eq_splice hallowed hlength hdigest]
  exact @Machine.walk_eq_splice m data plan.replacement plan.occurrences [] 0 hstart hruns

/-- **When a machine that checks its sums stops.** It never does so at a slice. -/
theorem applyIn_eq_none_iff (hstops : m.overflow = .stops) :
    plan.applyIn m data = none ↔
      data.length < plan.occurrences.length * plan.pattern.length ∨
        m.Overruns 0 data.length plan.occurrences := by
  by_cases hfit : plan.occurrences.length * plan.pattern.length ≤ data.length
  · by_cases hruns : m.Overruns 0 data.length plan.occurrences
    · refine iff_of_true ?_ (Or.inr hruns)
      have hstart := hasRoom_start hmemory
      rw [hlength] at hfit hmemory
      obtain ⟨room, hroom, hle⟩ := exists_roomIn (Or.inl hfit) hmemory
      rw [applyIn_eq_walk hallowed hlength hdigest hroom hle]
      exact Machine.walk_eq_none hstops hstart hruns
    · rw [applyIn_eq_apply hallowed hlength hdigest hmemory (Or.inl hfit) hruns]
      exact iff_of_false nofun fun h => h.elim (Nat.not_lt.mpr hfit) hruns
  · refine iff_of_true ?_ (Or.inl (Nat.not_le.mp hfit))
    rw [hlength, Nat.not_le] at hfit
    rw [applyIn_eq_bind hallowed hlength hdigest, roomIn_of_stops hstops hfit]
    rfl

end

/-- **The check at every occurrence is exact on a machine**, with words of any width and whether it
checks its sums or not, if the plan is allowed and was made for contents of this length and digest,
and if these have room with one replacement more for each occurrence.

Let the length that is reckoned for the output be none below zero, and let no occurrence run out of
the words. Then the machine does not stop, and so never cuts out a piece that is not there. It gets
through just if every occurrence starts where the one before it ends, or later, and ends inside the
contents, and then these come out with the ranges of the occurrences replaced, and with all other
bytes in order. Otherwise the plan is refused, and the offset of the first occurrence that breaks
the rule is named.

A machine that checks its sums stops in all other cases. -/
theorem applyIn_guards_every_occurrence (m : Machine) (hallowed : plan.verdict = .allowed)
    (hlength : data.length = plan.sourceLength)
    (hdigest : Digest.ofBytes data = plan.sourceDigest)
    (hmemory : data.length + plan.occurrences.length * plan.replacement.length ≤ m.maxLength) :
    let found := plan.occurrences
    let taken := found.length * plan.pattern.length
    let brought := found.length * plan.replacement.length
    (taken ≤ data.length ∨ m.overflow = .wraps ∧ taken ≤ data.length + brought →
      ¬ m.Overruns 0 data.length found →
      ∃ result, plan.applyIn m data = some result ∧
        ((∃ output, result = .ok output) ↔
          ∀ k o, found[k]? = some o → InPlace 0 data.length found k o) ∧
        (∀ output, result = .ok output → output = rewritten plan.replacement data found) ∧
        ((¬ ∃ output, result = .ok output) →
          ∃ k o, found[k]? = some o ∧ ¬ InPlace 0 data.length found k o ∧
            (∀ j < k, ∀ b, found[j]? = some b → InPlace 0 data.length found j b) ∧
            result.mapError Refusal.toPatchError = .error (.illegalPlan
              ("occurrence at offset " ++ toString o.offset ++
                " is out of order or out of bounds")))) ∧
    (m.overflow = .stops →
      (plan.applyIn m data = none ↔
        data.length < taken ∨ m.Overruns 0 data.length found)) := by
  intro found taken brought
  refine ⟨fun hfit hruns => ?_, applyIn_eq_none_iff hallowed hlength hdigest hmemory⟩
  exact ⟨plan.apply data, applyIn_eq_apply hallowed hlength hdigest hmemory hfit hruns,
    apply_guards_every_occurrence hallowed hlength hdigest⟩

/-- Occurrences without a length in front of the first byte and behind the last, also where sums
wrap; occurrences of which the third runs backwards, and so the fourth does no harm although it runs
out of the words; and an occurrence that does harm. -/
theorem applyIn_guards_every_occurrence_backwards :
    let data : Bytes := [1, 2, 3, 4]
    let plan (found : List Occurrence) : Plan :=
      ⟨⟨⟨[9], by decide⟩, [7, 8], found⟩, .allowed, 4, Digest.ofBytes data⟩
    let far : Occurrence := ⟨9, 0xffffffffffffffff⟩
    (plan [⟨0, 0⟩, ⟨1, 2⟩, ⟨4, 0⟩]).applyIn ⟨64, .wraps⟩ data =
        some (.ok [7, 8, 1, 7, 8, 4, 7, 8]) ∧
      (∃ result,
        (plan [⟨0, 1⟩, ⟨3, 1⟩, ⟨1, 1⟩, far]).applyIn ⟨64, .stops⟩ data = some result ∧
          result.mapError Refusal.toPatchError =
            .error (.illegalPlan "occurrence at offset 1 is out of order or out of bounds")) ∧
      (plan [⟨0, 1⟩, far]).applyIn ⟨64, .stops⟩ data = none := by
  intro data plan far
  refine ⟨?_, ?_, ?_⟩
  · have hlaid : LaidOut 0 data.length [⟨0, 0⟩, ⟨1, 2⟩, ⟨4, 0⟩] := by
      simp [laidOut_cons_iff, laidOut_nil, Occurrence.stop, data]
    obtain ⟨result, hresult, hiff, hrewritten, -⟩ :=
      (@applyIn_guards_every_occurrence data (plan [⟨0, 0⟩, ⟨1, 2⟩, ⟨4, 0⟩]) ⟨64, .wraps⟩
        rfl rfl rfl (by decide)).1 (Or.inl (by decide))
        (Machine.not_overruns_of_laidOut hlaid (by decide))
    obtain ⟨output, hok⟩ := hiff.mpr (laidOut_iff_inPlace.mp hlaid)
    rw [hresult, hok, hrewritten output hok]
    rfl
  · have hruns : ¬ Machine.Overruns ⟨64, .stops⟩ 0 data.length [⟨0, 1⟩, ⟨3, 1⟩, ⟨1, 1⟩, far] := by
      simp [Machine.overruns_cons_iff, Machine.wordCount, Occurrence.stop, data, far]
    obtain ⟨result, hresult, hiff, -, hrefused⟩ :=
      (@applyIn_guards_every_occurrence data (plan [⟨0, 1⟩, ⟨3, 1⟩, ⟨1, 1⟩, far])
        ⟨64, .stops⟩ rfl rfl rfl (by decide)).1 (Or.inl (by decide)) hruns
    have hthird : ¬ InPlace 0 data.length [⟨0, 1⟩, ⟨3, 1⟩, ⟨1, 1⟩, far] 2 ⟨1, 1⟩ := by
      decide
    obtain ⟨k, o, ho, hmisplaced, hbefore, herror⟩ :=
      hrefused fun hok => hthird (hiff.mp hok 2 ⟨1, 1⟩ rfl)
    refine ⟨result, hresult, ?_⟩
    rw [herror]
    -- the first two are in place, and none behind the third can be the first that is not
    rcases k with _ | _ | _ | k
    · cases ho
      exact absurd (by decide) hmisplaced
    · cases ho
      exact absurd (by decide) hmisplaced
    · cases ho
      rfl
    · exact absurd (hbefore 2 (by omega) ⟨1, 1⟩ rfl) hthird
  · have hruns : Machine.Overruns ⟨64, .stops⟩ 0 data.length [⟨0, 1⟩, far] := by
      simp [Machine.overruns_cons_iff, Machine.wordCount, Occurrence.stop, data, far]
    exact ((@applyIn_guards_every_occurrence data (plan [⟨0, 1⟩, far]) ⟨64, .stops⟩
      rfl rfl rfl (by decide)).2 rfl).mpr (Or.inr hruns)

/-- An output that would be longer than a vector can be stops every machine, whether it checks its
sums or not. -/
theorem applyIn_of_maxLength_lt (hallowed : plan.verdict = .allowed)
    (hlength : data.length = plan.sourceLength)
    (hdigest : Digest.ofBytes data = plan.sourceDigest)
    (hfit : plan.occurrences.length * plan.pattern.length ≤ plan.sourceLength)
    (hwords : plan.sourceLength + plan.occurrences.length * plan.replacement.length < m.wordCount)
    (h : m.maxLength < plan.outputLength) : plan.applyIn m data = none := by
  rw [applyIn_eq_bind hallowed hlength hdigest, roomIn_of_le hfit hwords, Option.bind_some,
    if_pos h]

/-- **Without these bounds the check is not exact**, on a machine of today. An occurrence that is in
place stops it, where the pattern is longer than the contents. An occurrence that is not in place
stops it, at the sum or else at the slice; or it gets through, and a byte is written twice. And
occurrences that are all in place stop it by the mere length of the output. -/
theorem applyIn_misses_occurrences :
    let data : Bytes := [1, 2, 3, 4]
    let plan (pattern : Pattern) (found : List Occurrence) : Plan :=
      ⟨⟨pattern, [7], found⟩, .allowed, 4, Digest.ofBytes data⟩
    let long : Pattern := ⟨[1, 2, 3, 4, 5, 6], by decide⟩
    let short : Pattern := ⟨[9], by decide⟩
    let last : Occurrence := ⟨0xffffffffffffffff, 1⟩
    let around : Occurrence := ⟨2, 0xffffffffffffffff⟩
    (InPlace 0 data.length [⟨0, 0⟩] 0 ⟨0, 0⟩ ∧
      (plan long [⟨0, 0⟩]).applyIn ⟨64, .stops⟩ data = none ∧
      (plan long [⟨0, 0⟩]).applyIn ⟨64, .wraps⟩ data = none) ∧
    (¬ InPlace 0 data.length [last] 0 last ∧
      (plan short [last]).applyIn ⟨64, .stops⟩ data = none ∧
      (plan short [last]).applyIn ⟨64, .wraps⟩ data = none) ∧
    (¬ InPlace 0 data.length [around] 0 around ∧
      (plan short [around]).applyIn ⟨64, .wraps⟩ data = some (.ok [1, 2, 7, 2, 3, 4])) ∧
    ∃ large : Bytes, ∃ crowd : List Occurrence, ∃ crowded : Plan,
      crowded.occurrences = crowd ∧ crowded.verdict = .allowed ∧
      large.length = crowded.sourceLength ∧ Digest.ofBytes large = crowded.sourceDigest ∧
      (∀ k o, crowd[k]? = some o → InPlace 0 large.length crowd k o) ∧
      crowded.applyIn ⟨64, .stops⟩ large = none ∧ crowded.applyIn ⟨64, .wraps⟩ large = none := by
  intro data plan long short last around
  have hplan (pattern : Pattern) (found : List Occurrence) (m : Machine) :
      (plan pattern found).applyIn m data = ((plan pattern found).roomIn m).bind fun room =>
        if m.maxLength < room then none else m.walk [7] data [] 0 found :=
    applyIn_eq_bind rfl rfl rfl m
  refine ⟨⟨by decide, ?_, ?_⟩, ⟨by decide, ?_, ?_⟩, ⟨by decide, ?_⟩, ?crowded⟩
  case crowded =>
    -- the bytes do not matter, and nothing must go through so many of them
    obtain ⟨large, hlarge⟩ : ∃ large : Bytes, large.length = 0x100000000 :=
      ⟨List.replicate 0x100000000 0, List.length_replicate⟩
    let crowded : Plan :=
      ⟨⟨short, List.replicate 0x80000000 0, List.replicate 0x100000000 ⟨0, 0⟩⟩, .allowed,
        0x100000000, Digest.ofBytes large⟩
    have hnone (overflow : Overflow) :=
      @applyIn_of_maxLength_lt ⟨64, overflow⟩ large crowded rfl hlarge rfl
    simp only [crowded, List.length_replicate, outputLength] at hnone
    refine ⟨large, _, crowded, rfl, rfl, hlarge, rfl, fun k o => inPlace_replicate,
      hnone .stops ?_ ?_ ?_, hnone .wraps ?_ ?_ ?_⟩
    all_goals decide
  all_goals
    rw [hplan]
    decide +kernel

end Plan

/-- **A plan that planning has made comes to the same on every machine**, whatever contents it is
held against, if those that it was made for have room with one replacement more for each
occurrence. -/
theorem Rules.Plans.applyIn_eq {rules : Rules} {request : Request}
    (h : rules.Plans data request plan)
    (hmemory : data.length + plan.occurrences.length * plan.replacement.length ≤ m.maxLength)
    (contents : Bytes) : plan.applyIn m contents = some (plan.apply contents) := by
  cases hverdict : plan.verdict with
  | denied e => simp only [Plan.applyIn, Plan.apply, hverdict]
  | allowed =>
    by_cases hother : contents.length ≠ plan.sourceLength ∨
        Digest.ofBytes contents ≠ plan.sourceDigest
    · simp only [Plan.applyIn, Plan.apply, hverdict, if_pos hother]
    · push Not at hother
      obtain ⟨hlength, hdigest⟩ := hother
      have hsame : contents.length = data.length := by rw [hlength, h.sourceLength_eq]
      have hlaid : LaidOut 0 contents.length plan.occurrences := by
        rw [h.occurrences_eq, hsame]
        exact laidOut_findAll data plan.pattern
      have hword : contents.length < m.wordCount := by
        have hmax := m.maxLength_lt_wordCount
        omega
      rw [← hsame] at hmemory
      exact Plan.applyIn_eq_apply hverdict hlength hdigest hmemory
        (Or.inl (hsame ▸ h.mul_length_le)) (Machine.not_overruns_of_laidOut hlaid hword)

end ByteSplice
