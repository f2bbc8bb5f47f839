import ByteSplice.Proofs.Planning

/-!
# One replacement after another

To replace `p` by `q` and then `q` by `r` is to replace `p` by `r`, if the second replacement meets
with what the first has written and with nothing else. It is enough for this that the first byte of
`q` is not among the contents. One might think that more is needed. What the first replacement
writes may stand side by side, and `q` may overlap itself, so that the bytes hold matches of `q`
that nobody wrote.

A scan does not come to those. It begins in front of the first copy with both scans at the same
place, and there are three cases from there on, which are those of the first replacement. Where `p`
stands, the first replacement writes a copy of `q`, the second takes just that copy, and both are
behind it. Where `p` does not stand, the byte is kept, it is not the first byte of `q`, and both are
behind the byte. So the two stay together to the end (`replaceAll_replaceAll`).

In particular a replacement is undone by the opposite one.

## Main definitions

* `Rules.Admits`: a request that neither policy is against.

## Main results

* `replaceAll_replaceAll`, `count_replaceAll_fresh`, `replaceAll_self`
* `Rules.Admits.exists_plan`
* `Rules.replacements_fuse`
-/

namespace ByteSplice

variable {p q : Pattern} {replacement data rest : Bytes} {b : UInt8}

/-! ### In bytes -/

/-- A match shows at its first byte. -/
theorem Pattern.not_isPrefix_cons_of_ne (h : q.bytes.head q.bytes_ne_nil ≠ b) :
    ¬ q.bytes <+: b :: rest := by
  obtain ⟨bytes, hne⟩ := q
  obtain ⟨c, more, rfl⟩ := List.exists_cons_of_ne_nil hne
  exact fun hmatch => h (List.cons_prefix_cons.mp hmatch).1

/-- **Two replacements in a row are one**, if the bytes that the second looks for cannot begin
anywhere but where the first has written them. -/
theorem replaceAll_replaceAll (hfresh : q.bytes.head q.bytes_ne_nil ∉ data) :
    replaceAll q replacement (replaceAll p q.bytes data) = replaceAll p replacement data := by
  induction data using replaceAll.induct p with
  | case1 => simp only [replaceAll_nil]
  | case2 b rest hmatch ih =>
    have hbehind := ih (mt List.mem_of_mem_drop hfresh)
    rw [replaceAll_of_isPrefix hmatch, replaceAll_of_isPrefix hmatch, replaceAll_pattern_append,
      hbehind]
  | case3 b rest hmiss ih =>
    obtain ⟨hb, hrest⟩ := not_or.mp (mt List.mem_cons.mpr hfresh)
    rw [replaceAll_of_not_isPrefix hmiss, replaceAll_of_not_isPrefix hmiss,
      replaceAll_of_not_isPrefix (Pattern.not_isPrefix_cons_of_ne hb), ih hrest]

/-- The second replacement finds what the first has written, copy by copy. -/
theorem count_replaceAll_fresh (hfresh : q.bytes.head q.bytes_ne_nil ∉ data) :
    count (replaceAll p q.bytes data) q = count data p := by
  induction data using replaceAll.induct p with
  | case1 => simp only [replaceAll_nil, count, findAll_eq, occurrencesFrom_nil]
  | case2 b rest hmatch ih =>
    have hbehind := ih (mt List.mem_of_mem_drop hfresh)
    rw [replaceAll_of_isPrefix hmatch, count_of_isPrefix hmatch, count_pattern_append, hbehind]
  | case3 b rest hmiss ih =>
    obtain ⟨hb, hrest⟩ := not_or.mp (mt List.mem_cons.mpr hfresh)
    rw [replaceAll_of_not_isPrefix hmiss, count_of_not_isPrefix hmiss,
      count_of_not_isPrefix (Pattern.not_isPrefix_cons_of_ne hb), ih hrest]

/-- To replace something by itself is to leave it. -/
@[simp] theorem replaceAll_self (p : Pattern) (data : Bytes) :
    replaceAll p p.bytes data = data := by
  induction data using replaceAll.induct p with
  | case1 => exact replaceAll_nil p p.bytes
  | case2 b rest hmatch ih =>
    rw [replaceAll_of_isPrefix hmatch, ih]
    exact List.prefix_iff_eq_append.mp hmatch
  | case3 b rest hmiss ih => rw [replaceAll_of_not_isPrefix hmiss, ih]

/-! ### In requests -/

namespace Rules

/-- The request is to replace `p` by the given bytes, whether or not `p` is found and whichever of
the two is longer. -/
structure Admits (rules : Rules) (request : Request) (p : Pattern) (replacement : Bytes) : Prop
    extends rules.Reads request p replacement where
  silent : rules.zeroMatch = .silent
  grows : request.allowOverflow = true

variable {rules : Rules} {request : Request}

/-- Neither policy being against it, such a request has a plan for any contents, and the plan can be
applied. -/
theorem Admits.exists_plan (h : rules.Admits request p replacement) (data : Bytes) :
    ∃ plan, rules.plan data request = .ok plan ∧ plan.occurrences.length = count data p ∧
      plan.apply data = .ok (replaceAll p replacement data) := by
  have hfound : rules.zeroMatch = .silent ∨ ∃ i, p.MatchesAt data i := Or.inl h.silent
  obtain ⟨plan, hplans, rfl, rfl⟩ := h.toReads.exists_plans hfound
  have hallowed : plan.verdict = .allowed := hplans.allowed_iff.mpr (Or.inl h.grows)
  exact ⟨plan, plan_eq_ok_iff.mpr ⟨hplans, hallowed⟩, congrArg List.length hplans.occurrences_eq,
    hplans.apply hallowed⟩

/-- **Replacements fuse.** A request has put `q` for `p` in contents that do not have the first byte
of `q`. To put something else for `q` then finds as many matches as there were of `p`, and comes to
what it would have been to put that for `p`. To put `p` for `q` gives the contents back. -/
theorem replacements_fuse (hadmits : rules.Admits request p q.bytes)
    (hfresh : q.bytes.head q.bytes_ne_nil ∉ data) :
    ∃ (plan : Plan) (middle : Bytes),
      rules.plan data request = .ok plan ∧ plan.apply data = .ok middle ∧
      (∀ (rules' rules'' : Rules) (request' request'' : Request) (replacement : Bytes),
        rules'.Admits request' q replacement → rules''.Admits request'' p replacement →
        ∃ (plan' plan'' : Plan) (output : Bytes),
          rules'.plan middle request' = .ok plan' ∧ plan'.apply middle = .ok output ∧
          rules''.plan data request'' = .ok plan'' ∧ plan''.apply data = .ok output ∧
          plan'.occurrences.length = plan.occurrences.length) ∧
      ∀ (rules' : Rules) (request' : Request), rules'.Admits request' q p.bytes →
        ∃ plan' : Plan, rules'.plan middle request' = .ok plan' ∧
          plan'.apply middle = .ok data := by
  obtain ⟨plan, hplan, hcount, happly⟩ := hadmits.exists_plan data
  refine ⟨plan, _, hplan, happly, ?_, ?_⟩
  · intro rules' rules'' request' request'' replacement hsecond hboth
    obtain ⟨plan', hplan', hcount', happly'⟩ := hsecond.exists_plan (replaceAll p q.bytes data)
    obtain ⟨plan'', hplan'', -, happly''⟩ := hboth.exists_plan data
    rw [replaceAll_replaceAll hfresh] at happly'
    rw [count_replaceAll_fresh hfresh, ← hcount] at hcount'
    exact ⟨plan', plan'', _, hplan', happly', hplan'', happly'', hcount'⟩
  · intro rules' request' hback
    obtain ⟨plan', hplan', -, happly'⟩ := hback.exists_plan (replaceAll p q.bytes data)
    rw [replaceAll_replaceAll hfresh, replaceAll_self] at happly'
    exact ⟨plan', hplan', happly'⟩

/-- The copies stand side by side and overlap themselves: the contents in between have six bytes in
a row at which a match begins or another one goes on. -/
theorem replacements_fuse_repeated :
    let rules : Rules := { encoding := .hex }
    let request : Request := ⟨"01", "030303", false, true⟩
    let data : Bytes := [1, 1, 2, 1]
    (3 : UInt8) ∉ data ∧ ∃ (plan : Plan) (middle : Bytes) (plan' : Plan) (output : Bytes)
      (back : Plan),
      rules.plan data request = .ok plan ∧ plan.apply data = .ok middle ∧
        middle = [3, 3, 3, 3, 3, 3, 2, 3, 3, 3] ∧
        rules.plan middle ⟨"030303", "0405", true, true⟩ = .ok plan' ∧
        plan'.apply middle = .ok output ∧ output = [4, 5, 0, 4, 5, 0, 2, 4, 5, 0] ∧
        plan'.occurrences.length = plan.occurrences.length ∧
        rules.plan middle ⟨"030303", "01", false, true⟩ = .ok back ∧
        back.apply middle = .ok data := by
  intro rules request data
  let p : Pattern := ⟨[1], by decide⟩
  let q : Pattern := ⟨[3, 3, 3], by decide⟩
  have hone : Encoding.hex.encode "01" = .ok [1] := rfl
  have hcopy : Encoding.hex.encode "030303" = .ok [3, 3, 3] := rfl
  have hnew : Encoding.hex.encode "0405" = .ok [4, 5] := rfl
  have hfirst : rules.Admits request p q.bytes := ⟨⟨hone, [3, 3, 3], hcopy, rfl⟩, rfl, rfl⟩
  have hsecond : rules.Admits ⟨"030303", "0405", true, true⟩ q [4, 5, 0] :=
    ⟨⟨hcopy, [4, 5], hnew, rfl⟩, rfl, rfl⟩
  have hboth : rules.Admits ⟨"01", "0405", true, true⟩ p [4, 5, 0] :=
    ⟨⟨hone, [4, 5], hnew, rfl⟩, rfl, rfl⟩
  have hback : rules.Admits ⟨"030303", "01", false, true⟩ q p.bytes :=
    ⟨⟨hcopy, [1], hone, rfl⟩, rfl, rfl⟩
  have hfresh : q.bytes.head q.bytes_ne_nil ∉ data := by decide
  obtain ⟨plan, middle, hplan, happly, hfuse, hundo⟩ := replacements_fuse hfirst hfresh
  obtain ⟨plan', plan'', output, hplan', happly', hplan'', happly'', hcount⟩ :=
    hfuse rules rules _ _ _ hsecond hboth
  obtain ⟨back, hplanBack, happlyBack⟩ := hundo rules _ hback
  have hmiddle : middle = replaceAll p q.bytes data :=
    hfirst.toReads.eq_replaceAll_of_apply hplan happly
  have houtput : output = replaceAll p [4, 5, 0] data :=
    hboth.toReads.eq_replaceAll_of_apply hplan'' happly''
  refine ⟨hfresh, plan, middle, plan', output, back, hplan, happly, hmiddle.trans ?_, hplan',
    happly', houtput.trans ?_, hcount, hplanBack, happlyBack⟩
  all_goals cbv

end Rules

end ByteSplice
