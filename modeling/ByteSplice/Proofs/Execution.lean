import ByteSplice.Patch
import ByteSplice.Proofs.Commit
import ByteSplice.Proofs.Planning

/-!
# How a request ends

Carrying out a request can end in four ways: it is turned down while it is planned, there is nothing
to do, the resource does not take its new contents, or everything has gone well. A fifth is in the
program, since a splice may refuse a plan, but no request ever comes to it: the plan was made for
the very contents it is applied to.

`Rules.Ends` lists the four, each with all that it leads to, and `execute_ends` says that there are
no others. What is proved of `Rules.execute` is proved of each of the four and nowhere else, so the
program is taken apart only once.

## All or nothing

Only the last of the four does anything. In the first and the third the request fails, in the
second it succeeds, and in all three the site and the observers are what they were
(`Execution.LeavesAlone`). Which of the four it is depends on the plan and on whether the site is
writable, and planning knows nothing of the site but the contents. So a protected resource answers
like one that is not, until there is something to write.

## Main definitions

* `Rules.Ends`
* `Execution.LeavesAlone`

## Main results

* `Rules.execute_ends`
* `Rules.execute_eq_replaceAll`
* `Rules.execute_all_or_nothing`
-/

namespace ByteSplice

variable {rules : Rules} {site site' : Site} {observers others : List Observer}
  {request : Request} {x y : Execution}

/-! ### The four ways -/

/-- What is noted of a request before it is known whether there is a plan. -/
def Rules.opening (rules : Rules) (data : Bytes) (request : Request) : Journal :=
  .received request.findText.utf8ByteSize request.replaceText.utf8ByteSize request.nullTerminate
    request.allowOverflow :: rules.scanJournal data request

/-- What is noted of a change once it is committed. -/
def Change.closing (c : Change) (observers : List Observer) : Journal :=
  .applied c.occurrences c.oldLength c.newLength ::
    (notifyAll c observers).2.map .observerFailed ++ [.completed]

/-- The ways in which carrying out a request can end, and what each of them leads to. -/
inductive Rules.Ends (rules : Rules) (site : Site) (observers : List Observer)
    (request : Request) : Execution → Prop
  /-- The request is turned down. -/
  | rejected {e : PatchError} (hplan : rules.plan site.resource.data request = .error e) :
    Ends rules site observers request
      ⟨.error e, site, observers, rules.opening site.resource.data request ++ [.rejected e]⟩
  /-- There is nothing to do. -/
  | unmatched {plan : Plan} (hplan : rules.plan site.resource.data request = .ok plan)
      (hnone : plan.occurrences = []) :
    Ends rules site observers request
      ⟨.ok site.resource.unchanged, site, observers,
        rules.opening site.resource.data request ++ [.planned 0, .unmatched]⟩
  /-- The resource does not take the new contents. -/
  | uncommitted {plan : Plan} {e : CommitError}
      (hplan : rules.plan site.resource.data request = .ok plan)
      (hsome : plan.occurrences ≠ []) (hwritable : ¬ site.IsWritable) :
    Ends rules site observers request
      ⟨.error (.commitFailed e.message), site, observers,
        rules.opening site.resource.data request ++
          [.planned plan.occurrences.length, .commitFailed e]⟩
  /-- The resource has the new contents, and the observers know. -/
  | changed {plan : Plan} {output : Bytes} {tree : Tree} {backups : Journal}
      (hplan : rules.plan site.resource.data request = .ok plan)
      (hsome : plan.occurrences ≠ []) (hwritable : site.IsWritable)
      (happly : plan.apply site.resource.data = .ok output)
      (hcommit : site.commit output = ⟨none, ⟨site.resource.withData output, tree⟩, backups⟩) :
    Ends rules site observers request
      ⟨.ok (plan.change site.resource.id output).outcome,
        ⟨site.resource.withData output, tree⟩,
        (notifyAll (plan.change site.resource.id output) observers).1,
        rules.opening site.resource.data request ++ .planned plan.occurrences.length ::
          (backups ++ (plan.change site.resource.id output).closing observers)⟩

namespace Rules

/-- **There is no other way.** In particular no plan is refused. -/
theorem execute_ends (rules : Rules) (site : Site) (observers : List Observer)
    (request : Request) : rules.Ends site observers request
      (rules.execute site observers request) := by
  cases hplan : rules.plan site.resource.data request with
  | error e =>
    simp only [execute, hplan]
    exact .rejected hplan
  | ok plan =>
    by_cases hnone : plan.occurrences = []
    · simp only [execute, hplan, Plan.isNoop, hnone, List.isEmpty_nil, if_true, List.append_assoc]
      exact .unmatched hplan hnone
    · obtain ⟨h, hallowed⟩ := plan_eq_ok_iff.mp hplan
      have happly := h.apply hallowed
      have hnoop : plan.occurrences.isEmpty = false := List.isEmpty_eq_false_iff.mpr hnone
      by_cases hwritable : site.IsWritable
      · obtain ⟨tree, backups, hcommit, -⟩ := Site.commit_of_isWritable hwritable
          (replaceAll plan.pattern plan.replacement site.resource.data)
        simp only [execute, hplan, Plan.isNoop, hnoop, carryOut, happly, hcommit,
          Bool.false_eq_true, if_false, List.append_assoc]
        exact .changed hplan hnone hwritable happly hcommit
      · obtain ⟨e, left, hcommit, hletGo⟩ := Site.commit_of_not_isWritable hwritable
          (replaceAll plan.pattern plan.replacement site.resource.data)
        simp only [execute, hplan, Plan.isNoop, hnoop, carryOut, happly, hcommit, hletGo,
          Bool.false_eq_true, if_false, List.append_assoc]
        exact .uncommitted hplan hnone hwritable

/-! ### Which of the four -/

theorem Ends.unchanged_iff (h : rules.Ends site observers request x) :
    (∃ o, x.result = .ok o ∧ o.changed = false) ↔
      ∃ plan, rules.plan site.resource.data request = .ok plan ∧ plan.occurrences = [] := by
  cases h with
  | rejected hplan => simp [hplan]
  | unmatched hplan hnone => simp [hplan, hnone, Resource.unchanged]
  | uncommitted hplan hsome => simp [hplan, hsome]
  | changed hplan hsome => simp [hplan, hsome, Change.outcome]

theorem Ends.changed_iff (h : rules.Ends site observers request x) :
    (∃ o, x.result = .ok o ∧ o.changed = true) ↔
      site.IsWritable ∧
        ∃ plan, rules.plan site.resource.data request = .ok plan ∧ plan.occurrences ≠ [] := by
  cases h with
  | rejected hplan => simp [hplan]
  | unmatched hplan hnone => simp [hplan, hnone, Resource.unchanged]
  | uncommitted hplan hsome hwritable => simp [hplan, hsome, hwritable]
  | changed hplan hsome hwritable => simp [hplan, hsome, hwritable, Change.outcome]

theorem Ends.commitFailed_iff (h : rules.Ends site observers request x) :
    (∃ e, x.result = .error e ∧ e.kind = .commitFailed) ↔
      ¬ site.IsWritable ∧
        ∃ plan, rules.plan site.resource.data request = .ok plan ∧ plan.occurrences ≠ [] := by
  cases h with
  | rejected hplan => simp [hplan, (isValidation_of_plan hplan).2]
  | unmatched hplan hnone => simp [hplan, hnone]
  | uncommitted hplan hsome hwritable => simp [hplan, hsome, hwritable, PatchError.kind]
  | changed hplan hsome hwritable => simp [hplan, hsome, hwritable]

/-- As long as there is nothing to write, only the contents count. -/
theorem Ends.result_eq (h : rules.Ends site observers request x)
    (h' : rules.Ends site' others request y) (hdata : site'.resource.data = site.resource.data)
    (hid : site'.resource.id = site.resource.id)
    (hidle : ∀ plan, rules.plan site.resource.data request = .ok plan → plan.occurrences = []) :
    x.result = y.result := by
  cases h with
  | rejected hplan =>
    cases h' with
    | rejected hplan' =>
      rw [hdata, hplan] at hplan'
      rw [Except.error.inj hplan']
    | unmatched hplan' | uncommitted hplan' | changed hplan' =>
      rw [hdata, hplan] at hplan'
      cases hplan'
  | unmatched hplan hnone =>
    cases h' with
    | rejected hplan' =>
      rw [hdata, hplan] at hplan'
      cases hplan'
    | unmatched => simp only [Resource.unchanged, hdata, hid]
    | uncommitted hplan' hsome | changed hplan' hsome =>
      exact absurd (hidle _ (hdata ▸ hplan')) hsome
  | uncommitted hplan hsome => exact absurd (hidle _ hplan) hsome
  | changed hplan hsome => exact absurd (hidle _ hplan) hsome

theorem Ends.kind_ne_illegalPlan (h : rules.Ends site observers request x) {e : PatchError}
    (he : x.result = .error e) : e.kind ≠ .illegalPlan := by
  cases h with
  | rejected hplan =>
    cases he
    exact (isValidation_of_plan hplan).1
  | unmatched => cases he
  | uncommitted =>
    cases he
    exact nofun
  | changed => cases he

/-- A site that is not writable tells itself from one that is by the failed commit alone. -/
theorem Ends.of_not_isWritable (h : rules.Ends site observers request x)
    (h' : rules.Ends site' others request y) (hsite : ¬ site.IsWritable)
    (hsite' : site'.IsWritable) (hdata : site'.resource.data = site.resource.data)
    (hid : site'.resource.id = site.resource.id) :
    ((∃ e, x.result = .error e ∧ e.kind = .commitFailed) ↔
      ∃ o, y.result = .ok o ∧ o.changed = true) ∧
    ((¬ ∃ o, y.result = .ok o ∧ o.changed = true) → x.result = y.result) := by
  rw [h.commitFailed_iff, h'.changed_iff, hdata]
  refine ⟨⟨fun hx => ⟨hsite', hx.2⟩, fun hy => ⟨hsite, hy.2⟩⟩, fun hidle => ?_⟩
  refine h.result_eq h' hdata hid fun plan hplan => ?_
  by_contra hsome
  exact hidle ⟨hsite', plan, hplan, hsome⟩

end Rules

/-! ### Nothing done -/

/-- The entry notes that something was written or that somebody was told. -/
def JournalEntry.IsEffect : JournalEntry → Prop
  | .wroteBackup _ | .applied _ _ _ | .observerFailed _ => True
  | _ => False

/-- The site is what it was, and no observer was told of anything. -/
structure Execution.LeavesAlone (x : Execution) (site : Site) (observers : List Observer) :
    Prop where
  site_eq : x.site = site
  observers_eq : x.observers = observers
  /-- Nor did one fail at being told, which would show in the journal only. -/
  no_effect : ∀ entry ∈ x.journal, ¬ entry.IsEffect

namespace Rules

theorem eq_of_mem_opening {data : Bytes} {entry : JournalEntry}
    (h : entry ∈ rules.opening data request) :
    entry = .received request.findText.utf8ByteSize request.replaceText.utf8ByteSize
        request.nullTerminate request.allowOverflow ∨
      ∃ pattern replacement found, entry = .scanned pattern replacement found := by
  rw [opening, List.mem_cons] at h
  rcases h with rfl | hscan
  · exact Or.inl rfl
  · rw [scanJournal] at hscan
    split at hscan
    · exact absurd hscan List.not_mem_nil
    · exact Or.inr ⟨_, _, _, List.mem_singleton.mp hscan⟩

theorem not_isEffect_of_mem_opening (rules : Rules) (data : Bytes) (request : Request) :
    ∀ entry ∈ rules.opening data request, ¬ entry.IsEffect := by
  intro entry hentry
  rcases eq_of_mem_opening hentry with rfl | ⟨_, _, _, rfl⟩
  all_goals exact not_false

/-- Whatever the end, the beginning of the journal tells of no effect. -/
theorem not_isEffect_of_mem {data : Bytes} {more : Journal}
    (h : ∀ entry ∈ more, ¬ entry.IsEffect) :
    ∀ entry ∈ rules.opening data request ++ more, ¬ entry.IsEffect := by
  intro entry hentry
  rcases List.mem_append.mp hentry with hopening | hmore
  · exact not_isEffect_of_mem_opening rules data request entry hopening
  · exact h entry hmore

theorem Ends.leavesAlone (h : rules.Ends site observers request x)
    (hidle : ¬ ∃ o, x.result = .ok o ∧ o.changed = true) : x.LeavesAlone site observers := by
  cases h with
  | rejected hplan =>
    exact ⟨rfl, rfl, not_isEffect_of_mem (by simp [JournalEntry.IsEffect])⟩
  | unmatched hplan hnone =>
    exact ⟨rfl, rfl, not_isEffect_of_mem (by simp [JournalEntry.IsEffect])⟩
  | uncommitted hplan hsome hwritable =>
    exact ⟨rfl, rfl, not_isEffect_of_mem (by simp [JournalEntry.IsEffect])⟩
  | changed => exact absurd ⟨_, rfl, rfl⟩ hidle

/-- Where nothing is found, a commit is not even tried. -/
theorem Ends.commitFailed_not_mem (h : rules.Ends site observers request x) {o : Outcome}
    (ho : x.result = .ok o) (hidle : o.changed = false) (e : CommitError) :
    .commitFailed e ∉ x.journal := by
  cases h with
  | rejected => cases ho
  | uncommitted => cases ho
  | unmatched hplan hnone =>
    intro hmem
    rcases List.mem_append.mp hmem with hopening | hmore
    · rcases eq_of_mem_opening hopening with heq | ⟨_, _, _, heq⟩
      all_goals cases heq
    · simp at hmore
  | changed =>
    cases ho
    cases hidle

/-! ### What is done -/

/-- An outcome counts the matches in the contents before and measures the contents before and
after, which are what applying the plan makes of them. -/
theorem Ends.outcome (h : rules.Ends site observers request x) {o : Outcome}
    (ho : x.result = .ok o) :
    ∃ plan, rules.plan site.resource.data request = .ok plan ∧
      plan.apply site.resource.data = .ok x.site.resource.data ∧
      o.occurrences = count site.resource.data plan.pattern ∧
      o.oldLength = site.resource.data.length ∧ o.newLength = x.site.resource.data.length ∧
      (o.changed = true ↔ 1 ≤ o.occurrences) := by
  cases h with
  | rejected => cases ho
  | uncommitted => cases ho
  | @unmatched plan hplan hnone =>
    cases ho
    obtain ⟨h, hallowed⟩ := plan_eq_ok_iff.mp hplan
    have happly := h.apply hallowed
    rw [replaceAll_of_not_matchesAt _ (h.unmatched_iff.mp hnone)] at happly
    have hcount : count site.resource.data plan.pattern = 0 := by
      rw [count, ← h.occurrences_eq, hnone, List.length_nil]
    exact ⟨plan, hplan, happly, hcount.symm, rfl, rfl, by simp [Resource.unchanged]⟩
  | @changed plan output tree backups hplan hsome hwritable happly hcommit =>
    cases ho
    obtain ⟨h, -⟩ := plan_eq_ok_iff.mp hplan
    have hcount : plan.occurrences.length = count site.resource.data plan.pattern :=
      congrArg List.length h.occurrences_eq
    have hpos : 1 ≤ plan.occurrences.length := List.length_pos_iff.mpr hsome
    refine ⟨plan, hplan, ?_, hcount, h.sourceLength_eq, ?_, iff_of_true rfl hpos⟩
    · rw [happly, Resource.data_withData]
    · change output.length = (site.resource.withData output).data.length
      rw [Resource.data_withData]

/-- A writable site takes what the plan makes of its contents, also where that is nothing new. -/
theorem Ends.replaced (h : rules.Ends site observers request x) {plan : Plan}
    (hplan : rules.plan site.resource.data request = .ok plan) (hwritable : site.IsWritable) :
    (∃ o, x.result = .ok o) ∧
      x.site.resource = site.resource.withData
        (replaceAll plan.pattern plan.replacement site.resource.data) := by
  obtain ⟨hplans, hallowed⟩ := plan_eq_ok_iff.mp hplan
  cases h with
  | rejected hplan' => cases hplan.symm.trans hplan'
  | unmatched hplan' hnone =>
    cases hplan.symm.trans hplan'
    refine ⟨⟨_, rfl⟩, ?_⟩
    rw [replaceAll_of_not_matchesAt _ (hplans.unmatched_iff.mp hnone), Resource.withData_data]
  | uncommitted _ _ hnot => exact absurd hwritable hnot
  | changed hplan' _ _ happly =>
    cases hplan.symm.trans hplan'
    have houtput := Except.ok.inj ((hplans.apply hallowed).symm.trans happly)
    refine ⟨⟨_, rfl⟩, ?_⟩
    rw [houtput]

/-- **Carrying out a request is replacing in one pass**, for every resource that takes new contents
and every request that neither of the two policies forbids. -/
theorem execute_eq_replaceAll {p : Pattern} {replacement : Bytes} (observers : List Observer)
    (hreads : rules.Reads request p replacement)
    (hfound : rules.zeroMatch = .silent ∨ ∃ i, p.MatchesAt site.resource.data i)
    (hfits : request.allowOverflow = true ∨ replacement.length ≤ p.length ∨
      ∀ i, ¬ p.MatchesAt site.resource.data i)
    (hwritable : site.IsWritable) :
    let x := rules.execute site observers request
    (∃ o, x.result = .ok o) ∧
      x.site.resource =
        site.resource.withData (replaceAll p replacement site.resource.data) := by
  intro x
  obtain ⟨plan, hplans, rfl, rfl⟩ := hreads.exists_plans hfound
  have hallowed : plan.verdict = .allowed := by
    refine hplans.allowed_iff.mpr (hfits.imp_right (Or.imp_right fun hmiss => ?_))
    exact hplans.occurrences_eq.trans (findAll_eq_nil_iff.mpr hmiss)
  have hplan := plan_eq_ok_iff.mpr ⟨hplans, hallowed⟩
  exact (rules.execute_ends site observers request).replaced hplan hwritable

/-- A match overlaps the one before it, the replacement is longer than the pattern, and a byte is
left over at the end. -/
theorem execute_eq_replaceAll_overlapping :
    let rules : Rules := { encoding := .hex }
    let request : Request := ⟨"0101", "02 03", true, true⟩
    let site : Site := { resource := .memory "image" [1, 1, 1, 1, 1] false }
    ∃ x, x = rules.execute site [] request ∧ (∃ o, x.result = .ok o) ∧
      x.site.resource = .memory "image" [2, 3, 0, 2, 3, 0, 1] false := by
  intro rules request site
  have hfind : Encoding.hex.encode "0101" = .ok [1, 1] := rfl
  have hreplace : Encoding.hex.encode "02 03" = .ok [2, 3] := rfl
  have hreads : rules.Reads request ⟨[1, 1], by decide⟩ [2, 3, 0] :=
    ⟨hfind, [2, 3], hreplace, rfl⟩
  have hwritable : site.IsWritable := rfl
  have hbytes : replaceAll ⟨[1, 1], by decide⟩ [2, 3, 0] [1, 1, 1, 1, 1] =
      [2, 3, 0, 2, 3, 0, 1] := by
    cbv
  obtain ⟨hok, hdata⟩ := execute_eq_replaceAll [] hreads (Or.inl rfl) (Or.inl rfl) hwritable
  exact ⟨_, rfl, hok, hdata.trans (by rw [← hbytes]; rfl)⟩

/-- **A request is carried out altogether or not at all**, whatever the resource is and whoever
watches it.

A request that fails leaves everything as it was, and never because a plan was refused. One that
finds nothing, where that is allowed, succeeds without a commit. Any other outcome tells what was
replaced. A protected resource fails where a writable one would change, and only there. -/
theorem execute_all_or_nothing (rules : Rules) (site : Site) (observers : List Observer)
    (request : Request) :
    let x := rules.execute site observers request
    let data := site.resource.data
    (∀ e, x.result = .error e → x.LeavesAlone site observers ∧ e.kind ≠ .illegalPlan) ∧
    ((∃ o, x.result = .ok o ∧ o.changed = false) ↔
      rules.zeroMatch = .silent ∧
        ∃ p replacement, rules.Reads request p replacement ∧ ∀ i, ¬ p.MatchesAt data i) ∧
    (∀ o, x.result = .ok o → o.changed = false →
      x.LeavesAlone site observers ∧ ∀ e, .commitFailed e ∉ x.journal) ∧
    (∀ o, x.result = .ok o →
      ∃ plan, rules.plan data request = .ok plan ∧ plan.apply data = .ok x.site.resource.data ∧
        o.occurrences = count data plan.pattern ∧ o.oldLength = data.length ∧
        o.newLength = x.site.resource.data.length ∧ (o.changed = true ↔ 1 ≤ o.occurrences)) ∧
    (∀ name w others, site.resource = .memory name data true →
      w.IsWritable → w.resource.data = data → w.resource.id = name →
      let y := rules.execute w others request
      ((∃ e, x.result = .error e ∧ e.kind = .commitFailed) ↔
        ∃ o, y.result = .ok o ∧ o.changed = true) ∧
      ((¬ ∃ o, y.result = .ok o ∧ o.changed = true) → x.result = y.result)) := by
  intro x data
  have hends : rules.Ends site observers request x := rules.execute_ends site observers request
  refine ⟨fun e he => ⟨hends.leavesAlone (by simp [he]), hends.kind_ne_illegalPlan he⟩,
    hends.unchanged_iff.trans exists_plan_unmatched_iff,
    fun o ho hidle => ?_, fun o ho => hends.outcome ho, ?_⟩
  · exact ⟨hends.leavesAlone (by simp [ho, hidle]), hends.commitFailed_not_mem ho hidle⟩
  · intro name w others hro hw hdata hid y
    have hprotected : ¬ site.IsWritable := by
      rw [Site.IsWritable, hro]
      exact Bool.noConfusion
    have hname : w.resource.id = site.resource.id := by rw [hid, hro, Resource.id]
    exact hends.of_not_isWritable (rules.execute_ends w others request) hprotected hw hdata hname

end Rules

end ByteSplice
