import ByteSplice.Proofs.Execution

/-!
# Requests on a writable site

A site that takes whatever is committed to it leaves nothing to chance. What becomes of a request is
a function of the contents then, and this module says which. The answer is the plan of the request
with the name of the resource added (`Rules.Ends.result_of_isWritable`), and the new contents are
those that the plan makes of the old ones, or the old ones if there is no plan
(`Rules.Ends.resource_of_isWritable`).

Where no match is not an error, the contents have a say in one respect only. Whether the request is
let through, and what it answers, depends on how many matches there are
(`Rules.Reads.occurrences_eq`).

## Main definitions

* `Plan.outcome`, `Rules.rewritten`: what becomes of a request that can be written.
* `Request.Permits`: the length policy, for a number of matches.

## Main results

* `Rules.Ends.result_of_isWritable`, `Rules.Ends.resource_of_isWritable`
* `Rules.Reads.rewritten_eq`, `Rules.Reads.occurrences_eq`
* `Rules.Ends.isWritable`
-/

namespace ByteSplice

/-- The outcome of a plan for a resource that takes what the plan makes of its contents. -/
def Plan.outcome (p : Plan) (id : String) (data : Bytes) : Outcome where
  resourceId := id
  occurrences := p.occurrences.length
  changed := !p.isNoop
  oldLength := data.length
  newLength := (replaceAll p.pattern p.replacement data).length

/-- What becomes of contents that a request may write to. -/
def Rules.rewritten (rules : Rules) (data : Bytes) (request : Request) : Bytes :=
  match rules.plan data request with
  | .error _ => data
  | .ok p => replaceAll p.pattern p.replacement data

/-- The length policy lets a request through for which there are `n` matches. -/
def Request.Permits (request : Request) (p : Pattern) (replacement : Bytes) (n : Nat) : Prop :=
  request.allowOverflow = true ∨ replacement.length ≤ p.length ∨ n = 0

instance (request : Request) (p : Pattern) (replacement : Bytes) (n : Nat) :
    Decidable (request.Permits p replacement n) :=
  inferInstanceAs (Decidable (_ ∨ _))

namespace Rules

variable {rules : Rules} {site : Site} {observers : List Observer} {request : Request}
  {x : Execution} {p : Pattern} {replacement data : Bytes}

/-- A writable site answers by the plan, and has only its name to add. -/
theorem Ends.result_of_isWritable (h : rules.Ends site observers request x)
    (hwritable : site.IsWritable) :
    x.result = (rules.plan site.resource.data request).map
      (Plan.outcome · site.resource.id site.resource.data) := by
  cases h with
  | rejected hplan => rw [hplan, Except.map]
  | @unmatched p hplan hnone =>
    have hplans := (plan_eq_ok_iff.mp hplan).1
    have hmiss := hplans.unmatched_iff.mp hnone
    have hidle : p.isNoop = true := by rw [Plan.isNoop, hnone, List.isEmpty_nil]
    rw [hplan, Except.map, Plan.outcome, replaceAll_of_not_matchesAt _ hmiss, hnone, hidle]
    rfl
  | uncommitted _ _ hnot => exact absurd hwritable hnot
  | @changed p output _ _ hplan hsome _ happly =>
    obtain ⟨hplans, hallowed⟩ := plan_eq_ok_iff.mp hplan
    have houtput := Except.ok.inj ((hplans.apply hallowed).symm.trans happly)
    have hbusy : p.isNoop = false := List.isEmpty_eq_false_iff.mpr hsome
    rw [hplan, Except.map, Plan.outcome, houtput, hbusy, ← hplans.sourceLength_eq]
    rfl

theorem Ends.resource_of_isWritable (h : rules.Ends site observers request x)
    (hwritable : site.IsWritable) :
    x.site.resource = site.resource.withData (rules.rewritten site.resource.data request) := by
  rw [rewritten]
  cases hplan : rules.plan site.resource.data request with
  | error e =>
    have hfailed := h.result_of_isWritable hwritable
    rw [hplan, Except.map] at hfailed
    rw [(h.leavesAlone (by simp [hfailed])).site_eq, Resource.withData_data]
  | ok p => exact (h.replaced hplan hwritable).2

/-- A site that is writable before a request is writable after it. -/
theorem Ends.isWritable (h : rules.Ends site observers request x) (hwritable : site.IsWritable)
    (hrenews : site.RenewsBackup) : x.site.IsWritable := by
  cases h with
  | rejected | unmatched => exact hwritable
  | uncommitted _ _ hnot => exact absurd hwritable hnot
  | @changed _ output _ _ _ _ _ _ hcommit =>
    have hagain := Site.isWritable_commit hwritable hrenews output
    rwa [hcommit] at hagain

theorem Ends.renewsBackup (h : rules.Ends site observers request x) (hwritable : site.IsWritable)
    (hrenews : site.RenewsBackup) : x.site.RenewsBackup := by
  cases h with
  | rejected | unmatched => exact hrenews
  | uncommitted _ _ hnot => exact absurd hwritable hnot
  | @changed _ output _ _ _ _ _ _ hcommit =>
    have hagain := Site.renewsBackup_commit hwritable hrenews output
    rwa [hcommit] at hagain

/-! ### What the number of matches decides -/

section Reads

variable (hreads : rules.Reads request p replacement) (hsilent : rules.zeroMatch = .silent)

include hreads hsilent

/-- Where no match is not an error, a request that can be read has a plan, unless the length policy
is against it. -/
theorem Reads.plan_cases (data : Bytes) :
    (request.Permits p replacement (count data p) ∧
      ∃ plan, rules.plan data request = .ok plan ∧ plan.pattern = p ∧
        plan.replacement = replacement ∧ plan.occurrences.length = count data p) ∨
    (¬ request.Permits p replacement (count data p) ∧
      rules.plan data request = .error (.overflow p.length replacement.length)) := by
  have hfound : rules.zeroMatch = .silent ∨ ∃ i, p.MatchesAt data i := Or.inl hsilent
  obtain ⟨plan, hplans, rfl, rfl⟩ := hreads.exists_plans hfound
  have hcount : plan.occurrences.length = count data plan.pattern := by
    rw [hplans.occurrences_eq, count]
  have hpermits : plan.verdict = .allowed ↔
      request.Permits plan.pattern plan.replacement (count data plan.pattern) := by
    rw [hplans.allowed_iff, Request.Permits, ← hcount, List.length_eq_zero_iff]
  cases hverdict : plan.verdict with
  | allowed =>
    have hplan := plan_eq_ok_iff.mpr ⟨hplans, hverdict⟩
    exact Or.inl ⟨hpermits.mp hverdict, plan, hplan, rfl, rfl, hcount⟩
  | denied e =>
    refine Or.inr ⟨fun hallowed => ?_, ?_⟩
    · cases hverdict.symm.trans (hpermits.mpr hallowed)
    · rw [← Survey.eq_overflow_of_verdict (hplans.verdict_eq.symm.trans hverdict)]
      exact plan_eq_error_iff.mpr (Or.inr ⟨plan, evaluate_eq_ok_iff.mpr hplans, hverdict⟩)

theorem Reads.rewritten_eq (data : Bytes) :
    rules.rewritten data request =
      if request.Permits p replacement (count data p) then replaceAll p replacement data
      else data := by
  rcases hreads.plan_cases hsilent data with
    ⟨hpermits, plan, hplan, rfl, rfl, -⟩ | ⟨hforbids, hplan⟩
  · rw [rewritten, hplan, if_pos hpermits]
  · rw [rewritten, hplan, if_neg hforbids]

/-- **How many matches there are decides what is answered.** -/
theorem Reads.occurrences_eq (h : rules.Ends site observers request x)
    (hwritable : site.IsWritable) :
    x.result.map Outcome.occurrences =
      if request.Permits p replacement (count site.resource.data p) then
        .ok (count site.resource.data p)
      else .error (.overflow p.length replacement.length) := by
  rw [h.result_of_isWritable hwritable]
  rcases hreads.plan_cases hsilent site.resource.data with
    ⟨hpermits, plan, hplan, rfl, rfl, hcount⟩ | ⟨hforbids, hplan⟩
  · rw [hplan, if_pos hpermits, ← hcount]
    rfl
  · rw [hplan, if_neg hforbids]
    rfl

end Reads

end Rules

end ByteSplice
