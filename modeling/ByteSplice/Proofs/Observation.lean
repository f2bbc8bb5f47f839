import ByteSplice.Proofs.Execution

/-!
# What observers learn of a request

Carrying out a request either tells the observers of one change or tells them nothing. Both can be
read off what a caller sees: the outcome, and the contents before and after. `Execution.event` does
so and knows nothing of plans or of splices, and nothing of observers. That each observer is told
the event, once, and that nothing else ever reaches an observer is `Ends.observers_eq`.

## Isolation

An observer may fail, and that is noted in the journal (`Ends.failures_eq`). It goes no further:
observers are not asked before the new contents are committed, and none of them is asked about
another. So the result and the site are the same whoever watches (`execute_congr`).

## Main definitions

* `Outcome.change`, `Outcome.event` and `Execution.event`: what there is to tell.
* `Observer.told`: an observer after it was told of some changes.
* `Observer.failure` and `Execution.failures`

## Main results

* `Rules.Ends.observers_eq`, `Rules.Ends.failures_eq`
* `Rules.execute_congr`
-/

namespace ByteSplice

variable {rules : Rules} {site : Site} {observers : List Observer} {request : Request}
  {x : Execution} {data : Bytes} {plan : Plan} {c : Change} {o : Outcome}

/-! ### What there is to tell -/

/-- The change that an outcome speaks of, given the contents before and after it. -/
def Outcome.change (o : Outcome) (before after : Bytes) : Change where
  resourceId := o.resourceId
  occurrences := o.occurrences
  oldLength := before.length
  newLength := after.length
  oldMd5 := (Digest.ofBytes before).toHex
  newMd5 := (Digest.ofBytes after).toHex

/-- What there is to tell of an outcome: its change, if anything has changed. -/
def Outcome.event (o : Outcome) (before after : Bytes) : Option Change :=
  if o.changed then some (o.change before after) else none

/-- What there is to tell of an execution, given the contents before it. -/
def Execution.event (x : Execution) (before : Bytes) : Option Change :=
  match x.result with
  | .error _ => none
  | .ok o => o.event before x.site.resource.data

theorem Execution.event_of_changed (ho : x.result = .ok o) (hchanged : o.changed = true) :
    x.event data = some (o.change data x.site.resource.data) := by
  rw [event, ho]
  exact if_pos hchanged

theorem Execution.event_of_not_changed (h : ¬ ∃ o, x.result = .ok o ∧ o.changed = true) :
    x.event data = none := by
  rw [event]
  split
  · rfl
  · next o ho => exact if_neg fun hchanged => h ⟨o, ho, hchanged⟩

theorem Execution.event_eq_none_iff :
    x.event data = none ↔ ¬ ∃ o, x.result = .ok o ∧ o.changed = true := by
  refine ⟨?_, event_of_not_changed⟩
  rintro hnone ⟨o, ho, hchanged⟩
  cases hnone.symm.trans (event_of_changed ho hchanged)

/-- The change that a plan was said to make is the one that its outcome speaks of. -/
theorem Rules.Plans.change_eq (h : rules.Plans data request plan) (id : String) (output : Bytes) :
    (plan.change id output).outcome.change data output = plan.change id output := by
  simp only [Outcome.change, Change.outcome, Plan.change, h.sourceLength_eq, h.sourceDigest_eq]

/-! ### One observer -/

namespace Observer

/-- An observer after it was told of some changes, one after the other. -/
def told (changes : List Change) (o : Observer) : Observer :=
  changes.foldl (fun o c => (o.notify c).1) o

/-- How an observer fails at a change, if it does. -/
def failure (c : Change) (o : Observer) : Option ObserverFailure :=
  (o.notify c).2.map fun reason => ⟨o.name, reason⟩

theorem told_append (earlier later : List Change) (o : Observer) :
    o.told (earlier ++ later) = (o.told earlier).told later :=
  List.foldl_append

@[simp] theorem told_recording (changes seen : List Change) :
    (recording seen).told changes = recording (seen ++ changes) := by
  induction changes generalizing seen with
  | nil =>
    rw [List.append_nil]
    rfl
  | cons c rest ih =>
    change (recording (seen ++ [c])).told rest = _
    rw [ih, List.append_assoc]
    rfl

end Observer

/-! ### All observers -/

/-- The failure of an observer that an entry notes. -/
def JournalEntry.failure? : JournalEntry → Option ObserverFailure
  | .observerFailed failure => some failure
  | _ => none

/-- The failures of observers that an execution has noted, in order. -/
def Execution.failures (x : Execution) : List ObserverFailure :=
  x.journal.filterMap JournalEntry.failure?

theorem notifyAll_eq (c : Change) (observers : List Observer) :
    notifyAll c observers =
      (observers.map (Observer.told [c]), observers.filterMap (Observer.failure c)) :=
  rfl

theorem JournalEntry.filterMap_failure?_of_not_isEffect {journal : Journal}
    (h : ∀ entry ∈ journal, ¬ entry.IsEffect) : journal.filterMap failure? = [] := by
  refine List.filterMap_eq_nil_iff.mpr fun entry hentry => ?_
  cases entry with
  | observerFailed => exact absurd trivial (h _ hentry)
  | _ => rfl

theorem Change.filterMap_failure?_closing (c : Change) (observers : List Observer) :
    (c.closing observers).filterMap JournalEntry.failure? =
      observers.filterMap (Observer.failure c) := by
  have hnoted : JournalEntry.failure? ∘ JournalEntry.observerFailed = some := rfl
  rw [Change.closing, notifyAll_eq, List.filterMap_append, List.filterMap_cons_none rfl,
    List.filterMap_map, hnoted, List.filterMap_some]
  exact List.append_nil _

/-- A commit may note a backup, but it knows of no observers. -/
theorem Site.filterMap_failure?_commit (site : Site) (contents : Bytes) :
    (site.commit contents).journal.filterMap JournalEntry.failure? = [] := by
  by_cases hwritable : site.IsWritable
  · obtain ⟨tree, journal, hcommit, hbackup⟩ := commit_of_isWritable hwritable contents
    rw [hcommit]
    refine List.filterMap_eq_nil_iff.mpr fun entry hentry => ?_
    obtain ⟨path, rfl⟩ := hbackup entry hentry
    rfl
  · obtain ⟨e, left, hcommit, -⟩ := commit_of_not_isWritable hwritable contents
    rw [hcommit]
    rfl

namespace Rules

/-- **Every observer is told the event**, and nothing else. -/
theorem Ends.observers_eq (h : rules.Ends site observers request x) :
    x.observers = observers.map (Observer.told (x.event site.resource.data).toList) := by
  by_cases hchanged : ∃ o, x.result = .ok o ∧ o.changed = true
  · cases h with
    | @changed plan output tree backups hplan =>
      have hevent := (plan_eq_ok_iff.mp hplan).1.change_eq site.resource.id output
      rw [Execution.event_of_changed rfl rfl, Resource.data_withData, hevent]
      rfl
    | rejected | unmatched | uncommitted => simp [Resource.unchanged] at hchanged
  · rw [(h.leavesAlone hchanged).observers_eq, Execution.event_of_not_changed hchanged]
    exact (List.map_id observers).symm

/-- Every observer that fails at the event is noted, in the order of the observers. -/
theorem Ends.failures_eq (h : rules.Ends site observers request x) :
    x.failures = (x.event site.resource.data).toList.flatMap fun c =>
      observers.filterMap (Observer.failure c) := by
  by_cases hchanged : ∃ o, x.result = .ok o ∧ o.changed = true
  · cases h with
    | @changed plan output tree backups hplan hsome hwritable happly hcommit =>
      have hevent := (plan_eq_ok_iff.mp hplan).1.change_eq site.resource.id output
      have hopening := JournalEntry.filterMap_failure?_of_not_isEffect
        (not_isEffect_of_mem_opening rules site.resource.data request)
      have hbackups := site.filterMap_failure?_commit output
      rw [hcommit] at hbackups
      -- neither what is noted before the commit nor a backup speaks of an observer
      rw [Execution.event_of_changed rfl rfl, Resource.data_withData, hevent, Execution.failures,
        List.filterMap_append, hopening, List.nil_append,
        List.filterMap_cons_none (by rfl), List.filterMap_append, hbackups, List.nil_append,
        Change.filterMap_failure?_closing]
      simp
    | rejected | unmatched | uncommitted => simp [Resource.unchanged] at hchanged
  · rw [Execution.event_of_not_changed hchanged]
    exact JournalEntry.filterMap_failure?_of_not_isEffect (h.leavesAlone hchanged).no_effect

/-! ### Isolation -/

theorem carryOut_congr (site : Site) (observers others : List Observer) (plan : Plan) :
    (carryOut site observers plan).result = (carryOut site others plan).result ∧
      (carryOut site observers plan).site = (carryOut site others plan).site := by
  simp only [carryOut]
  cases plan.apply site.resource.data with
  | error refusal => exact ⟨rfl, rfl⟩
  | ok output =>
    simp only
    cases (site.commit output).failure with
    | some e => exact ⟨rfl, rfl⟩
    | none => exact ⟨rfl, rfl⟩

/-- **Whoever watches a request, it goes the same way.** -/
theorem execute_congr (rules : Rules) (site : Site) (observers others : List Observer)
    (request : Request) :
    (rules.execute site observers request).result = (rules.execute site others request).result ∧
      (rules.execute site observers request).site = (rules.execute site others request).site := by
  simp only [execute]
  cases rules.plan site.resource.data request with
  | error e => exact ⟨rfl, rfl⟩
  | ok plan =>
    simp only
    split
    · exact ⟨rfl, rfl⟩
    · exact carryOut_congr site observers others plan

end Rules

end ByteSplice
