import ByteSplice.Proofs.Observation
import ByteSplice.Proofs.Session.Steps

/-!
# The course of a request

Some entries of a journal name the state that a request has come to. Read one after the other, these
states are the course that the request has taken. There are four courses, one for each way in which
carrying out a request can end (`Ends.cases_course`), and no two of them are the same. So whoever
reads the states knows how the request ended, and whether the resource has new contents.

## Commits

That a commit has given the resource its contents cannot be seen from the contents, for they may be
what they were: a replacement may be just what it replaces. `Rules.Commits` says it without looking
at the result: there is a plan with something to replace, its output is handed to the resource, and
the resource takes it. A request that comes to such a commit is applied, and no other
(`applied_mem_course_iff`).

## Runs

Steps that carry out no request note no states at all (`course_step`). So as long as nothing but
requests writes to the resource, its contents are those that the last applied request has left, and
the first ones if there is none (`data_after_eq_getLast?`).

## Main definitions

* `Journal.course`
* `Rules.Commits`
* `Session.applied?`: what a step leaves behind if its journal says that it applied a request.

## Main results

* `Rules.Ends.cases_course`, `Rules.Ends.applied_mem_course_iff`
* `Session.course_step`, `Session.data_after_eq_getLast?`
* `Session.course_tells_the_end`
-/

namespace ByteSplice

variable {rules : Rules} {site : Site} {observers : List Observer} {request : Request}
  {x : Execution} {output : Bytes}

/-! ### States in a journal -/

/-- The states that a journal names, in order. -/
def Journal.course (journal : Journal) : List RequestState :=
  journal.filterMap JournalEntry.state?

@[simp] theorem Journal.course_nil : Journal.course [] = [] :=
  rfl

@[simp] theorem Journal.course_cons (entry : JournalEntry) (journal : Journal) :
    Journal.course (entry :: journal) = entry.state?.toList ++ Journal.course journal := by
  rw [course, List.filterMap_cons]
  cases entry.state? <;> rfl

@[simp] theorem Journal.course_append (journal more : Journal) :
    Journal.course (journal ++ more) = Journal.course journal ++ Journal.course more :=
  List.filterMap_append

/-- The state of an entry is the text of one of its fields. -/
theorem JournalEntry.lookup_state (entry : JournalEntry) :
    entry.fields.lookup "state" = entry.state?.map RequestState.name := by
  cases entry <;> rfl

/-- The beginning of a journal tells of nothing but that the request has come in. -/
theorem Rules.course_opening (rules : Rules) (data : Bytes) (request : Request) :
    (rules.opening data request).course = [.received] := by
  rw [opening, scanJournal]
  split <;> rfl

/-- A commit may note a backup, and that is no state of a request. -/
theorem Site.course_commit (site : Site) (contents : Bytes) :
    (site.commit contents).journal.course = [] := by
  by_cases hwritable : site.IsWritable
  · obtain ⟨tree, journal, hcommit, hbackup⟩ := commit_of_isWritable hwritable contents
    rw [hcommit]
    refine List.filterMap_eq_nil_iff.mpr fun entry hentry => ?_
    obtain ⟨path, rfl⟩ := hbackup entry hentry
    rfl
  · obtain ⟨e, left, hcommit, -⟩ := commit_of_not_isWritable hwritable contents
    rw [hcommit]
    rfl

/-- Behind the commit the states are the same, however many observers fail. -/
theorem Change.course_closing (c : Change) (observers : List Observer) :
    (c.closing observers).course = [.applied, .completed] := by
  have hfailures : Journal.course ((notifyAll c observers).2.map .observerFailed) = [] := by
    refine List.filterMap_eq_nil_iff.mpr fun entry hentry => ?_
    obtain ⟨failure, -, rfl⟩ := List.mem_map.mp hentry
    rfl
  simp [closing, hfailures, JournalEntry.state?]

namespace Rules

/-- Carrying out the request comes to a commit of these contents, and the resource takes them. -/
def Commits (rules : Rules) (site : Site) (request : Request) (output : Bytes) : Prop :=
  (∃ plan, rules.plan site.resource.data request = .ok plan ∧ plan.occurrences ≠ [] ∧
    plan.apply site.resource.data = .ok output) ∧ (site.commit output).failure = none

/-! ### Four courses -/

/-- **There are four courses.** Each of them goes with one kind of result, and one of them with a
commit. -/
theorem Ends.cases_course (h : rules.Ends site observers request x) :
    (x.journal.course = [.received, .denied] ∧
      (∃ e, x.result = .error e ∧ e.IsValidation) ∧ x.site = site ∧
        ∀ output, ¬ rules.Commits site request output) ∨
    (x.journal.course = [.received, .planned, .completed] ∧
      (∃ o, x.result = .ok o ∧ o.changed = false) ∧ x.site = site ∧
        ∀ output, ¬ rules.Commits site request output) ∨
    (x.journal.course = [.received, .planned, .applied, .completed] ∧
      (∃ o, x.result = .ok o ∧ o.changed = true) ∧
        ∃ output, rules.Commits site request output ∧ x.site = (site.commit output).site) ∨
    (x.journal.course = [.received, .planned] ∧
      (∃ e, x.result = .error e ∧ e.kind = .commitFailed) ∧ x.site = site ∧
        ∀ output, ¬ rules.Commits site request output) := by
  cases h with
  | @rejected e hplan =>
    refine Or.inl ⟨?_, ⟨e, rfl, isValidation_of_plan hplan⟩, rfl, ?_⟩
    · simp [course_opening, JournalEntry.state?]
    · rintro output ⟨⟨plan, hok, -⟩, -⟩
      cases hplan.symm.trans hok
  | unmatched hplan hnone =>
    refine Or.inr (Or.inl ⟨?_, ⟨_, rfl, rfl⟩, rfl, ?_⟩)
    · simp [course_opening, JournalEntry.state?]
    · rintro output ⟨⟨plan, hok, hsome, -⟩, -⟩
      cases hplan.symm.trans hok
      exact hsome hnone
  | @changed plan output tree backups hplan hsome hwritable happly hcommit =>
    have hbackups := site.course_commit output
    rw [hcommit] at hbackups
    refine Or.inr (Or.inr (Or.inl ⟨?_, ⟨_, rfl, rfl⟩, output, ⟨⟨plan, hplan, hsome, happly⟩, ?_⟩,
      ?_⟩))
    · simp [course_opening, JournalEntry.state?, hbackups, Change.course_closing]
    · rw [hcommit]
    · rw [hcommit]
  | uncommitted hplan hsome hwritable =>
    refine Or.inr (Or.inr (Or.inr ⟨?_, ⟨_, rfl, rfl⟩, rfl, ?_⟩))
    · simp [course_opening, JournalEntry.state?]
    · rintro output ⟨-, htaken⟩
      exact hwritable ((site.commit_failure_eq_none_iff output).mp htaken)

/-- **Each course goes with one kind of result**, and the other way round. -/
theorem Ends.course_eq_iff (h : rules.Ends site observers request x) :
    (x.journal.course = [.received, .denied] ↔ ∃ e, x.result = .error e ∧ e.IsValidation) ∧
    (x.journal.course = [.received, .planned, .completed] ↔
      ∃ o, x.result = .ok o ∧ o.changed = false) ∧
    (x.journal.course = [.received, .planned, .applied, .completed] ↔
      ∃ o, x.result = .ok o ∧ o.changed = true) ∧
    (x.journal.course = [.received, .planned] ↔
      ∃ e, x.result = .error e ∧ e.kind = .commitFailed) := by
  rcases h.cases_course with ⟨hcourse, ⟨e, he, hkind⟩, -⟩ | ⟨hcourse, ⟨o, ho, hchanged⟩, -⟩ |
    ⟨hcourse, ⟨o, ho, hchanged⟩, -⟩ | ⟨hcourse, ⟨e, he, hkind⟩, -⟩
  · simp [hcourse, he, hkind, hkind.2]
  · simp [hcourse, ho, hchanged]
  · simp [hcourse, ho, hchanged]
  · simp [hcourse, he, hkind, PatchError.IsValidation]

/-- A request that is applied is one that comes to a commit. -/
theorem Ends.applied_mem_course_iff (h : rules.Ends site observers request x) :
    .applied ∈ x.journal.course ↔ ∃ output, rules.Commits site request output := by
  rcases h.cases_course with ⟨hcourse, -, -, hnot⟩ | ⟨hcourse, -, -, hnot⟩ |
    ⟨hcourse, -, output, hcommits, -⟩ | ⟨hcourse, -, -, hnot⟩
  · simp [hcourse, hnot]
  · simp [hcourse, hnot]
  · exact iff_of_true (by simp [hcourse]) ⟨output, hcommits⟩
  · simp [hcourse, hnot]

/-- The contents that a request commits are determined. -/
theorem Commits.unique {other : Bytes} (h : rules.Commits site request output)
    (h' : rules.Commits site request other) : output = other := by
  obtain ⟨⟨plan, hplan, -, happly⟩, -⟩ := h
  obtain ⟨⟨plan', hplan', -, happly'⟩, -⟩ := h'
  cases hplan.symm.trans hplan'
  exact Except.ok.inj (happly.symm.trans happly')

/-- What a request leaves behind that comes to a commit. -/
theorem Ends.site_of_commits (h : rules.Ends site observers request x)
    (hcommits : rules.Commits site request output) :
    x.site = (site.commit output).site ∧ x.site.resource = site.resource.withData output := by
  rcases h.cases_course with ⟨-, -, -, hnot⟩ | ⟨-, -, -, hnot⟩ | ⟨-, -, other, hother, hsite⟩ |
    ⟨-, -, -, hnot⟩
  · exact absurd hcommits (hnot output)
  · exact absurd hcommits (hnot output)
  · obtain rfl := hcommits.unique hother
    have hwritable := (site.commit_failure_eq_none_iff output).mp hcommits.2
    obtain ⟨tree, journal, hcommit, -⟩ := Site.commit_of_isWritable hwritable output
    exact ⟨hsite, by rw [hsite, hcommit]⟩
  · exact absurd hcommits (hnot output)

/-- A request that is not applied leaves the resource and the files as they were. -/
theorem Ends.site_eq_of_not_applied (h : rules.Ends site observers request x)
    (hnot : .applied ∉ x.journal.course) : x.site = site := by
  rcases h.cases_course with ⟨-, -, hsite, -⟩ | ⟨-, -, hsite, -⟩ | ⟨hcourse, -⟩ | ⟨-, -, hsite, -⟩
  · exact hsite
  · exact hsite
  · exact absurd (by simp [hcourse]) hnot
  · exact hsite

end Rules

/-! ### Runs -/

namespace Session

variable {s : Session} {steps : List Step} {y : Step}

theorem journal_execute (s : Session) (request : Request) :
    (s.step (.execute request)).journal =
      (s.rules.execute s.site s.observers request).journal := by
  simp only [step, execute]
  split <;> rfl

theorem course_planned (s : Session) (request : Request) (keep : Bool) (answer : Plan → Answer) :
    (s.planned request keep answer).journal.course = [] := by
  have hscan : (s.rules.scanJournal s.site.resource.data request).course = [] := by
    rw [Rules.scanJournal]
    split <;> rfl
  simp only [planned]
  split <;> exact hscan

theorem course_commitAs (s : Session) (contents : Bytes) (answer : Answer) :
    (s.commitAs contents answer).journal.course = [] := by
  simp only [commitAs]
  split <;> exact s.site.course_commit contents

theorem course_applyHeld (s : Session) (number : Nat) (commit : Bool) :
    (s.applyHeld number commit).journal.course = [] := by
  rw [applyHeld]
  split
  · rfl
  · split
    · rfl
    · cases commit with
      | false => rfl
      | true => exact s.course_commitAs _ _

theorem course_openAs (s : Session) (path : Path) (keepBackup : Bool)
    (fault : StorageCause → StepError) : (s.openAs path keepBackup fault).journal.course = [] := by
  rw [openAs, Resource.openFile]
  cases s.site.tree.read path <;> rfl

/-- **A step that carries out no request names no state.** -/
theorem course_step (s : Session) (y : Step) :
    (∃ request, y = .execute request) ∨ (s.step y).journal.course = [] := by
  cases y with
  | execute request => exact Or.inl ⟨request, rfl⟩
  | preview request | hold request => exact Or.inr (s.course_planned request _ _)
  | applyHeld number commit => exact Or.inr (s.course_applyHeld number commit)
  | commit contents => exact Or.inr (s.course_commitAs contents _)
  | openFile path keepBackup => exact Or.inr (s.course_openAs path keepBackup _)
  | protect =>
    refine Or.inr ?_
    simp only [step, protect]
    split <;> rfl
  | reopen keepBackup =>
    refine Or.inr ?_
    simp only [step, reopen]
    split
    · rfl
    · exact s.course_openAs _ keepBackup _
  | writeFile | removeFile | makeDirectory | removeDirectory =>
    refine Or.inr ?_
    simp only [step, interfere]
    split <;> rfl
  | observe | observations | adopt | configure | hand => exact Or.inr rfl

/-- The contents that a step leaves behind, if its journal says that a request has been applied. -/
def applied? (s : Session) (y : Step) : Option Bytes :=
  if .applied ∈ (s.step y).journal.course then some (s.step y).session.data else none

/-- What is noted as applied is what a request has committed. -/
theorem exists_commits_of_applied? (h : s.applied? y = some output) :
    ∃ request, y = .execute request ∧ s.rules.Commits s.site request output := by
  rw [applied?, Option.ite_none_right_eq_some] at h
  obtain ⟨happlied, hdata⟩ := h
  rcases s.course_step y with ⟨request, rfl⟩ | hnone
  · have hends := s.rules.execute_ends s.site s.observers request
    rw [journal_execute] at happlied
    obtain ⟨committed, hcommits⟩ := hends.applied_mem_course_iff.mp happlied
    rw [Option.some.injEq, data_execute, (hends.site_of_commits hcommits).2,
      Resource.data_withData] at hdata
    exact ⟨request, rfl, hdata ▸ hcommits⟩
  · rw [hnone] at happlied
    exact absurd happlied List.not_mem_nil

/-- A step that has applied nothing leaves the contents alone, unless it overwrites them. -/
theorem data_step_of_applied?_eq_none (hy : y.overwrites = false) (h : s.applied? y = none) :
    (s.step y).session.data = s.data := by
  rcases data_step hy with ⟨request, rfl⟩ | hdata
  · rw [applied?, ite_eq_right_iff] at h
    have hnot : .applied ∉ (s.step (.execute request)).journal.course :=
      fun happlied => Option.some_ne_none _ (h happlied)
    rw [journal_execute] at hnot
    have hsite := (s.rules.execute_ends s.site s.observers request).site_eq_of_not_applied hnot
    rw [data_execute, hsite, data]
  · exact hdata

/-- **The contents after a run are those that were applied last**, if nothing but requests writes to
the resource. -/
theorem data_after_eq_getLast? (hsteps : ∀ y ∈ steps, y.overwrites = false) :
    (s.after steps).data = (s.along applied? steps).getLast?.getD s.data := by
  induction steps generalizing s with
  | nil => rfl
  | cons y rest ih =>
    obtain ⟨hy, hrest⟩ := List.forall_mem_cons.mp hsteps
    rw [after_cons, ih hrest, along]
    cases happlied : s.applied? y with
    | none =>
      rw [data_step_of_applied?_eq_none hy happlied]
      rfl
    | some contents =>
      have hdata : (s.step y).session.data = contents :=
        Option.some.inj ((Option.ite_none_right_eq_some.mp happlied).2)
      rw [Option.toList_some, List.singleton_append, List.getLast?_cons, hdata]
      rfl

/-- **The states in the journal tell how a request ended.**

The states of one request are one of four sequences, and each of them goes with one kind of result:
the request is turned down for its own sake, it finds nothing, it changes the resource, or its
commit fails. Who watches does not matter. The states are what the entries show as text.

In a session, a request is applied just if it comes to a commit that the resource takes, and then
the commit is all that it does to the resource and to the files; otherwise these are left alone. No
request is both denied and planned. What steps that carry out no request note is no state. Whatever
is noted as applied in a run was committed by a request of the run, and as long as nothing else
writes to the resource, its contents are those that were applied last. -/
theorem course_tells_the_end :
    (∀ (rules : Rules) (site : Site) (observers : List Observer) (request : Request),
      let x := rules.execute site observers request
      let course := x.journal.course
      course ∈ [[.received, .denied], [.received, .planned, .completed],
          [.received, .planned, .applied, .completed], [.received, .planned]] ∧
        (course = [.received, .denied] ↔ ∃ e, x.result = .error e ∧ e.IsValidation) ∧
        (course = [.received, .planned, .completed] ↔
          ∃ o, x.result = .ok o ∧ o.changed = false) ∧
        (course = [.received, .planned, .applied, .completed] ↔
          ∃ o, x.result = .ok o ∧ o.changed = true) ∧
        (course = [.received, .planned] ↔
          ∃ e, x.result = .error e ∧ e.kind = .commitFailed) ∧
        x.journal.filterMap (fun entry => entry.fields.lookup "state") =
          course.map RequestState.name) ∧
    (∀ (s : Session) (before : List Step) (request : Request),
      let earlier := s.after before
      let reply := earlier.step (.execute request)
      let course := reply.journal.course
      (.applied ∈ course ↔ ∃ output, earlier.rules.Commits earlier.site request output) ∧
        (∀ output, earlier.rules.Commits earlier.site request output →
          reply.session.site = (earlier.site.commit output).site ∧
            reply.session.site.resource = earlier.site.resource.withData output) ∧
        (.applied ∉ course → reply.session.site = earlier.site) ∧
        ¬ (.denied ∈ course ∧ .planned ∈ course)) ∧
    (∀ (s : Session) (y : Step), (∀ request, y ≠ .execute request) →
      (s.step y).journal.course = []) ∧
    (∀ (s : Session) (steps : List Step) (output : Bytes), output ∈ s.along applied? steps →
      ∃ before request later, steps = before ++ .execute request :: later ∧
        (s.after before).rules.Commits (s.after before).site request output) ∧
    (∀ (s : Session) (steps : List Step), (∀ y ∈ steps, y.overwrites = false) →
      (s.after steps).data = (s.along applied? steps).getLast?.getD s.data) := by
  refine ⟨fun rules site observers request => ?course, fun s before request => ?commits,
    fun s y hy => ?other, fun s steps output houtput => ?run,
    fun s steps => data_after_eq_getLast?⟩
  case course =>
    intro x course
    have hends : rules.Ends site observers request x := rules.execute_ends site observers request
    obtain ⟨hdenied, hunmatched, happlied, hfailed⟩ := hends.course_eq_iff
    refine ⟨?_, hdenied, hunmatched, happlied, hfailed, ?_⟩
    · rcases hends.cases_course with ⟨hcourse, -⟩ | ⟨hcourse, -⟩ | ⟨hcourse, -⟩ | ⟨hcourse, -⟩
      all_goals simp [course, hcourse]
    · simp only [JournalEntry.lookup_state, course, Journal.course, List.map_filterMap]
  case commits =>
    intro earlier reply course
    have hends := earlier.rules.execute_ends earlier.site earlier.observers request
    have hcourse : course =
        (earlier.rules.execute earlier.site earlier.observers request).journal.course :=
      congrArg Journal.course (earlier.journal_execute request)
    have hsite := earlier.site_execute request
    rw [hcourse, hsite]
    refine ⟨hends.applied_mem_course_iff, fun output => hends.site_of_commits,
      hends.site_eq_of_not_applied, ?_⟩
    rcases hends.cases_course with ⟨heq, -⟩ | ⟨heq, -⟩ | ⟨heq, -⟩ | ⟨heq, -⟩
    all_goals simp [heq]
  case other =>
    rcases s.course_step y with ⟨request, rfl⟩ | hnone
    · exact absurd rfl (hy request)
    · exact hnone
  case run =>
    obtain ⟨before, y, later, rfl, happlied⟩ := exists_of_mem_along houtput
    obtain ⟨request, rfl, hcommits⟩ := exists_commits_of_applied? happlied
    exact ⟨before, request, later, rfl, hcommits⟩

/-- All four courses in one run. The request that is applied puts back what it takes away, so that
the contents do not show it, and the observer fails at it. -/
theorem course_tells_the_end_fourfold :
    let s : Session :=
      { site := { resource := .memory "image" [1, 1, 2] false }, rules := { encoding := .hex }
        observers := [.failing] }
    let vain : List Step :=
      [.execute ⟨"07", "08", false, false⟩, .execute ⟨"0", "08", false, false⟩]
    let same : Request := ⟨"01", "01", false, false⟩
    let steps := vain ++ [.execute same, .protect, .execute ⟨"01", "03", false, false⟩]
    (s.run steps).map (fun reply => reply.journal.course) =
        [[.received, .planned, .completed], [.received, .denied],
          [.received, .planned, .applied, .completed], [], [.received, .planned]] ∧
      (∃ output, (s.after vain).rules.Commits (s.after vain).site same output) ∧
      (∀ y ∈ steps, y.overwrites = false) ∧
      (s.after steps).data = (s.along applied? steps).getLast?.getD [1, 1, 2] := by
  intro s vain same steps
  obtain ⟨-, hcommits, -, -, hruns⟩ := course_tells_the_end
  have hcourse : .applied ∈ ((s.after vain).step (.execute same)).journal.course := by
    decide +kernel
  have hsteps : ∀ y ∈ steps, y.overwrites = false := by decide
  exact ⟨by decide +kernel, (hcommits s vain same).1.mp hcourse, hsteps, hruns s steps hsteps⟩

end Session

end ByteSplice
