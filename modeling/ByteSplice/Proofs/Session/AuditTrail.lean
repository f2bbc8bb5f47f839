import ByteSplice.Proofs.Observation
import ByteSplice.Proofs.Session.Steps

/-!
# What observers have seen of a session

Every request of a run that has changed the resource is an event, and each observer is told of it.
`Session.event` reads the event of a step off its outcome and the contents before and after it, and
`getElem?_observers_after` says that an observer has been told the events of a run, in their order,
and nothing else. So what a recording observer holds does not depend on who else is there.

## The trail

As long as the resource is changed by requests only, the events leave no gap. Each begins with the
contents that the one before it has led to, from the first contents to the current ones. That is
what `Trail` says, with contents given by their `fingerprint`. It holds because a step without an
event leaves the contents alone, whether it plans, finds nothing, is turned down or fails at the
commit (`data_step_of_event_eq_none`).

## Main definitions

* `fingerprint`, `Change.source`, `Change.target` and `Trail`
* `Session.event`

## Main results

* `Session.getElem?_observers_after`
* `Session.trail_after`, `Session.map_outcome_events`
* `Session.observers_are_isolated`
* `Session.recorded_events_leave_no_gap`
-/

namespace ByteSplice

/-! ### Trails -/

/-- What a change tells of contents: their length and their digest. -/
def fingerprint (data : Bytes) : Nat × String :=
  (data.length, (Digest.ofBytes data).toHex)

/-- The fingerprint of the contents that a change was made to. -/
def Change.source (c : Change) : Nat × String :=
  (c.oldLength, c.oldMd5)

/-- The fingerprint of the contents that a change has led to. -/
def Change.target (c : Change) : Nat × String :=
  (c.newLength, c.newMd5)

/-- Changes that lead from one fingerprint to another without a gap. -/
structure Trail (start : Nat × String) (changes : List Change) (finish : Nat × String) :
    Prop where
  /-- The first change begins at the start. -/
  first : ∀ c, changes.head? = some c → c.source = start
  /-- Each later change begins where the one before it has ended. -/
  linked : changes.IsChain fun c d => d.source = c.target
  /-- The last change ends at the finish. -/
  last : ∀ c, changes.getLast? = some c → c.target = finish
  /-- Without a change there is no way to go. -/
  still : changes = [] → start = finish

theorem Trail.nil (start : Nat × String) : Trail start [] start :=
  ⟨by simp, .nil, by simp, fun _ => rfl⟩

theorem Trail.cons {c : Change} {rest : List Change} {finish : Nat × String}
    (h : Trail c.target rest finish) : Trail c.source (c :: rest) finish := by
  refine ⟨fun d hd => ?_, ?_, fun d hd => ?_, nofun⟩
  · rw [← Option.some.inj hd]
  · exact List.isChain_cons.mpr ⟨fun d hd => h.first d hd, h.linked⟩
  · cases rest with
    | nil =>
      rw [← Option.some.inj hd]
      exact h.still rfl
    | cons e more => exact h.last d (by rwa [List.getLast?_cons_cons] at hd)

namespace Session

variable {s : Session} {x : Step} {steps : List Step} {c : Change} {o : Outcome}

/-! ### Outcomes -/

/-- An outcome is that of a request. -/
theorem exists_execute_of_outcome? (h : (s.step x).outcome? = some o) :
    ∃ request, x = .execute request ∧
      (s.rules.execute s.site s.observers request).result = .ok o := by
  rcases s.quiet_step x with ⟨request, rfl⟩ | ⟨request, rfl⟩ | ⟨observer, rfl⟩ | hquiet
  · exact ⟨request, rfl, outcome?_execute_eq_some_iff.mp h⟩
  · cases (s.outcome?_hold request).symm.trans h
  · cases h
  · cases hquiet.outcome?_eq.symm.trans h

theorem outcome_step (h : (s.step x).outcome? = some o) :
    o.oldLength = s.data.length ∧ o.newLength = (s.step x).session.data.length ∧
      (o.changed = true ↔ 1 ≤ o.occurrences) := by
  obtain ⟨request, rfl, ho⟩ := exists_execute_of_outcome? h
  obtain ⟨plan, -, -, -, hold, hnew, hchanged⟩ :=
    (s.rules.execute_ends s.site s.observers request).outcome ho
  rw [session_execute]
  exact ⟨hold, hnew, hchanged⟩

/-! ### Events -/

/-- What there is to tell of a step. -/
def event (s : Session) (x : Step) : Option Change :=
  (s.step x).outcome?.bind fun o => o.event s.data (s.step x).session.data

theorem event_eq_some_iff :
    s.event x = some c ↔
      ∃ o, (s.step x).outcome? = some o ∧ o.changed = true ∧
        o.change s.data (s.step x).session.data = c := by
  simp only [event, Outcome.event, Option.bind_eq_some_iff, Option.ite_none_right_eq_some,
    Option.some.injEq]

theorem event_eq_none (h : (s.step x).outcome? = none) : s.event x = none := by
  rw [event, h]
  rfl

/-- The event of a step that carries out a request is that of the execution. -/
theorem event_execute (s : Session) (request : Request) :
    s.event (.execute request) =
      (s.rules.execute s.site s.observers request).event s.data := by
  rw [event, session_execute, Execution.event]
  cases hresult : (s.rules.execute s.site s.observers request).result with
  | ok o =>
    rw [outcome?_execute_eq_some_iff.mpr hresult]
    rfl
  | error e =>
    cases houtcome : (s.step (.execute request)).outcome? with
    | none => rfl
    | some o => cases hresult.symm.trans (outcome?_execute_eq_some_iff.mp houtcome)

/-- An event speaks of the contents before and after its step, and of what the caller was told. -/
theorem of_event_eq_some (h : s.event x = some c) :
    c.source = fingerprint s.data ∧ c.target = fingerprint (s.step x).session.data ∧
      (s.step x).outcome? = some c.outcome ∧ 1 ≤ c.occurrences := by
  obtain ⟨o, ho, hchanged, rfl⟩ := event_eq_some_iff.mp h
  obtain ⟨hold, hnew, hoccurrences⟩ := outcome_step ho
  have houtcome : (o.change s.data (s.step x).session.data).outcome = o := by
    simp only [Change.outcome, Outcome.change, ← hold, ← hnew, ← hchanged]
  exact ⟨rfl, rfl, ho.trans (congrArg some houtcome.symm), hoccurrences.mp hchanged⟩

/-- **Where there is nothing to tell, nothing has happened**, unless the step overwrites. -/
theorem data_step_of_event_eq_none (hx : x.overwrites = false) (h : s.event x = none) :
    (s.step x).session.data = s.data := by
  rcases data_step hx with ⟨request, rfl⟩ | hdata
  · rw [event_execute, Execution.event_eq_none_iff] at h
    have hsite := ((s.rules.execute_ends s.site s.observers request).leavesAlone h).site_eq
    rw [session_execute, data, hsite, data]
  · exact hdata

/-- The events are those of the outcomes that have changed something. -/
theorem map_outcome_event (s : Session) (x : Step) :
    (s.event x).toList.map Change.outcome = (s.step x).outcome?.toList.filter Outcome.changed := by
  cases houtcome : (s.step x).outcome? with
  | none =>
    rw [event_eq_none houtcome]
    rfl
  | some o =>
    cases hchanged : o.changed with
    | true =>
      have hevent := event_eq_some_iff.mpr ⟨o, houtcome, hchanged, rfl⟩
      have hsame := Option.some.inj
        (houtcome.symm.trans (of_event_eq_some hevent).2.2.1)
      simp [hevent, ← hsame, hchanged]
    | false => simp [event, Outcome.event, houtcome, hchanged]

/-! ### Runs -/

theorem map_outcome_events (s : Session) (steps : List Step) :
    (s.along event steps).map Change.outcome =
      ((s.run steps).filterMap Reply.outcome?).filter Outcome.changed := by
  rw [filterMap_run]
  induction steps generalizing s with
  | nil => rfl
  | cons x rest ih =>
    rw [along, along, List.map_append, List.filter_append, map_outcome_event, ih]

theorem one_le_occurrences_of_mem (h : c ∈ s.along event steps) : 1 ≤ c.occurrences := by
  obtain ⟨before, x, later, -, hevent⟩ := exists_of_mem_along h
  exact (of_event_eq_some hevent).2.2.2

/-- **The events of a run leave no gap**, if nothing but requests writes to the resource. -/
theorem trail_after (hsteps : ∀ x ∈ steps, x.overwrites = false) :
    Trail (fingerprint s.data) (s.along event steps) (fingerprint (s.after steps).data) := by
  induction steps generalizing s with
  | nil => exact .nil _
  | cons x rest ih =>
    obtain ⟨hx, hrest⟩ := List.forall_mem_cons.mp hsteps
    have hlater := ih (s := (s.step x).session) hrest
    rw [after_cons, along]
    cases hevent : s.event x with
    | none =>
      -- nothing has happened, so the rest begins where this run does
      rw [data_step_of_event_eq_none hx hevent] at hlater
      exact hlater
    | some c =>
      obtain ⟨hsource, htarget, -⟩ := of_event_eq_some hevent
      rw [← htarget] at hlater
      rw [← hsource]
      exact hlater.cons

theorem data_after_of_events_eq_nil (hsteps : ∀ x ∈ steps, x.overwrites = false)
    (h : s.along event steps = []) : (s.after steps).data = s.data := by
  induction steps generalizing s with
  | nil => rfl
  | cons x rest ih =>
    obtain ⟨hx, hrest⟩ := List.forall_mem_cons.mp hsteps
    obtain ⟨hhere, hlater⟩ := List.append_eq_nil_iff.mp h
    have hevent : s.event x = none := Option.toList_eq_nil_iff.mp hhere
    rw [after_cons, ih hrest hlater, data_step_of_event_eq_none hx hevent]

/-! ### Observers -/

theorem getElem?_observers_step {i : Nat} {w : Observer} (h : s.observers[i]? = some w) (x : Step) :
    (s.step x).session.observers[i]? = some (w.told (s.event x).toList) := by
  rcases s.quiet_step x with ⟨request, rfl⟩ | ⟨request, rfl⟩ | ⟨observer, rfl⟩ | hquiet
  · have htold := (s.rules.execute_ends s.site s.observers request).observers_eq
    rw [event_execute, session_execute, htold, List.getElem?_map, h]
    rfl
  · rw [event_eq_none (s.outcome?_hold request), observers_hold, h]
    rfl
  · -- whoever is new comes last, and nobody moves
    obtain ⟨hi, -⟩ := List.getElem?_eq_some_iff.mp h
    exact (List.getElem?_append_left hi).trans h
  · rw [event_eq_none hquiet.outcome?_eq, hquiet.observers_eq, h]
    rfl

/-- **An observer has been told the events of a run**, in their order, and nothing else. -/
theorem getElem?_observers_after {i : Nat} {w : Observer} (h : s.observers[i]? = some w)
    (steps : List Step) :
    (s.after steps).observers[i]? = some (w.told (s.along event steps)) := by
  induction steps generalizing s w with
  | nil => exact h
  | cons x rest ih => rw [after_cons, ih (getElem?_observers_step h x), along, Observer.told_append]

/-! ### Isolation -/

/-- **Observers are isolated**, from the request that they watch and from each other.

Whoever watches a request, its result and the site are the same. If the outcome has changed the
resource, every observer is told of that one change, once and in its turn, whoever fails, and those
that fail are noted in their order. Otherwise nobody is told of anything.

So it is over any run. A recording observer, whether it was there at the start or has come later,
holds the events of the steps since then, in their order, and nothing else. -/
theorem observers_are_isolated :
    (∀ (rules : Rules) (site : Site) (request : Request) (observers others : List Observer),
      let x := rules.execute site observers request
      let y := rules.execute site others request
      x.result = y.result ∧ x.site = y.site) ∧
    (∀ (rules : Rules) (site : Site) (request : Request) (observers : List Observer),
      let x := rules.execute site observers request
      (∀ o, x.result = .ok o → o.changed = true →
        let c := o.change site.resource.data x.site.resource.data
        x.observers = observers.map (fun w => (w.notify c).1) ∧
          x.failures = observers.filterMap (Observer.failure c)) ∧
      ((¬ ∃ o, x.result = .ok o ∧ o.changed = true) → x.observers = observers ∧ x.failures = [])) ∧
    (∀ (s : Session) (steps : List Step) (i : Nat) (seen : List Change),
      s.observers[i]? = some (.recording seen) →
        (s.after steps).observers[i]? = some (.recording (seen ++ s.along event steps))) ∧
    (∀ (s : Session) (before later : List Step) (seen : List Change),
      let joined := ((s.after before).step (.observe (.recording seen))).session
      (s.after (before ++ .observe (.recording seen) :: later)).observers[
          (s.after before).observers.length]? =
        some (.recording (seen ++ joined.along event later))) := by
  refine ⟨?same, ?told, ?present, ?joined⟩
  case same =>
    exact fun rules site request observers others =>
      rules.execute_congr site observers others request
  case told =>
    intro rules site request observers x
    have hends : rules.Ends site observers request x := rules.execute_ends site observers request
    refine ⟨fun o ho hchanged => ?_, fun hidle => ?_⟩
    · rw [hends.observers_eq, hends.failures_eq, Execution.event_of_changed ho hchanged]
      exact ⟨rfl, List.append_nil _⟩
    · rw [hends.observers_eq, hends.failures_eq, Execution.event_of_not_changed hidle]
      exact ⟨List.map_id _, rfl⟩
  case present =>
    intro s steps i seen hseen
    rw [getElem?_observers_after hseen, Observer.told_recording]
  case joined =>
    intro s before later seen joined
    have hjoined : joined.observers[(s.after before).observers.length]? =
        some (.recording seen) := List.getElem?_concat_length
    rw [after_append, after_cons, getElem?_observers_after hjoined, Observer.told_recording]

/-- Two recording observers with one that fails between them, and nobody at all. -/
theorem observers_are_isolated_amidFailure :
    let rules : Rules := { encoding := .hex }
    let site : Site := { resource := .memory "image" [1, 1, 2] false }
    let request : Request := ⟨"01", "03 04", false, true⟩
    let watching : List Observer := [.recording [], .failing, .recording []]
    (rules.execute site [] request).result = .ok ⟨"image", 2, true, 3, 5⟩ ∧
      ∃ c, (rules.execute site watching request).observers =
          [.recording [c], .failing, .recording [c]] ∧
        (rules.execute site watching request).failures =
          [⟨"FailingObserver", "view is gone"⟩] := by
  intro rules site request watching
  have hnobody : (rules.execute site [] request).result = .ok ⟨"image", 2, true, 3, 5⟩ := by
    decide +kernel
  obtain ⟨hsame, htold, -, -⟩ := observers_are_isolated
  have hwatched := (hsame rules site request watching []).1.trans hnobody
  obtain ⟨hobservers, hfailures⟩ := (htold rules site request watching).1 _ hwatched rfl
  exact ⟨hnobody, _, hobservers, hfailures⟩

/-! ### The trail -/

/-- **Recorded events leave no gap.** Take any run in which nothing but requests writes to the
resource, with an observer that has recorded nothing yet.

It ends up with one event for each outcome that has changed something, in the same order and with
the same numbers, and each speaks of one occurrence or more. The events lead from the first contents
to the current ones, each from where the one before it has ended; if there are none, these are the
same. -/
theorem recorded_events_leave_no_gap (hsteps : ∀ x ∈ steps, x.overwrites = false) {i : Nat}
    (hnew : s.observers[i]? = some (.recording [])) :
    ∃ events, (s.after steps).observers[i]? = some (.recording events) ∧
      events.map Change.outcome =
        ((s.run steps).filterMap Reply.outcome?).filter Outcome.changed ∧
      Trail (fingerprint s.data) events (fingerprint (s.after steps).data) ∧
      (events = [] → (s.after steps).data = s.data) ∧
      ∀ c ∈ events, 1 ≤ c.occurrences := by
  refine ⟨s.along event steps, ?_, map_outcome_events s steps, trail_after hsteps,
    data_after_of_events_eq_nil hsteps, fun c => one_le_occurrences_of_mem⟩
  rw [getElem?_observers_after hnew, Observer.told_recording, List.nil_append]

/-- Two requests that change something, with a preview, a request that finds nothing, one that is
turned down and new rules between them. -/
theorem recorded_events_leave_no_gap_twice :
    let s : Session :=
      { site := { resource := .memory "image" [1, 1, 2] false }, rules := { encoding := .hex }
        observers := [.failing, .recording []] }
    let steps : List Step :=
      [.execute ⟨"01", "03 04", false, true⟩, .preview ⟨"04", "06", false, false⟩,
        .execute ⟨"07", "08", false, false⟩, .execute ⟨"04", "06 06", false, false⟩,
        .adopt { encoding := .hex, zeroMatch := .report },
        .execute ⟨"03", "05", false, false⟩]
    (∀ x ∈ steps, x.overwrites = false) ∧ s.observers[1]? = some (.recording []) ∧
      ∃ first second, (s.after steps).observers[1]? = some (.recording [first, second]) ∧
        first.source = fingerprint [1, 1, 2] ∧ second.source = first.target ∧
        second.target = fingerprint [5, 4, 5, 4, 2] := by
  intro s steps
  have hsteps : ∀ x ∈ steps, x.overwrites = false := by decide
  have hnew : s.observers[1]? = some (.recording []) := rfl
  have houtcomes : ((s.run steps).filterMap Reply.outcome?).filter Outcome.changed =
      [⟨"image", 2, true, 3, 5⟩, ⟨"image", 2, true, 5, 5⟩] := by decide +kernel
  have hdata : (s.after steps).data = [5, 4, 5, 4, 2] := by decide +kernel
  obtain ⟨events, hevents, hmap, htrail, -⟩ := recorded_events_leave_no_gap hsteps hnew
  rw [houtcomes] at hmap
  rw [hdata] at htrail
  obtain ⟨first, rest, rfl, -, hrest⟩ := List.map_eq_cons_iff.mp hmap
  obtain ⟨second, last, rfl, -, hlast⟩ := List.map_eq_cons_iff.mp hrest
  obtain rfl := List.map_eq_nil_iff.mp hlast
  exact ⟨hsteps, hnew, first, second, hevents, htrail.first first rfl,
    (List.isChain_cons_cons.mp htrail.linked).1, htrail.last second rfl⟩

end Session

end ByteSplice
