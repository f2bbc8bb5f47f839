import ByteSplice.Proofs.Session.AuditTrail
import ByteSplice.Proofs.Session.HeldPlans

/-!
# Sessions that cannot grow

A request that does not allow overflow never makes the resource longer, and neither does a plan that
was made for such a request, whenever it is applied. So the first length of a resource bounds it for
good, as long as all requests are of this kind and nothing else writes to it.

The policy is about encoded bytes and is applied when a plan is made. The plan may be applied much
later, to contents that only look like those it was made for. What keeps the bound even then is that
the effect of a plan on the length depends on the plan alone (`Rules.Plans.length_apply_add`).

## Main definitions

* `Plan.IsRestrained`: the plan was made for a request that does not allow overflow.
* `Step.isRestrained`
* `Session.planOf`: the plan by which a step may write to the resource.

## Main results

* `Plan.IsRestrained.length_apply`
* `Session.isRestrained_plans_after`
* `Session.length_data_after_le`
* `Session.restrained_run_never_grows`
-/

namespace ByteSplice

/-! ### One plan -/

/-- The plan was made for a request that does not allow overflow. -/
def Plan.IsRestrained (p : Plan) : Prop :=
  ∃ (rules : Rules) (data : Bytes) (request : Request),
    rules.Plans data request p ∧ request.allowOverflow = false

variable {p : Plan} {contents output : Bytes}

theorem Plan.eq_of_apply_of_unmatched (hnone : p.occurrences = [])
    (h : p.apply contents = .ok output) : output = contents := by
  obtain ⟨-, -, hsplice⟩ := apply_eq_ok_iff.mp h
  rw [hnone] at hsplice
  simpa [splice] using hsplice.symm

/-- Where such a plan replaces anything, what it writes is no longer than what it takes away. -/
theorem Plan.IsRestrained.length_replacement_le (hp : p.IsRestrained)
    (h : p.apply contents = .ok output) (hsome : p.occurrences ≠ []) :
    p.replacement.length ≤ p.pattern.length := by
  obtain ⟨rules, data, request, hplans, hforbidden⟩ := hp
  rcases hplans.allowed_iff.mp (apply_eq_ok_iff.mp h).1 with hallowed | hle | hnone
  · cases hforbidden.symm.trans hallowed
  · exact hle
  · exact absurd hnone hsome

/-- **A restrained plan shrinks what it is applied to**, by the same amount at every occurrence. -/
theorem Plan.IsRestrained.length_apply (hp : p.IsRestrained) (h : p.apply contents = .ok output) :
    contents.length =
      output.length + p.occurrences.length * (p.pattern.length - p.replacement.length) := by
  by_cases hnone : p.occurrences = []
  · rw [eq_of_apply_of_unmatched hnone h, hnone, List.length_nil, Nat.zero_mul, Nat.add_zero]
  · have hle := Nat.mul_le_mul_left p.occurrences.length (hp.length_replacement_le h hnone)
    obtain ⟨rules, data, request, hplans, -⟩ := hp
    have hsum := hplans.length_apply_add h
    rw [Nat.mul_sub]
    omega

/-! ### Steps -/

/-- Whether a step leaves the length of the resource to requests that do not allow overflow, or to
plans that are kept already. -/
def Step.isRestrained : Step → Bool
  | .execute request | .hold request => !request.allowOverflow
  | .commit _ | .hand _ | .openFile _ _ | .reopen _ => false
  | _ => true

namespace Session

variable {s : Session} {x : Step} {steps : List Step} {o : Outcome} {request : Request}
  {number : Nat}

/-- The plan by which a step may write to the resource. -/
def planOf (s : Session) : Step → Option Plan
  | .execute request => (s.rules.plan s.data request).toOption
  | .applyHeld number true => s.plans[number]?
  | _ => none

theorem planOf_execute_eq_some_iff :
    s.planOf (.execute request) = some p ↔ s.rules.plan s.data request = .ok p := by
  rw [planOf]
  cases s.rules.plan s.data request with
  | error e => exact iff_of_false nofun nofun
  | ok q => simp [Except.toOption]

/-- A request that succeeds has a plan, which makes the new contents of the old ones. -/
theorem exists_planOf_of_execute (h : (s.step (.execute request)).outcome? = some o) :
    ∃ p, s.planOf (.execute request) = some p ∧ s.rules.Plans s.data request p ∧
      p.apply s.data = .ok (s.step (.execute request)).session.data ∧
      o.occurrences = p.occurrences.length := by
  have hends := s.rules.execute_ends s.site s.observers request
  obtain ⟨p, hplan, happly, hcount, -⟩ := hends.outcome (outcome?_execute_eq_some_iff.mp h)
  have hplans := (Rules.plan_eq_ok_iff.mp hplan).1
  refine ⟨p, planOf_execute_eq_some_iff.mpr hplan, hplans, ?_, ?_⟩
  · rw [data_execute]
    exact happly
  · rw [hcount, hplans.occurrences_eq, count]

theorem data_execute_of_outcome?_eq_none
    (h : (s.step (.execute request)).outcome? = none) :
    (s.step (.execute request)).session.data = s.data :=
  data_step_of_event_eq_none rfl (event_eq_none h)

/-- A kept plan is written by if it fits and the resource takes what comes out. -/
theorem data_applyHeld (s : Session) (number : Nat) :
    (s.step (.applyHeld number true)).session.data = s.data ∨
      ∃ p, s.plans[number]? = some p ∧
        p.apply s.data = .ok (s.step (.applyHeld number true)).session.data := by
  cases hheld : s.plans[number]? with
  | none =>
    refine Or.inl ?_
    simp only [step, applyHeld, hheld]
    rfl
  | some p =>
    cases happly : p.apply s.data with
    | error refusal =>
      rw [step_applyHeld_of_error hheld happly]
      exact Or.inl rfl
    | ok output =>
      rw [step_applyHeld_of_ok hheld happly, if_pos rfl]
      by_cases hwritable : s.site.IsWritable
      · rw [(commitAs_of_isWritable hwritable output (.spliced output)).2]
        exact Or.inr ⟨p, rfl, happly⟩
      · obtain ⟨e, hrefused⟩ := commitAs_of_not_isWritable hwritable output (.spliced output)
        rw [hrefused]
        exact Or.inl rfl

/-- **Whatever a restrained step writes**, it writes by a restrained plan. -/
theorem exists_planOf_of_data_ne (hx : x.isRestrained = true)
    (hplans : ∀ p ∈ s.plans, p.IsRestrained) (h : (s.step x).session.data ≠ s.data) :
    ∃ p, s.planOf x = some p ∧ p.IsRestrained ∧ p.apply s.data = .ok (s.step x).session.data ∧
      ∀ o, (s.step x).outcome? = some o → o.occurrences = p.occurrences.length := by
  cases hover : x.overwrites with
  | false =>
    rcases data_step (s := s) hover with ⟨request, rfl⟩ | hdata
    · cases houtcome : (s.step (.execute request)).outcome? with
      | none => exact absurd (data_execute_of_outcome?_eq_none houtcome) h
      | some o =>
        obtain ⟨p, hplan, hmade, happly, hcount⟩ := exists_planOf_of_execute houtcome
        have hforbidden : request.allowOverflow = false := by simpa [Step.isRestrained] using hx
        refine ⟨p, hplan, ⟨_, _, _, hmade, hforbidden⟩, happly, fun o' ho' => ?_⟩
        rw [← Option.some.inj ho', hcount]
    · exact absurd hdata h
  | true =>
    -- of the steps that overwrite, one is restrained
    cases x with
    | applyHeld number commit =>
      obtain rfl : commit = true := hover
      rcases s.data_applyHeld number with hdata | ⟨p, hheld, happly⟩
      · exact absurd hdata h
      · refine ⟨p, hheld, hplans p (List.mem_of_getElem? hheld), happly, fun o ho => ?_⟩
        cases (s.quiet_applyHeld number true).outcome?_eq.symm.trans ho
    | commit | hand | openFile | reopen => cases hx
    | _ => cases hover

theorem length_data_step_le (hx : x.isRestrained = true)
    (hplans : ∀ p ∈ s.plans, p.IsRestrained) :
    (s.step x).session.data.length ≤ s.data.length := by
  by_cases h : (s.step x).session.data = s.data
  · rw [h]
  · obtain ⟨p, -, hp, happly, -⟩ := exists_planOf_of_data_ne hx hplans h
    rw [hp.length_apply happly]
    exact Nat.le_add_right _ _

/-! ### Runs -/

theorem isRestrained_of_plan? (hx : x.isRestrained = true) (h : (s.step x).plan? = some p) :
    p.IsRestrained := by
  rcases s.quiet_step x with ⟨request, rfl⟩ | ⟨request, rfl⟩ | ⟨observer, rfl⟩ | hquiet
  · cases (s.plan?_execute request).symm.trans h
  · have hforbidden : request.allowOverflow = false := by simpa [Step.isRestrained] using hx
    have hplans := Rules.evaluate_eq_ok_iff.mp (plan?_hold_eq_some_iff.mp h)
    exact ⟨_, _, _, hplans, hforbidden⟩
  · cases h
  · cases hquiet.plan?_eq.symm.trans h

/-- **All plans that are kept are restrained**, at the end of a run as at its start. -/
theorem isRestrained_plans_after (hsteps : ∀ x ∈ steps, x.isRestrained = true)
    (hplans : ∀ p ∈ s.plans, p.IsRestrained) : ∀ p ∈ (s.after steps).plans, p.IsRestrained := by
  induction steps generalizing s with
  | nil => exact hplans
  | cons x rest ih =>
    obtain ⟨hx, hrest⟩ := List.forall_mem_cons.mp hsteps
    rw [after_cons]
    refine ih hrest fun p hp => ?_
    rw [plans_step] at hp
    rcases List.mem_append.mp hp with hold | hnew
    · exact hplans p hold
    · exact isRestrained_of_plan? hx (Option.mem_toList.mp hnew)

/-- **The length at the start is a bound for good.** -/
theorem length_data_after_le (hsteps : ∀ x ∈ steps, x.isRestrained = true)
    (hplans : ∀ p ∈ s.plans, p.IsRestrained) : (s.after steps).data.length ≤ s.data.length := by
  induction steps using List.reverseRecOn with
  | nil => exact Nat.le_refl _
  | append_singleton before x ih =>
    obtain ⟨hbefore, hx⟩ := List.forall_mem_append.mp hsteps
    have hstep := length_data_step_le (hx x (List.mem_singleton_self x))
      (isRestrained_plans_after hbefore hplans)
    rw [after_append]
    exact hstep.trans (ih hbefore)

theorem length_le_of_event (hsteps : ∀ x ∈ steps, x.isRestrained = true)
    (hplans : ∀ p ∈ s.plans, p.IsRestrained) {c : Change} (h : c ∈ s.along event steps) :
    c.newLength ≤ c.oldLength := by
  obtain ⟨before, x, later, rfl, hevent⟩ := exists_of_mem_along h
  obtain ⟨hbefore, hrest⟩ := List.forall_mem_append.mp hsteps
  obtain ⟨hsource, htarget, -⟩ := of_event_eq_some hevent
  have hold : c.oldLength = (s.after before).data.length := congrArg Prod.fst hsource
  have hnew : c.newLength = ((s.after before).step x).session.data.length :=
    congrArg Prod.fst htarget
  rw [hold, hnew]
  exact length_data_step_le (List.forall_mem_cons.mp hrest).1
    (isRestrained_plans_after hbefore hplans)

/-- **Without overflow a resource never grows**, whatever it is. Take any run in which no request
allows overflow, whether it is carried out or its plan is kept to be applied later, and in which
nothing else writes to the resource.

No step makes the contents longer, so they are never longer than at the start, and every outcome and
every event tells of that. A step that changes the contents does so by a plan. What the plan writes,
with the zero byte that may belong to it, is no longer than what it takes away, and the contents
shrink by the difference, once for each occurrence. -/
theorem restrained_run_never_grows (hsteps : ∀ x ∈ steps, x.isRestrained = true)
    (hplans : ∀ p ∈ s.plans, p.IsRestrained) :
    (s.after steps).data.length ≤ s.data.length ∧
    (∀ before x later, steps = before ++ x :: later →
      let here := s.after before
      let reply := here.step x
      here.data.length ≤ s.data.length ∧ reply.session.data.length ≤ here.data.length ∧
      (∀ o, reply.outcome? = some o → o.newLength ≤ o.oldLength) ∧
      (reply.session.data ≠ here.data →
        ∃ p, here.planOf x = some p ∧ p.IsRestrained ∧
          (∀ request, x = .execute request →
            here.rules.Reads request p.pattern p.replacement) ∧
          (∀ o, reply.outcome? = some o → o.occurrences = p.occurrences.length) ∧
          p.replacement.length ≤ p.pattern.length ∧
          here.data.length = reply.session.data.length +
            p.occurrences.length * (p.pattern.length - p.replacement.length))) ∧
    (∀ (i : Nat) (seen : List Change), s.observers[i]? = some (.recording seen) →
      ∃ events, (s.after steps).observers[i]? = some (.recording (seen ++ events)) ∧
        ∀ c ∈ events, c.newLength ≤ c.oldLength) := by
  refine ⟨length_data_after_le hsteps hplans, ?step, fun i seen hseen => ?_⟩
  case step =>
    intro before x later heq here reply
    subst heq
    obtain ⟨hbefore, hrest⟩ := List.forall_mem_append.mp hsteps
    have hx := (List.forall_mem_cons.mp hrest).1
    have hheld : ∀ p ∈ here.plans, p.IsRestrained := isRestrained_plans_after hbefore hplans
    have hstep : reply.session.data.length ≤ here.data.length := length_data_step_le hx hheld
    refine ⟨length_data_after_le hbefore hplans, hstep, fun o ho => ?_, fun hchanged => ?_⟩
    · obtain ⟨hold, hnew, -⟩ := outcome_step ho
      rw [hold, hnew]
      exact hstep
    · obtain ⟨p, hplan, hp, happly, hcount⟩ := exists_planOf_of_data_ne hx hheld hchanged
      have hsome : p.occurrences ≠ [] := fun hnone =>
        hchanged (Plan.eq_of_apply_of_unmatched hnone happly)
      refine ⟨p, hplan, hp, fun request hrequest => ?_, hcount,
        hp.length_replacement_le happly hsome, hp.length_apply happly⟩
      subst hrequest
      exact (Rules.plan_eq_ok_iff.mp (planOf_execute_eq_some_iff.mp hplan)).1.reads
  · rw [getElem?_observers_after hseen, Observer.told_recording]
    exact ⟨_, rfl, fun c hc => length_le_of_event hsteps hplans hc⟩

/-- A kept plan takes a byte from each of two matches, zero bytes included, and a request then takes
one more. -/
theorem restrained_run_never_grows_held :
    let s : Session :=
      { site := { resource := .memory "image" [1, 1, 2, 1, 1] false }
        rules := { encoding := .hex }, observers := [.recording []] }
    let steps : List Step :=
      [.hold ⟨"0101", "", true, false⟩, .preview ⟨"02", "03 04", false, true⟩,
        .applyHeld 0 true, .execute ⟨"02", "", false, false⟩]
    (∀ x ∈ steps, x.isRestrained = true) ∧ (∀ p ∈ s.plans, p.IsRestrained) ∧
      (s.after steps).data = [0, 0] ∧
      ∃ p, (s.after (steps.take 2)).planOf (.applyHeld 0 true) = some p ∧
        p.replacement.length ≤ p.pattern.length ∧
        5 = 3 + p.occurrences.length * (p.pattern.length - p.replacement.length) := by
  intro s steps
  have hsteps : ∀ x ∈ steps, x.isRestrained = true := by decide
  have hplans : ∀ p ∈ s.plans, p.IsRestrained := fun p hp => absurd hp List.not_mem_nil
  have hheld : (s.after (steps.take 2)).data = [1, 1, 2, 1, 1] := by decide +kernel
  have happlied : ((s.after (steps.take 2)).step (.applyHeld 0 true)).session.data = [0, 2, 0] := by
    decide +kernel
  obtain ⟨-, hstep, -⟩ := restrained_run_never_grows hsteps hplans
  obtain ⟨-, -, -, hshrink⟩ := hstep (steps.take 2) (.applyHeld 0 true) (steps.drop 3) rfl
  rw [hheld, happlied] at hshrink
  obtain ⟨p, hplan, -, -, -, hle, hlength⟩ := hshrink (by decide)
  exact ⟨hsteps, hplans, by decide +kernel, p, hplan, hle, hlength⟩

end Session

end ByteSplice
