import ByteSplice.Proofs.Commit
import ByteSplice.Proofs.Fitting
import ByteSplice.Proofs.Session.Steps

/-!
# Kept plans

A plan that is kept may be applied at any later time, whatever has become of the resource by then.
It is good for contents of the length and the digest of those it was made for, and so it is good
again whenever these come back. Held against any others it is refused, and nothing is touched.

`Session.made` looks at a step from outside: which plan has it made to be kept, and for which
contents. The plans that a session keeps are those that were made along the way, in this order, and
no later step does anything to them (`plans_after`). So a plan and the contents it was made for can
be spoken of together at any later time, and `Rules.Plans.exists_apply_iff` settles what becomes of
the plan.

## Main definitions

* `Session.made`

## Main results

* `Session.plans_after`, `Session.exists_plans_of_mem_along_made`
* `Session.commitAs_of_isWritable`, `Session.commitAs_of_not_isWritable`
* `Session.held_plans_fit`
-/

namespace ByteSplice

namespace Session

variable {s : Session} {x : Step} {data output : Bytes} {p : Plan} {number : Nat}

/-! ### What is kept -/

/-- The plan that a step makes to be kept, with the contents that it is made for. -/
def made (s : Session) (x : Step) : Option (Bytes × Plan) :=
  (s.step x).plan?.map fun p => (s.data, p)

/-- Nothing but a plan of the current contents is made to be kept. -/
theorem exists_plans_of_made (h : s.made x = some (data, p)) :
    ∃ request, s.rules.Plans data request p := by
  obtain ⟨p', hplan, heq⟩ := Option.map_eq_some_iff.mp h
  obtain ⟨rfl, rfl⟩ := Prod.mk.inj heq
  rcases s.quiet_step x with ⟨request, rfl⟩ | ⟨request, rfl⟩ | ⟨observer, rfl⟩ | hquiet
  · rw [plan?_execute] at hplan
    cases hplan
  · exact ⟨request, Rules.evaluate_eq_ok_iff.mp (plan?_hold_eq_some_iff.mp hplan)⟩
  · cases hplan
  · rw [hquiet.plan?_eq] at hplan
    cases hplan

theorem plans_step (s : Session) (x : Step) :
    (s.step x).session.plans = s.plans ++ (s.step x).plan?.toList := by
  rcases s.quiet_step x with ⟨request, rfl⟩ | ⟨request, rfl⟩ | ⟨observer, rfl⟩ | hquiet
  · rw [plan?_execute, session_execute]
    exact (List.append_nil _).symm
  · simp only [step, planned, Reply.plan?]
    cases s.rules.preview s.site.resource request with
    | error e => exact (List.append_nil _).symm
    | ok p => rfl
  · exact (List.append_nil _).symm
  · rw [hquiet.plans_eq, hquiet.plan?_eq]
    exact (List.append_nil _).symm

/-- **A session keeps the plans that were made along the way**, and keeps them as they are. -/
theorem plans_after (s : Session) (steps : List Step) :
    (s.after steps).plans = s.plans ++ (s.along made steps).map Prod.snd := by
  induction steps generalizing s with
  | nil => exact (List.append_nil _).symm
  | cons x rest ih =>
    have hhere : (s.made x).toList.map Prod.snd = (s.step x).plan?.toList := by
      rw [made]
      cases (s.step x).plan? <;> rfl
    rw [after_cons, ih, plans_step, along, List.map_append, hhere, List.append_assoc]

theorem exists_plans_of_mem_along_made {steps : List Step}
    (h : (data, p) ∈ s.along made steps) :
    ∃ rules request, Rules.Plans rules data request p := by
  obtain ⟨before, x, later, -, hmade⟩ := exists_of_mem_along h
  obtain ⟨request, hplans⟩ := exists_plans_of_made hmade
  exact ⟨_, request, hplans⟩

/-! ### Applying a kept plan -/

theorem step_applyHeld_of_error {refusal : Refusal} (hheld : s.plans[number]? = some p)
    (h : p.apply s.data = .error refusal) (commit : Bool) :
    s.step (.applyHeld number commit) = s.refuse (.patch refusal.toPatchError) := by
  rw [data] at h
  simp only [step, applyHeld, hheld, h]

theorem step_applyHeld_of_ok (hheld : s.plans[number]? = some p)
    (h : p.apply s.data = .ok output) (commit : Bool) :
    s.step (.applyHeld number commit) =
      if commit then s.commitAs output (.spliced output) else ⟨.ok (.spliced output), s, []⟩ := by
  rw [data] at h
  simp only [step, applyHeld, hheld, h]

theorem commitAs_of_isWritable (h : s.site.IsWritable) (contents : Bytes) (answer : Answer) :
    (s.commitAs contents answer).result = .ok answer ∧
      (s.commitAs contents answer).session.data = contents := by
  obtain ⟨tree, journal, hcommit, -⟩ := Site.commit_of_isWritable h contents
  simp only [commitAs, hcommit, true_and]
  exact Resource.data_withData _ _

theorem commitAs_of_not_isWritable (h : ¬ s.site.IsWritable) (contents : Bytes)
    (answer : Answer) :
    ∃ e, s.commitAs contents answer = s.refuse (.patch (.commitFailed e)) := by
  obtain ⟨e, left, hcommit, hletGo⟩ := Site.commit_of_not_isWritable h contents
  refine ⟨e.message, ?_⟩
  simp only [commitAs, hcommit, hletGo]
  rfl

/-- **Kept plans never spoil other contents.** Take any run of a session, and any plan that was made
to be kept on the way, together with the contents it was made for.

The plan can be applied to the contents there are now just if it is allowed and these have the
length and the digest of those. If they are the same bytes, whatever they were in between, every
match that was found is replaced. If the plan is applied, only the contents can change, and only if
the outcome is to be committed. If it is refused, the session stays as it is. A denied plan is
refused by everything. -/
theorem held_plans_fit (s : Session) (steps : List Step) :
    let now := s.after steps
    now.plans = s.plans ++ (s.along made steps).map Prod.snd ∧
    ∀ k data p, (s.along made steps)[k]? = some (data, p) →
      let number := s.plans.length + k
      ((∃ output, p.apply now.data = .ok output) ↔
        p.verdict = .allowed ∧ now.data.length = data.length ∧
          Digest.ofBytes now.data = Digest.ofBytes data) ∧
      (p.verdict = .allowed → now.data = data →
        p.occurrences = findAll data p.pattern ∧
          p.apply now.data = .ok (replaceAll p.pattern p.replacement data)) ∧
      (∀ output, p.apply now.data = .ok output →
        now.step (.applyHeld number false) = ⟨.ok (.spliced output), now, []⟩ ∧
        let reply := now.step (.applyHeld number true)
        reply.session.plans = now.plans ∧
          (now.site.IsWritable →
            reply.result = .ok (.spliced output) ∧ reply.session.data = output) ∧
          (¬ now.site.IsWritable → reply.session = now)) ∧
      (∀ refusal, p.apply now.data = .error refusal →
        refusal.toPatchError.kind = .illegalPlan ∧ (∀ offset, refusal ≠ .misplaced offset) ∧
          ∀ commit, now.step (.applyHeld number commit) =
            ⟨.error (.patch refusal.toPatchError), now, []⟩) ∧
      (∀ e, p.verdict = .denied e → ∀ contents, p.apply contents = .error (.denied e)) := by
  intro now
  have hkept : now.plans = s.plans ++ (s.along made steps).map Prod.snd := s.plans_after steps
  refine ⟨hkept, ?_⟩
  intro k data p hmade number
  obtain ⟨rules, request, hplans⟩ :=
    exists_plans_of_mem_along_made (List.mem_of_getElem? hmade)
  have hheld : now.plans[number]? = some p := by
    rw [hkept, List.getElem?_append_right (Nat.le_add_right _ _), Nat.add_sub_cancel_left,
      List.getElem?_map, hmade]
    rfl
  refine ⟨hplans.exists_apply_iff now.data, fun hallowed hsame => ?_, fun output happly => ?_,
    fun refusal happly => ?_, fun e hdenied => Plan.apply_of_denied hdenied⟩
  · rw [hsame]
    exact ⟨hplans.occurrences_eq, hplans.apply hallowed⟩
  · have hstep := step_applyHeld_of_ok hheld happly
    refine ⟨hstep false, ?_, fun hwritable => ?_, fun hprotected => ?_⟩
    · exact (now.quiet_applyHeld number true).plans_eq
    · rw [hstep true]
      exact commitAs_of_isWritable hwritable output _
    · obtain ⟨e, hcommit⟩ := commitAs_of_not_isWritable hprotected output (.spliced output)
      rw [hstep true, if_pos rfl, hcommit]
      rfl
  · refine ⟨rfl, fun offset hoffset => ?_, step_applyHeld_of_error hheld happly⟩
    -- what planning has made is turned away for its verdict or for other contents
    subst hoffset
    rcases hplans.refusal_of_apply happly with ⟨e, -, heq⟩ | ⟨-, heq⟩
    all_goals cases heq

/-- The contents are changed without a change of length, and later put back. In between the plan is
refused. -/
theorem held_plans_fit_restored :
    let s : Session :=
      { site := { resource := .memory "image" [1, 1, 2] false }, rules := { encoding := .hex } }
    let changed : List Step := [.hold ⟨"01", "03", false, false⟩, .commit [2, 1, 1]]
    let restored : List Step := changed ++ [.commit [1, 1, 2]]
    ∃ p, (s.along made changed)[0]? = some ([1, 1, 2], p) ∧
      (s.along made restored)[0]? = some ([1, 1, 2], p) ∧
      (∃ refusal, p.apply (s.after changed).data = .error refusal) ∧
      (s.after restored).step (.applyHeld 0 false) =
        ⟨.ok (.spliced [3, 3, 2]), s.after restored, []⟩ := by
  intro s changed restored
  let p : Plan := ⟨⟨⟨[1], by decide⟩, [3], [⟨0, 1⟩, ⟨1, 1⟩]⟩, .allowed, 3, Digest.ofBytes [1, 1, 2]⟩
  have hchanged : (s.along made changed)[0]? = some ([1, 1, 2], p) := by decide +kernel
  have hrestored : (s.along made restored)[0]? = some ([1, 1, 2], p) := by decide +kernel
  refine ⟨p, hchanged, hrestored, ?_, ?_⟩
  · obtain ⟨hfits, -⟩ := (held_plans_fit s changed).2 0 [1, 1, 2] p hchanged
    have hother : Digest.ofBytes (s.after changed).data ≠ Digest.ofBytes [1, 1, 2] := by
      decide +kernel
    cases happly : p.apply (s.after changed).data with
    | error refusal => exact ⟨refusal, rfl⟩
    | ok output => exact absurd (hfits.mp ⟨output, happly⟩).2.2 hother
  · obtain ⟨-, hsame, hspliced, -⟩ := (held_plans_fit s restored).2 0 [1, 1, 2] p hrestored
    have hdata : (s.after restored).data = [1, 1, 2] := by decide +kernel
    have houtput : replaceAll p.pattern p.replacement [1, 1, 2] = [3, 3, 2] := by cbv
    have happly := (hsame rfl hdata).2
    rw [houtput] at happly
    exact (hspliced [3, 3, 2] happly).1

end Session

end ByteSplice
