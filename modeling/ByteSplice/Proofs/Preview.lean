import ByteSplice.Proofs.Decision
import ByteSplice.Proofs.Fitting
import ByteSplice.Proofs.Observation

/-!
# A preview foretells what becomes of a request

A preview plans a request and goes no further. Carrying the same request out plans it again, then
splices, commits and tells the observers. The two look at the same contents and nothing else before
they part, so whatever the preview answers, the execution goes on from there.

They part where the length policy denies a plan, which the preview reports and the execution takes
for an error, and where the site cannot be written, of which the preview knows nothing. Everything
that the preview says about lengths is computed from the plan. The execution measures real bytes
instead, and `Plans.length_apply` is where the two numbers meet.

## Main results

* `Rules.Plans.unrestricted`: the plan a request would have without the length policy.
* `Rules.Ends.error_iff`, `Rules.Ends.denied_iff`, `Rules.Ends.allowed_iff`
* `Rules.preview_foretells_execute`
-/

namespace ByteSplice

variable {rules : Rules} {site : Site} {observers : List Observer} {request : Request}
  {x : Execution} {data : Bytes} {plan : Plan} {e : PatchError} {o : Outcome}

/-! ### What a report says -/

theorem Plan.reason_report_of_denied (h : plan.verdict = .denied e) :
    plan.report.reason = some e.message := by
  simp only [report, h]

namespace Rules

/-- The same request without the length policy has the same plan, but nothing denies it. -/
theorem Plans.unrestricted (h : rules.Plans data request plan) :
    rules.Plans data { request with allowOverflow := true } { plan with verdict := .allowed } := by
  refine evaluate_eq_ok_iff.mp ?_
  rw [evaluate_unrestricted, evaluate_eq_ok_iff.mpr h, Except.map]

/-! ### What becomes of the request -/

/-- An execution fails for the request's own sake just if planning does. -/
theorem Ends.isValidation_iff (h : rules.Ends site observers request x) :
    x.result = .error e ∧ e.IsValidation ↔ rules.plan site.resource.data request = .error e := by
  constructor
  · rintro ⟨he, hvalid⟩
    cases h with
    | rejected hplan =>
      cases he
      exact hplan
    | unmatched | changed => cases he
    | uncommitted =>
      cases he
      exact absurd rfl hvalid.2
  · intro hplan
    refine ⟨?_, isValidation_of_plan hplan⟩
    cases h with
    | rejected hplan' => rw [← Except.error.inj (hplan.symm.trans hplan')]
    | unmatched hplan' | uncommitted hplan' | changed hplan' => cases hplan.symm.trans hplan'

/-- Where there is nothing to plan, there is nothing to carry out. -/
theorem Ends.error_iff (h : rules.Ends site observers request x) :
    rules.evaluate site.resource.data request = .error e ↔
      x.result = .error e ∧ e.IsValidation ∧ e.kind ≠ .overflow := by
  rw [← and_assoc, h.isValidation_iff, plan_eq_error_iff]
  constructor
  · intro heval
    exact ⟨Or.inl heval, (isInput_of_evaluate heval).2⟩
  · rintro ⟨heval | ⟨plan, heval, hdenied⟩, hkind⟩
    · exact heval
    · exact absurd ((evaluate_eq_ok_iff.mp heval).kind_of_denied hdenied) hkind

/-- A denial is the one error that is found in a plan. -/
theorem Ends.denied_iff (h : rules.Ends site observers request x) :
    (∃ plan, rules.evaluate site.resource.data request = .ok plan ∧ plan.verdict = .denied e) ↔
      x.result = .error e ∧ e.kind = .overflow := by
  constructor
  · rintro ⟨plan, heval, hdenied⟩
    have hplan := plan_eq_error_iff.mpr (Or.inr ⟨plan, heval, hdenied⟩)
    exact ⟨(h.isValidation_iff.mpr hplan).1, (evaluate_eq_ok_iff.mp heval).kind_of_denied hdenied⟩
  · rintro ⟨he, hkind⟩
    have hvalid : e.IsValidation := by simp [PatchError.IsValidation, hkind]
    -- what is wrong with the input is found before there is a plan, and is never an overflow
    rcases plan_eq_error_iff.mp (h.isValidation_iff.mp ⟨he, hvalid⟩) with heval | hdenied
    · exact absurd hkind (isInput_of_evaluate heval).2
    · exact hdenied

/-- What may be done is done, if the site can be written. -/
theorem Ends.allowed_iff (h : rules.Ends site observers request x) (hwritable : site.IsWritable) :
    (∃ plan, rules.evaluate site.resource.data request = .ok plan ∧ plan.verdict = .allowed) ↔
      ∃ o, x.result = .ok o := by
  simp only [evaluate_eq_ok_iff, ← plan_eq_ok_iff]
  constructor
  · rintro ⟨plan, hplan⟩
    exact (h.replaced hplan hwritable).1
  · rintro ⟨o, ho⟩
    obtain ⟨plan, hplan, -⟩ := h.outcome ho
    exact ⟨plan, hplan⟩

/-- An outcome measures what the report of the plan has foretold. -/
theorem Ends.outcome_of_evaluate (h : rules.Ends site observers request x)
    (heval : rules.evaluate site.resource.data request = .ok plan) (ho : x.result = .ok o) :
    o.occurrences = plan.report.offsets.length ∧ o.oldLength = plan.report.sourceLength ∧
      o.newLength = plan.report.outputLength := by
  obtain ⟨plan', hplan, happly, hcount, hold, hnew, -⟩ := h.outcome ho
  have hplans := (plan_eq_ok_iff.mp hplan).1
  cases heval.symm.trans (evaluate_eq_ok_iff.mpr hplans)
  refine ⟨?_, hold.trans hplans.sourceLength_eq.symm, hnew.trans (hplans.length_apply happly)⟩
  rw [hcount, Plan.report, List.length_map, hplans.occurrences_eq, count]

/-- **A preview foretells what becomes of a request**, whatever the resource is.

It fails where the execution fails for want of a plan, in the same way. It shows a denied plan where
the execution fails by the length policy, and gives that error as the reason; but for the verdict,
the report is the one that the request would have without the policy. It shows a plan that may be
applied where the execution succeeds, provided the site can be written. Then the outcome is what the
report says, and observers are told of a change from the contents that the report names. -/
theorem preview_foretells_execute (rules : Rules) {resource : Resource} {site : Site}
    (observers : List Observer) (request : Request) (hdata : resource.data = site.resource.data) :
    let x := rules.execute site observers request
    let answer := rules.preview resource request
    (∀ e, answer = .error e ↔ x.result = .error e ∧ e.IsValidation ∧ e.kind ≠ .overflow) ∧
    (∀ e, (∃ plan, answer = .ok plan ∧ plan.verdict = .denied e) ↔
      x.result = .error e ∧ e.kind = .overflow) ∧
    (∀ plan e, answer = .ok plan → x.result = .error e → e.kind = .overflow →
      plan.report.reason = some e.message) ∧
    (site.IsWritable →
      ((∃ plan, answer = .ok plan ∧ plan.verdict = .allowed) ↔ ∃ o, x.result = .ok o)) ∧
    (∀ plan o, answer = .ok plan → x.result = .ok o →
      o.occurrences = plan.report.offsets.length ∧ o.oldLength = plan.report.sourceLength ∧
        o.newLength = plan.report.outputLength ∧
        (o.changed = true → ∀ (i : Nat) (seen : List Change),
          observers[i]? = some (.recording seen) →
          ∃ c, x.observers[i]? = some (.recording (seen ++ [c])) ∧
            c.oldMd5 = plan.report.sourceMd5)) ∧
    (∀ plan e, answer = .ok plan → plan.verdict = .denied e →
      ∃ free, rules.preview resource { request with allowOverflow := true } = .ok free ∧
        free.verdict = .allowed ∧
        plan.report = { free.report with reason := some e.message }) := by
  intro x answer
  have hends : rules.Ends site observers request x := rules.execute_ends site observers request
  have hanswer : answer = rules.evaluate site.resource.data request := by
    rw [← hdata]
    rfl
  rw [hanswer]
  refine ⟨fun e => hends.error_iff, fun e => hends.denied_iff, fun plan e heval he hkind => ?_,
    hends.allowed_iff, fun plan o heval ho => ?_, fun plan e heval hdenied => ?_⟩
  · obtain ⟨plan', heval', hdenied⟩ := hends.denied_iff.mpr ⟨he, hkind⟩
    cases heval.symm.trans heval'
    exact Plan.reason_report_of_denied hdenied
  · obtain ⟨hoccurrences, hold, hnew⟩ := hends.outcome_of_evaluate heval ho
    refine ⟨hoccurrences, hold, hnew, fun hchanged i seen hseen => ?_⟩
    refine ⟨o.change site.resource.data x.site.resource.data, ?_, ?_⟩
    · rw [hends.observers_eq, Execution.event_of_changed ho hchanged, List.getElem?_map, hseen]
      rfl
    · rw [Plan.report, (evaluate_eq_ok_iff.mp heval).sourceDigest_eq, Outcome.change]
  · have hfree := (evaluate_eq_ok_iff.mp heval).unrestricted
    rw [← hdata] at hfree
    refine ⟨_, evaluate_eq_ok_iff.mpr hfree, rfl, ?_⟩
    simp only [Plan.report, hdenied]
    rfl

/-- A copy that nobody may write to is asked what would become of the image, which then grows by
four bytes before the eyes of an observer. -/
theorem preview_foretells_execute_growing :
    let rules : Rules := { encoding := .hex }
    let copy : Resource := .memory "copy" [1, 1, 2] true
    let site : Site := { resource := .memory "image" [1, 1, 2] false }
    let request : Request := ⟨"01", "03 04", true, true⟩
    copy.data = site.resource.data ∧
      ∃ plan, rules.preview copy request = .ok plan ∧ plan.verdict = .allowed ∧
        plan.report.offsets.length = 2 ∧ plan.report.outputLength = 7 ∧
        ∃ c, (rules.execute site [.failing, .recording []] request).observers[1]? =
            some (.recording [c]) ∧ c.oldMd5 = plan.report.sourceMd5 := by
  intro rules copy site request
  have hdata : copy.data = site.resource.data := rfl
  obtain ⟨-, -, -, hallowed, houtcome, -⟩ :=
    preview_foretells_execute rules [.failing, .recording []] request hdata
  have hok : (rules.execute site [.failing, .recording []] request).result =
      .ok ⟨"image", 2, true, 3, 7⟩ := by decide +kernel
  obtain ⟨plan, hplan, hverdict⟩ := (hallowed rfl).mpr ⟨_, hok⟩
  obtain ⟨hcount, -, hnew, htold⟩ := houtcome plan _ hplan hok
  exact ⟨hdata, plan, hplan, hverdict, hcount.symm, hnew.symm, htold rfl 1 [] rfl⟩

end Rules

end ByteSplice
