import ByteSplice.Proofs.Replacement
import Mathlib.Tactic.SplitIfs

/-!
# What planning a request leads to

A request is given as texts, and everything about it is decided in bytes. `Rules.Reads` relates the
two: it says which pattern and which replacement the texts of a request stand for. A request whose
texts stand for none is turned down before the contents are looked at.

What a plan is, for given contents and a given request, is said by `Rules.Plans`. It keeps a denial
in the plan, as `Rules.evaluate` does; the plans that `Rules.plan` lets through are those of them
that are allowed. Such a plan always fits the contents it was made for, so applying it there cannot
be refused, and comes to replacing in one pass (`Plans.apply`).

## Main definitions

* `Rules.Reads`
* `Rules.Plans`
* `PatchError.IsValidation`, the errors that planning can lead to, and `PatchError.IsInput`, those
  of them that leave no plan.

## Main results

* `Rules.evaluate_eq_ok_iff`, `Rules.plan_eq_ok_iff`
* `Rules.Plans.allowed_iff`, `Rules.Plans.unmatched_iff`, `Rules.Plans.apply`
* `Rules.Reads.eq_replaceAll_of_apply`
* `Rules.Reads.exists_plans`, `Rules.exists_plan_unmatched_iff`
* `Rules.plan_eq_error_iff`, `Rules.isValidation_of_plan`
-/

namespace ByteSplice

variable {rules : Rules} {request : Request} {data : Bytes} {plan : Plan} {s : Survey}
  {e : PatchError}

/-! ### The length policy -/

/-- Occurrences of one length all grow or all do not. -/
theorem Survey.any_grows_iff (h : ∀ o ∈ s.occurrences, o.length = s.pattern.length) :
    (s.occurrences.any fun o => o.length < s.replacement.length) = true ↔
      s.pattern.length < s.replacement.length ∧ s.occurrences ≠ [] := by
  rw [List.any_eq_true]
  constructor
  · rintro ⟨o, ho, hlt⟩
    rw [decide_eq_true_eq, h o ho] at hlt
    exact ⟨hlt, List.ne_nil_of_mem ho⟩
  · rintro ⟨hlt, hsome⟩
    obtain ⟨o, ho⟩ := List.exists_mem_of_ne_nil _ hsome
    refine ⟨o, ho, ?_⟩
    rw [decide_eq_true_eq, h o ho]
    exact hlt

theorem Survey.verdict_eq_allowed_iff {allowOverflow : Bool}
    (h : ∀ o ∈ s.occurrences, o.length = s.pattern.length) :
    s.verdict allowOverflow = .allowed ↔
      allowOverflow = true ∨ s.replacement.length ≤ s.pattern.length ∨ s.occurrences = [] := by
  rw [verdict]
  split_ifs with hdenied
  · rw [Bool.and_eq_true, any_grows_iff h, Bool.not_eq_true'] at hdenied
    obtain ⟨⟨hlt, hsome⟩, hforbidden⟩ := hdenied
    simp [hforbidden, hsome, hlt]
  · rw [Bool.and_eq_true, any_grows_iff h, Bool.not_eq_true'] at hdenied
    refine iff_of_true rfl ?_
    by_contra hnot
    push Not at hnot
    exact hdenied ⟨⟨hnot.2.1, hnot.2.2⟩, by simpa using hnot.1⟩

/-! ### The texts of a request -/

theorem Pattern.ofText_eq_ok_iff {scheme : Encoding} {text : String} {p : Pattern} :
    Pattern.ofText scheme text = .ok p ↔ scheme.encode text = .ok p.bytes := by
  obtain ⟨found, hne⟩ := p
  rw [Pattern.ofText]
  cases scheme.encode text with
  | error fault => simp
  | ok bytes =>
    simp only [Pattern.ofBytes]
    split_ifs with hempty
    · have hbytes : bytes ≠ found := fun heq => hne (heq ▸ hempty)
      simp [hbytes]
    · simp

theorem replacementOfText_eq_ok_iff {scheme : Encoding} {text : String} {nullTerminate : Bool}
    {replacement : Bytes} :
    replacementOfText scheme text nullTerminate = .ok replacement ↔
      ∃ bytes, scheme.encode text = .ok bytes ∧
        replacementOfBytes bytes nullTerminate = replacement := by
  rw [replacementOfText]
  cases scheme.encode text with
  | error fault => simp
  | ok bytes => simp

namespace Rules

/-- The texts of a request stand for a pattern and a replacement. -/
structure Reads (rules : Rules) (request : Request) (p : Pattern) (replacement : Bytes) :
    Prop where
  /-- The search text has the bytes of the pattern. -/
  find : rules.encoding.encode request.findText = .ok p.bytes
  /-- The replacement text has the bytes of the replacement, but for the zero byte behind them. -/
  replace : ∃ bytes, rules.encoding.encode request.replaceText = .ok bytes ∧
    replacementOfBytes bytes request.nullTerminate = replacement

/-- A request is read in one way only. -/
theorem Reads.unique {p q : Pattern} {replacement other : Bytes}
    (h : rules.Reads request p replacement) (h' : rules.Reads request q other) :
    p = q ∧ replacement = other := by
  obtain ⟨bytes, hbytes, rfl⟩ := h.replace
  obtain ⟨bytes', hbytes', rfl⟩ := h'.replace
  cases hbytes.symm.trans hbytes'
  have hfind := Except.ok.inj (h.find.symm.trans h'.find)
  obtain ⟨pattern, hpattern⟩ := p
  obtain rfl : pattern = q.bytes := hfind
  exact ⟨rfl, rfl⟩

theorem survey_eq_ok_iff :
    rules.survey data request = .ok s ↔
      rules.Reads request s.pattern s.replacement ∧
        s.occurrences = findAll data s.pattern := by
  obtain ⟨p, replacement, found⟩ := s
  constructor
  · intro h
    rw [survey] at h
    split at h
    · cases h
    · next hfind =>
      split at h
      · cases h
      · next hreplace =>
        cases h
        exact ⟨⟨Pattern.ofText_eq_ok_iff.mp hfind, replacementOfText_eq_ok_iff.mp hreplace⟩, rfl⟩
  · rintro ⟨⟨hfind, hreplace⟩, hscan⟩
    rw [survey, Pattern.ofText_eq_ok_iff.mpr hfind]
    simp only [replacementOfText_eq_ok_iff.mpr hreplace, ← hscan]

/-! ### Plans -/

/-- The plan of a request for the given contents, allowed or denied. -/
structure Plans (rules : Rules) (data : Bytes) (request : Request) (plan : Plan) : Prop where
  reads : rules.Reads request plan.pattern plan.replacement
  /-- What would be replaced is what a scan finds. -/
  occurrences_eq : plan.occurrences = findAll data plan.pattern
  /-- If nothing is found, that is not to be reported. -/
  found : plan.occurrences = [] → rules.zeroMatch = .silent
  verdict_eq : plan.verdict = plan.toSurvey.verdict request.allowOverflow
  /-- The contents are known by their length and by their digest. -/
  sourceLength_eq : plan.sourceLength = data.length
  sourceDigest_eq : plan.sourceDigest = Digest.ofBytes data

theorem judge_eq_ok_iff :
    rules.judge data request s = .ok plan ↔
      (s.occurrences = [] → rules.zeroMatch = .silent) ∧
        plan = ⟨s, s.verdict request.allowOverflow, data.length, Digest.ofBytes data⟩ := by
  have hreport : (s.occurrences.isEmpty && rules.zeroMatch = .report) = true ↔
      ¬ (s.occurrences = [] → rules.zeroMatch = .silent) := by
    cases rules.zeroMatch <;> simp
  rw [judge]
  split_ifs with hnone
  · simp [hreport.mp hnone]
  · rw [hreport, not_not] at hnone
    constructor
    · intro h
      exact ⟨hnone, (Except.ok.inj h).symm⟩
    · rintro ⟨-, rfl⟩
      rfl

theorem evaluate_eq_ok_iff :
    rules.evaluate data request = .ok plan ↔ rules.Plans data request plan := by
  rw [evaluate]
  constructor
  · intro h
    split at h
    · cases h
    · next s hsurvey =>
      obtain ⟨hreads, hscan⟩ := survey_eq_ok_iff.mp hsurvey
      obtain ⟨hfound, rfl⟩ := judge_eq_ok_iff.mp h
      exact ⟨hreads, hscan, hfound, rfl, rfl, rfl⟩
  · intro h
    have hsurvey : rules.survey data request = .ok plan.toSurvey :=
      survey_eq_ok_iff.mpr ⟨h.reads, h.occurrences_eq⟩
    rw [hsurvey]
    refine judge_eq_ok_iff.mpr ⟨h.found, ?_⟩
    rw [← h.verdict_eq, ← h.sourceLength_eq, ← h.sourceDigest_eq]

theorem plan_eq_ok_iff :
    rules.plan data request = .ok plan ↔
      rules.Plans data request plan ∧ plan.verdict = .allowed := by
  rw [Rules.plan, ← evaluate_eq_ok_iff]
  constructor
  · intro h
    split at h
    · cases h
    · next heval =>
      split at h
      · cases h
      · next hallowed =>
        cases h
        exact ⟨heval, hallowed⟩
  · rintro ⟨heval, hallowed⟩
    rw [heval]
    simp only [hallowed]

theorem Plans.length_of_mem (h : rules.Plans data request plan) :
    ∀ o ∈ plan.occurrences, o.length = plan.pattern.length :=
  h.occurrences_eq ▸ length_of_mem_findAll

theorem Plans.unmatched_iff (h : rules.Plans data request plan) :
    plan.occurrences = [] ↔ ∀ i, ¬ plan.pattern.MatchesAt data i := by
  rw [h.occurrences_eq, findAll_eq_nil_iff]

/-- The length policy only matters where something would be replaced. -/
theorem Plans.allowed_iff (h : rules.Plans data request plan) :
    plan.verdict = .allowed ↔
      request.allowOverflow = true ∨ plan.replacement.length ≤ plan.pattern.length ∨
        plan.occurrences = [] := by
  rw [h.verdict_eq]
  exact Survey.verdict_eq_allowed_iff h.length_of_mem

/-- **A plan fits what it was made for**, and applying it there replaces every match. -/
theorem Plans.apply (h : rules.Plans data request plan) (hallowed : plan.verdict = .allowed) :
    plan.apply data = .ok (replaceAll plan.pattern plan.replacement data) := by
  rw [Plan.apply, hallowed]
  have hsame : ¬ (data.length ≠ plan.sourceLength ∨ Digest.ofBytes data ≠ plan.sourceDigest) := by
    rw [h.sourceLength_eq, h.sourceDigest_eq]
    simp
  simp only [if_neg hsame, h.occurrences_eq]
  exact splice_findAll plan.pattern plan.replacement data

/-- Whichever plan a request has, applying it puts the replacement that was asked for. -/
theorem Reads.eq_replaceAll_of_apply {p : Pattern} {replacement output : Bytes}
    (h : rules.Reads request p replacement) (hplan : rules.plan data request = .ok plan)
    (happly : plan.apply data = .ok output) : output = replaceAll p replacement data := by
  obtain ⟨hplans, hallowed⟩ := plan_eq_ok_iff.mp hplan
  obtain ⟨rfl, rfl⟩ := h.unique hplans.reads
  exact Except.ok.inj (happly.symm.trans (hplans.apply hallowed))

/-- A request that can be read has a plan, unless it finds nothing and that is to be reported. -/
theorem Reads.exists_plans {p : Pattern} {replacement : Bytes}
    (h : rules.Reads request p replacement)
    (hfound : rules.zeroMatch = .silent ∨ ∃ i, p.MatchesAt data i) :
    ∃ plan, rules.Plans data request plan ∧ plan.pattern = p ∧ plan.replacement = replacement := by
  let s : Survey := ⟨p, replacement, findAll data p⟩
  refine ⟨⟨s, s.verdict request.allowOverflow, data.length, Digest.ofBytes data⟩,
    ⟨h, rfl, fun hnone => ?_, rfl, rfl, rfl⟩, rfl, rfl⟩
  rcases hfound with hsilent | ⟨i, hm⟩
  · exact hsilent
  · exact absurd hm (findAll_eq_nil_iff.mp hnone i)

theorem Reads.exists_evaluate_iff {p : Pattern} {replacement : Bytes}
    (h : rules.Reads request p replacement) :
    (∃ plan, rules.evaluate data request = .ok plan) ↔
      rules.zeroMatch = .silent ∨ ∃ i, p.MatchesAt data i := by
  constructor
  · rintro ⟨plan, heval⟩
    have hplans := evaluate_eq_ok_iff.mp heval
    obtain ⟨rfl, -⟩ := h.unique hplans.reads
    by_cases hnone : plan.occurrences = []
    · exact Or.inl (hplans.found hnone)
    · rw [hplans.unmatched_iff, not_forall_not] at hnone
      exact Or.inr hnone
  · intro hfound
    obtain ⟨plan, hplans, -⟩ := h.exists_plans hfound
    exact ⟨plan, evaluate_eq_ok_iff.mpr hplans⟩

/-- When there is nothing to do. -/
theorem exists_plan_unmatched_iff :
    (∃ plan, rules.plan data request = .ok plan ∧ plan.occurrences = []) ↔
      rules.zeroMatch = .silent ∧
        ∃ p replacement, rules.Reads request p replacement ∧ ∀ i, ¬ p.MatchesAt data i := by
  constructor
  · rintro ⟨plan, hplan, hnone⟩
    obtain ⟨h, -⟩ := plan_eq_ok_iff.mp hplan
    exact ⟨h.found hnone, plan.pattern, plan.replacement, h.reads, h.unmatched_iff.mp hnone⟩
  · rintro ⟨hsilent, p, replacement, hreads, hmiss⟩
    have hfound : rules.zeroMatch = .silent ∨ ∃ i, p.MatchesAt data i := Or.inl hsilent
    obtain ⟨plan, h, rfl, -⟩ := hreads.exists_plans hfound
    have hnone : plan.occurrences = [] := h.unmatched_iff.mpr hmiss
    have hallowed := h.allowed_iff.mpr (Or.inr (Or.inr hnone))
    exact ⟨plan, plan_eq_ok_iff.mpr ⟨h, hallowed⟩, hnone⟩

end Rules

/-! ### Errors -/

/-- The error speaks of the request and of the contents, and not of carrying the request out. -/
def PatchError.IsValidation (e : PatchError) : Prop :=
  e.kind ≠ .illegalPlan ∧ e.kind ≠ .commitFailed

/-- The error keeps a request from having a plan at all. A denial by the length policy does not: it
is found in a plan. -/
def PatchError.IsInput (e : PatchError) : Prop :=
  e.IsValidation ∧ e.kind ≠ .overflow

theorem PatchError.isInput_ofEncodeFault (scheme : Encoding) (fault : EncodeFault) :
    (PatchError.ofEncodeFault scheme fault).IsInput :=
  ⟨⟨nofun, nofun⟩, nofun⟩

theorem Pattern.isInput_of_ofText {scheme : Encoding} {text : String}
    (h : Pattern.ofText scheme text = .error e) : e.IsInput := by
  rw [ofText] at h
  split at h
  · cases h
    exact PatchError.isInput_ofEncodeFault _ _
  · rw [ofBytes] at h
    split_ifs at h
    cases h
    exact ⟨⟨nofun, nofun⟩, nofun⟩

theorem isInput_of_replacementOfText {scheme : Encoding} {text : String}
    {nullTerminate : Bool} (h : replacementOfText scheme text nullTerminate = .error e) :
    e.IsInput := by
  rw [replacementOfText] at h
  split at h
  · cases h
    exact PatchError.isInput_ofEncodeFault _ _
  · cases h

/-- There is one reason for a denial. -/
theorem Survey.eq_overflow_of_verdict {allowOverflow : Bool}
    (h : s.verdict allowOverflow = .denied e) :
    e = .overflow s.pattern.length s.replacement.length := by
  rw [verdict] at h
  split_ifs at h
  exact (Verdict.denied.inj h).symm

namespace Rules

theorem isInput_of_survey (h : rules.survey data request = .error e) : e.IsInput := by
  rw [survey] at h
  split at h
  · next hfind =>
    cases h
    exact Pattern.isInput_of_ofText hfind
  · split at h
    · next hreplace =>
      cases h
      exact isInput_of_replacementOfText hreplace
    · cases h

theorem isInput_of_evaluate (h : rules.evaluate data request = .error e) : e.IsInput := by
  rw [evaluate] at h
  split at h
  · next hsurvey =>
    cases h
    exact isInput_of_survey hsurvey
  · rw [judge] at h
    split_ifs at h
    cases h
    exact ⟨⟨nofun, nofun⟩, nofun⟩

theorem Plans.kind_of_denied (h : rules.Plans data request plan)
    (hdenied : plan.verdict = .denied e) : e.kind = .overflow := by
  rw [Survey.eq_overflow_of_verdict (h.verdict_eq.symm.trans hdenied), PatchError.kind]

/-- A request has no plan that may be applied if it has none, or if the plan it has is denied. -/
theorem plan_eq_error_iff :
    rules.plan data request = .error e ↔
      rules.evaluate data request = .error e ∨
        ∃ plan, rules.evaluate data request = .ok plan ∧ plan.verdict = .denied e := by
  rw [Rules.plan]
  cases rules.evaluate data request with
  | error e' => simp
  | ok plan => cases hverdict : plan.verdict <;> simp [hverdict]

/-- **Planning turns a request down for its own sake only.** -/
theorem isValidation_of_plan (h : rules.plan data request = .error e) : e.IsValidation := by
  rcases plan_eq_error_iff.mp h with heval | ⟨plan, heval, hdenied⟩
  · exact (isInput_of_evaluate heval).1
  · have hkind := (evaluate_eq_ok_iff.mp heval).kind_of_denied hdenied
    simp [PatchError.IsValidation, hkind]

end Rules

end ByteSplice
