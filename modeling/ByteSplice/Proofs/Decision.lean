import ByteSplice.Proofs.Planning

/-!
# What planning decides

Several things can be wrong with a request at once, and planning reports one of them. Which one is
said by `Rules.Rejects`: its cases are the reasons in the order in which they are looked for, and
each supposes that those before it do not hold. So an empty search text is reported whatever the
replacement is, and nothing is looked up in the contents before both texts are in bytes.

A request that is not rejected has a plan, and what the plan is leaves no choice either. Only the
verdict depends on whether replacements may be longer than what they replace. With that permission
everything is as without it, except that no plan is denied (`Rules.evaluate_unrestricted`).

## Main definitions

* `Rules.Rejects`

## Main results

* `Rules.evaluate_eq_error_iff`
* `Rules.plans_iff`
* `Rules.evaluate_unrestricted`
* `Rules.planning_decides`
-/

namespace ByteSplice

variable {rules : Rules} {request : Request} {data : Bytes} {plan : Plan} {s : Survey}
  {e : PatchError}

/-! ### Requests without a plan -/

theorem Pattern.ofText_eq_error_iff {scheme : Encoding} {text : String} :
    Pattern.ofText scheme text = .error e ↔
      (∃ fault, scheme.encode text = .error fault ∧ e = .ofEncodeFault scheme fault) ∨
        scheme.encode text = .ok [] ∧ e = .emptyPattern := by
  rw [ofText]
  cases scheme.encode text with
  | error fault => simp [eq_comm]
  | ok bytes =>
    simp only [ofBytes]
    split_ifs with hempty
    · simp [hempty, eq_comm]
    · simp [hempty]

theorem replacementOfText_eq_error_iff {scheme : Encoding} {text : String}
    {nullTerminate : Bool} :
    replacementOfText scheme text nullTerminate = .error e ↔
      ∃ fault, scheme.encode text = .error fault ∧ e = .ofEncodeFault scheme fault := by
  rw [replacementOfText]
  cases scheme.encode text with
  | error fault => simp [eq_comm]
  | ok bytes => simp

/-- Occurrences of one length all grow or all do not, and what grows needs permission. -/
theorem Survey.verdict_eq_ite (s : Survey) (h : ∀ o ∈ s.occurrences, o.length = s.pattern.length)
    (allowOverflow : Bool) :
    s.verdict allowOverflow =
      if s.occurrences ≠ [] ∧ s.pattern.length < s.replacement.length ∧ allowOverflow = false then
        .denied (.overflow s.pattern.length s.replacement.length)
      else .allowed := by
  rw [verdict]
  refine if_congr ?_ rfl rfl
  rw [Bool.and_eq_true, any_grows_iff h, Bool.not_eq_true', and_assoc]
  exact and_left_comm

namespace Rules

/-- Why a request has no plan for the given contents. The reasons come in the order in which they
are looked for. -/
inductive Rejects (rules : Rules) (data : Bytes) (request : Request) : PatchError → Prop
  /-- The search text cannot be encoded. -/
  | findFault {fault : EncodeFault}
      (hfind : rules.encoding.encode request.findText = .error fault) :
      Rejects rules data request (.ofEncodeFault rules.encoding fault)
  /-- The search text has no bytes. Whether the replacement can be encoded has no say in it. -/
  | findEmpty (hfind : rules.encoding.encode request.findText = .ok []) :
      Rejects rules data request .emptyPattern
  /-- The replacement cannot be encoded. -/
  | replaceFault {p : Pattern} {fault : EncodeFault}
      (hfind : rules.encoding.encode request.findText = .ok p.bytes)
      (hreplace : rules.encoding.encode request.replaceText = .error fault) :
      Rejects rules data request (.ofEncodeFault rules.encoding fault)
  /-- Nothing is found, and that is to be reported. -/
  | unmatched {p : Pattern} {replacement : Bytes} (hreads : rules.Reads request p replacement)
      (hmiss : ∀ i, ¬ p.MatchesAt data i) (hreport : rules.zeroMatch = .report) :
      Rejects rules data request .notFound

theorem survey_eq_error_iff :
    rules.survey data request = .error e ↔
      Pattern.ofText rules.encoding request.findText = .error e ∨
        ∃ p, Pattern.ofText rules.encoding request.findText = .ok p ∧
          replacementOfText rules.encoding request.replaceText request.nullTerminate =
            .error e := by
  rw [survey]
  cases Pattern.ofText rules.encoding request.findText with
  | error e' => simp
  | ok p =>
    cases replacementOfText rules.encoding request.replaceText request.nullTerminate <;> simp

theorem judge_eq_error_iff :
    rules.judge data request s = .error e ↔
      s.occurrences = [] ∧ rules.zeroMatch = .report ∧ e = .notFound := by
  rw [judge]
  split_ifs with hnone
  · rw [Bool.and_eq_true, List.isEmpty_iff, decide_eq_true_eq] at hnone
    simp [hnone, eq_comm]
  · rw [Bool.and_eq_true, List.isEmpty_iff, decide_eq_true_eq] at hnone
    exact iff_of_false (by simp) fun h => hnone ⟨h.1, h.2.1⟩

/-- **Why a request has no plan.** -/
theorem evaluate_eq_error_iff :
    rules.evaluate data request = .error e ↔ rules.Rejects data request e := by
  rw [evaluate]
  constructor
  · intro h
    split at h
    · next hsurvey =>
      cases h
      rcases survey_eq_error_iff.mp hsurvey with hfind | ⟨p, hfind, hreplace⟩
      · rcases Pattern.ofText_eq_error_iff.mp hfind with ⟨fault, hfault, rfl⟩ | ⟨hempty, rfl⟩
        · exact .findFault hfault
        · exact .findEmpty hempty
      · obtain ⟨fault, hfault, rfl⟩ := replacementOfText_eq_error_iff.mp hreplace
        exact .replaceFault (Pattern.ofText_eq_ok_iff.mp hfind) hfault
    · next s hsurvey =>
      obtain ⟨hreads, hscan⟩ := survey_eq_ok_iff.mp hsurvey
      obtain ⟨hnone, hreport, rfl⟩ := judge_eq_error_iff.mp h
      exact .unmatched hreads (findAll_eq_nil_iff.mp (hscan.symm.trans hnone)) hreport
  · intro h
    cases h with
    | findFault hfind =>
      have hpattern := Pattern.ofText_eq_error_iff.mpr (Or.inl ⟨_, hfind, rfl⟩)
      rw [survey_eq_error_iff.mpr (Or.inl hpattern)]
    | findEmpty hfind =>
      have hpattern := Pattern.ofText_eq_error_iff.mpr (Or.inr ⟨hfind, rfl⟩)
      rw [survey_eq_error_iff.mpr (Or.inl hpattern)]
    | replaceFault hfind hreplace =>
      have hpattern := Pattern.ofText_eq_ok_iff.mpr hfind
      rw [survey_eq_error_iff.mpr (Or.inr ⟨_, hpattern,
        replacementOfText_eq_error_iff.mpr ⟨_, hreplace, rfl⟩⟩)]
    | @unmatched p replacement hreads hmiss hreport =>
      have hsurvey : rules.survey data request = .ok ⟨p, replacement, findAll data p⟩ :=
        survey_eq_ok_iff.mpr ⟨hreads, rfl⟩
      rw [hsurvey]
      exact judge_eq_error_iff.mpr ⟨findAll_eq_nil_iff.mpr hmiss, hreport, rfl⟩

/-! ### Plans -/

/-- **What the plan of a request is made of.** Its verdict is a denial just if something would be
replaced by something longer without permission. -/
theorem plans_iff :
    rules.Plans data request plan ↔
      rules.Reads request plan.pattern plan.replacement ∧
      plan.occurrences = findAll data plan.pattern ∧
      (plan.occurrences = [] → rules.zeroMatch = .silent) ∧
      plan.sourceLength = data.length ∧ plan.sourceDigest = Digest.ofBytes data ∧
      plan.verdict =
        if plan.occurrences ≠ [] ∧ plan.pattern.length < plan.replacement.length ∧
            request.allowOverflow = false then
          .denied (.overflow plan.pattern.length plan.replacement.length)
        else .allowed := by
  have hverdict (hscan : plan.occurrences = findAll data plan.pattern) :=
    plan.toSurvey.verdict_eq_ite (hscan ▸ length_of_mem_findAll) request.allowOverflow
  constructor
  · intro h
    exact ⟨h.reads, h.occurrences_eq, h.found, h.sourceLength_eq, h.sourceDigest_eq,
      h.verdict_eq.trans (hverdict h.occurrences_eq)⟩
  · rintro ⟨hreads, hscan, hfound, hlength, hdigest, hite⟩
    exact ⟨hreads, hscan, hfound, hite.trans (hverdict hscan).symm, hlength, hdigest⟩

/-- **The permission to grow changes the verdict and nothing else.** -/
theorem evaluate_unrestricted (rules : Rules) (data : Bytes) (request : Request) :
    rules.evaluate data { request with allowOverflow := true } =
      (rules.evaluate data request).map fun plan => { plan with verdict := .allowed } := by
  have hsurvey : rules.survey data { request with allowOverflow := true } =
      rules.survey data request := rfl
  rw [evaluate, evaluate, hsurvey]
  cases rules.survey data request with
  | error e => rfl
  | ok s =>
    simp only [judge]
    split_ifs
    · rfl
    · simp [Except.map, Survey.verdict]

/-- A plan that may be applied without the permission is the plan with it. -/
theorem plan_unrestricted_of_ok (h : rules.plan data request = .ok plan) :
    rules.plan data { request with allowOverflow := true } = .ok plan := by
  obtain ⟨hplans, hallowed⟩ := plan_eq_ok_iff.mp h
  refine plan_eq_ok_iff.mpr ⟨evaluate_eq_ok_iff.mp ?_, hallowed⟩
  rw [evaluate_unrestricted, evaluate_eq_ok_iff.mpr hplans, Except.map, ← hallowed]

/-- Nor does the permission help against anything but a denial. -/
theorem plan_unrestricted_of_error (h : rules.plan data request = .error e)
    (hkind : e.kind ≠ .overflow) :
    rules.plan data { request with allowOverflow := true } = .error e := by
  refine plan_eq_error_iff.mpr (Or.inl ?_)
  rcases plan_eq_error_iff.mp h with heval | ⟨plan, heval, hdenied⟩
  · rw [evaluate_unrestricted, heval, Except.map]
  · exact absurd ((evaluate_eq_ok_iff.mp heval).kind_of_denied hdenied) hkind

/-- A denied plan is the one that may be applied with the permission. -/
theorem plan_unrestricted_of_overflow (h : rules.plan data request = .error e)
    (hkind : e.kind = .overflow) :
    ∃ plan, rules.evaluate data request = .ok plan ∧ plan.verdict = .denied e ∧
      rules.plan data { request with allowOverflow := true } =
        .ok { plan with verdict := .allowed } := by
  rcases plan_eq_error_iff.mp h with heval | ⟨plan, heval, hdenied⟩
  · exact absurd hkind (isInput_of_evaluate heval).2
  · refine ⟨plan, heval, hdenied, plan_eq_ok_iff.mpr ⟨evaluate_eq_ok_iff.mp ?_, rfl⟩⟩
    rw [evaluate_unrestricted, heval, Except.map]

/-- **What planning decides**, for every request and all contents.

A request has no plan for one reason, the first of those that hold; otherwise it has one plan, which
is what a scan finds, with a verdict. Where a plan may be applied `Rules.plan` gives it, and where
it is denied the reason. The permission to grow turns a denial into the same plan without the
denial, and changes nothing else. -/
theorem planning_decides (rules : Rules) (data : Bytes) (request : Request) :
    let free : Request := { request with allowOverflow := true }
    (∀ e, rules.evaluate data request = .error e ↔ rules.Rejects data request e) ∧
    (∀ plan, rules.evaluate data request = .ok plan ↔
      rules.Reads request plan.pattern plan.replacement ∧
      plan.occurrences = findAll data plan.pattern ∧
      (plan.occurrences = [] → rules.zeroMatch = .silent) ∧
      plan.sourceLength = data.length ∧ plan.sourceDigest = Digest.ofBytes data ∧
      plan.verdict =
        if plan.occurrences ≠ [] ∧ plan.pattern.length < plan.replacement.length ∧
            request.allowOverflow = false then
          .denied (.overflow plan.pattern.length plan.replacement.length)
        else .allowed) ∧
    (∀ plan, rules.plan data request = .ok plan ↔
      rules.evaluate data request = .ok plan ∧ plan.verdict = .allowed) ∧
    (∀ e, rules.plan data request = .error e ↔
      rules.evaluate data request = .error e ∨
        ∃ plan, rules.evaluate data request = .ok plan ∧ plan.verdict = .denied e) ∧
    rules.evaluate data free =
      (rules.evaluate data request).map (fun plan => { plan with verdict := .allowed }) ∧
    (∀ plan, rules.plan data request = .ok plan → rules.plan data free = .ok plan) ∧
    (∀ e, rules.plan data request = .error e → e.kind ≠ .overflow →
      rules.plan data free = .error e) ∧
    (∀ e, rules.plan data request = .error e → e.kind = .overflow →
      ∃ plan, rules.evaluate data request = .ok plan ∧ plan.verdict = .denied e ∧
        rules.plan data free = .ok { plan with verdict := .allowed }) := by
  intro free
  refine ⟨fun e => evaluate_eq_error_iff, fun plan => evaluate_eq_ok_iff.trans plans_iff,
    fun plan => plan_eq_ok_iff.trans (and_congr_left' evaluate_eq_ok_iff.symm),
    fun e => plan_eq_error_iff, evaluate_unrestricted rules data request,
    fun plan => plan_unrestricted_of_ok, fun e => plan_unrestricted_of_error,
    fun e => plan_unrestricted_of_overflow⟩

/-- Blanks are no bytes in hexadecimal, and that is said first, although the replacement is not
hexadecimal at all. -/
example :
    ({ encoding := .hex } : Rules).evaluate [0, 1] { findText := " \t", replaceText := "zz" } =
      .error .emptyPattern := by
  rfl

/-- The zero byte alone makes the replacement too long, but not where nothing is found. -/
example :
    (({} : Rules).evaluate [0x61, 0x62] { findText := "b", replaceText := "c" }).toOption.map
        Plan.verdict = some (.denied (.overflow 1 2)) ∧
      (({} : Rules).evaluate [0x61] { findText := "b", replaceText := "c" }).toOption.map
        Plan.verdict = some .allowed := by
  decide +kernel

end Rules

end ByteSplice
