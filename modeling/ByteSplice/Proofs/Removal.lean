import ByteSplice.Proofs.Decision
import ByteSplice.Proofs.Observation

/-!
# Replacements that leave nothing to replace

A scan takes one match of two that overlap, and the other goes only because it has lost some bytes.
What is written between the bytes that stay may lie beside them in such a way that there is a match
again. So there may be something to find where everything was replaced: if `ab` is replaced by
nothing, `aabb` becomes `ab`.

This cannot be where the replacement has at least one byte and none that the pattern has
(`not_matchesAt_replaceAll`). A match would have to begin at a byte that stayed, and to end before
the next byte that was written. All its bytes would have been there before, side by side, and the
scan would have come to them.

To carry out such a request again is then to find nothing (`Rules.Ends.result_of_silent`,
`Rules.Ends.result_of_report`).

## Main results

* `not_matchesAt_replaceAll`
* `Rules.Ends.result_of_silent`, `Rules.Ends.result_of_report`
* `Rules.disjoint_request_is_idempotent`
-/

namespace ByteSplice

variable {p : Pattern} {r data : Bytes}

/-! ### In bytes -/

/-- **Nothing is left to replace**, and nothing new has come up, if the replacement has none of the
bytes of the pattern. -/
theorem not_matchesAt_replaceAll (hdisjoint : List.Disjoint p.bytes r) (hr : r ≠ []) (i : Nat) :
    ¬ p.MatchesAt (replaceAll p r data) i := by
  rw [Pattern.matchesAt_iff_isPrefix]
  induction data using replaceAll.induct p generalizing i with
  | case1 =>
    rw [replaceAll_nil, List.drop_nil]
    exact fun h => p.bytes_ne_nil (List.prefix_nil.mp h)
  | case2 b rest hmatch ih =>
    rw [replaceAll_of_isPrefix hmatch]
    -- a match begins neither in what was written nor, by the induction, behind it
    rcases Nat.lt_or_ge i r.length with hin | hbehind
    · exact not_isPrefix_drop_of_disjoint hdisjoint i hin
    · rw [List.drop_append, List.drop_of_length_le hbehind, List.nil_append]
      exact ih _
  | case3 b rest hmiss ih =>
    cases i with
    | zero => exact mt (isPrefix_of_isPrefix_replaceAll hdisjoint hr) hmiss
    | succ i =>
      rw [replaceAll_of_not_isPrefix hmiss]
      exact ih i

/-- A replacement of no bytes brings together what was on either side of a match. -/
example : replaceAll ⟨[1, 2], by decide⟩ [] [1, 1, 2, 2] = [1, 2] := by
  cbv

/-! ### In requests -/

namespace Rules

variable {rules : Rules} {request : Request} {site : Site} {observers : List Observer}
  {x : Execution}

section Unmatched

variable (h : rules.Ends site observers request x) (hreads : rules.Reads request p r)
  (hmiss : ∀ i, ¬ p.MatchesAt site.resource.data i)

include h hreads hmiss

theorem Ends.result_of_silent (hsilent : rules.zeroMatch = .silent) :
    x.result = .ok site.resource.unchanged := by
  obtain ⟨plan, hplan, hnone⟩ := exists_plan_unmatched_iff.mpr ⟨hsilent, p, r, hreads, hmiss⟩
  cases h with
  | rejected hplan' => cases hplan.symm.trans hplan'
  | unmatched => rfl
  | uncommitted hplan' hsome | changed hplan' hsome =>
    cases hplan.symm.trans hplan'
    exact absurd hnone hsome

theorem Ends.result_of_report (hreport : rules.zeroMatch = .report) :
    x.result = .error .notFound := by
  have hrejects : rules.Rejects site.resource.data request .notFound :=
    .unmatched hreads hmiss hreport
  have hplan := plan_eq_error_iff.mpr (Or.inl (evaluate_eq_error_iff.mpr hrejects))
  cases h with
  | rejected hplan' =>
    cases hplan.symm.trans hplan'
    rfl
  | unmatched hplan' | uncommitted hplan' | changed hplan' => cases hplan.symm.trans hplan'

end Unmatched

/-- What a request leaves, if it is carried out, is what one pass makes of the contents. -/
theorem Reads.data_eq_replaceAll (hreads : rules.Reads request p r)
    (h : rules.Ends site observers request x) {o : Outcome} (ho : x.result = .ok o) :
    x.site.resource.data = replaceAll p r site.resource.data := by
  obtain ⟨plan, hplan, happly, -⟩ := h.outcome ho
  exact hreads.eq_replaceAll_of_apply hplan happly

/-- **A request whose replacement has no byte of the pattern has nothing to do a second time.** It
is carried out on any site that can be written to, if it has a plan. Wherever it was carried out
there is no match any more. To carry it out again, whoever watches, comes to nothing but the answer
that the policy on no match gives. -/
theorem disjoint_request_is_idempotent (site : Site) (observers : List Observer)
    (hreads : rules.Reads request p r) (hdisjoint : List.Disjoint p.bytes r) (hr : r ≠ []) :
    let x := rules.execute site observers request
    (site.IsWritable → (∃ plan, rules.plan site.resource.data request = .ok plan) →
      ∃ o, x.result = .ok o) ∧
    ∀ o, x.result = .ok o →
      (∀ i, ¬ p.MatchesAt x.site.resource.data i) ∧
      ∀ policy observers',
        let y := { rules with zeroMatch := policy }.execute x.site observers' request
        (policy = .silent → y.result = .ok x.site.resource.unchanged) ∧
        (policy = .report → y.result = .error .notFound) ∧
        y.LeavesAlone x.site observers' ∧ y.event x.site.resource.data = none := by
  intro x
  have hx : rules.Ends site observers request x := rules.execute_ends site observers request
  refine ⟨fun hwritable ⟨plan, hplan⟩ => (hx.replaced hplan hwritable).1, fun o ho => ?_⟩
  have hmiss : ∀ i, ¬ p.MatchesAt x.site.resource.data i := by
    rw [hreads.data_eq_replaceAll hx ho]
    exact not_matchesAt_replaceAll hdisjoint hr
  refine ⟨hmiss, ?_⟩
  intro policy observers' y
  have hy := execute_ends { rules with zeroMatch := policy } x.site observers' request
  -- the texts are read without regard to the policy
  have hreads' : Reads { rules with zeroMatch := policy } request p r :=
    ⟨hreads.find, hreads.replace⟩
  have hsilent := hy.result_of_silent hreads' hmiss
  have hreport := hy.result_of_report hreads' hmiss
  have hidle : ¬ ∃ o, y.result = .ok o ∧ o.changed = true := by
    cases policy with
    | silent => simp [y, hsilent rfl, Resource.unchanged]
    | report => simp [y, hreport rfl]
  exact ⟨hsilent, hreport, hy.leavesAlone hidle, Execution.event_of_not_changed hidle⟩

/-- A match is surrounded by the two halves of another one, which the replacement and its zero byte
keep apart. -/
theorem disjoint_request_is_idempotent_apart :
    let rules : Rules := { encoding := .hex }
    let request : Request := ⟨"0102", "07", true, false⟩
    let site : Site := { resource := .memory "image" [1, 1, 2, 2, 1, 2] false }
    ∃ x, x = rules.execute site [.recording []] request ∧ (∃ o, x.result = .ok o) ∧
      x.site.resource.data = [1, 7, 0, 2, 7, 0] ∧
      (rules.execute x.site x.observers request).result = .ok x.site.resource.unchanged ∧
      ({ rules with zeroMatch := .report }.execute x.site x.observers request).result =
        .error .notFound := by
  intro rules request site
  have hfind : Encoding.hex.encode "0102" = .ok [1, 2] := rfl
  have hreplace : Encoding.hex.encode "07" = .ok [7] := rfl
  have hreads : rules.Reads request ⟨[1, 2], by decide⟩ [7, 0] := ⟨hfind, [7], hreplace, rfl⟩
  have hdisjoint : List.Disjoint [1, 2] ([7, 0] : Bytes) := by simp
  have hwritable : site.IsWritable := rfl
  have hbytes : replaceAll ⟨[1, 2], by decide⟩ [7, 0] site.resource.data = [1, 7, 0, 2, 7, 0] := by
    cbv
  obtain ⟨plan, hplans, hpattern, hreplacement⟩ :
      ∃ plan, rules.Plans site.resource.data request plan ∧ plan.pattern = ⟨[1, 2], by decide⟩ ∧
        plan.replacement = [7, 0] :=
    hreads.exists_plans (Or.inl rfl)
  have hfits : plan.replacement.length ≤ plan.pattern.length := by
    rw [hpattern, hreplacement]
    exact Nat.le_refl 2
  have hallowed := hplans.allowed_iff.mpr (Or.inr (Or.inl hfits))
  obtain ⟨hdone, hagain⟩ :=
    disjoint_request_is_idempotent site [.recording []] hreads hdisjoint (by decide)
  obtain ⟨o, ho⟩ := hdone hwritable ⟨plan, plan_eq_ok_iff.mpr ⟨hplans, hallowed⟩⟩
  have hdata := hreads.data_eq_replaceAll (rules.execute_ends site [.recording []] request) ho
  obtain ⟨-, hresults⟩ := hagain o ho
  exact ⟨_, rfl, ⟨o, ho⟩, hdata.trans hbytes, (hresults .silent _).1 rfl,
    (hresults .report _).2.1 rfl⟩

end Rules

end ByteSplice
