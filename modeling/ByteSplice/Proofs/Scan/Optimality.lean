import ByteSplice.Proofs.Scan
import Mathlib.Order.Bounds.Basic

/-!
# No choice of matches is larger

Where matches overlap, not all of them can be replaced, and there is more than one way to choose. A
scan takes the match it comes to first. It could be that a match which is passed over for that
leaves room for two others. This never happens, and the reason is that all matches have one length:
what starts first also ends first, so the scan is never behind.

A choice of matches is a list of offsets (`IsChoice`). Nothing is said of where they come from, and
a choice may leave out as many matches as it likes. By the time a choice has come to its match
number `k`, the scan has found that many, and its own match number `k` starts no later
(`IsChoice.exists_getElem?_occurrencesFrom`). The induction is on the scan. A match that the scan
takes costs a choice at most its first member, since what is left of it starts behind the end of
that one; an offset that the scan passes over was not to be chosen.

## Main definitions

* `IsChoice`

## Main results

* `IsChoice.exists_getElem?_findAll`, `IsChoice.length_le`
* `isChoice_findAll`
* `findAll_stays_ahead`
-/

namespace ByteSplice

variable {p : Pattern} {data rest : Bytes} {chosen more : List Nat} {i j k : Nat}

/-- Matches that may be replaced together, given by their offsets: each starts where the one before
it ends, or later. -/
structure IsChoice (p : Pattern) (data : Bytes) (chosen : List Nat) : Prop where
  matchesAt : ∀ j ∈ chosen, p.MatchesAt data j
  ordered : chosen.IsChain fun j k => j + p.length ≤ k

namespace IsChoice

theorem tail (h : IsChoice p data (j :: more)) : IsChoice p data more :=
  ⟨fun k hk => h.matchesAt k (List.mem_cons_of_mem _ hk), h.ordered.tail⟩

/-- What is chosen after a match starts behind its end. -/
theorem le_of_mem_tail (h : IsChoice p data (j :: more)) : ∀ k ∈ more, j + p.length ≤ k := by
  have htrans : IsTrans Nat fun j k => j + p.length ≤ k :=
    ⟨fun _ b _ hab hbc => hab.trans ((Nat.le_add_right b p.length).trans hbc)⟩
  exact (List.pairwise_cons.mp (List.isChain_iff_pairwise.mp h.ordered)).1

/-- **A scan is never behind a choice**, wherever the two start. -/
theorem exists_getElem?_occurrencesFrom (hchoice : IsChoice p data chosen)
    (hahead : ∀ j ∈ chosen, i ≤ j) (hrest : data.drop i = rest) (hj : chosen[k]? = some j) :
    ∃ o, (occurrencesFrom p i rest)[k]? = some o ∧ o.offset ≤ j := by
  induction i, rest using occurrencesFrom.induct p generalizing chosen k with
  | case1 i =>
    have hmem : j ∈ chosen := List.mem_of_getElem? hj
    have hend : data.length ≤ j := (List.drop_eq_nil_iff.mp hrest).trans (hahead j hmem)
    exact absurd (hchoice.matchesAt j hmem) (Pattern.not_matchesAt_of_length_le hend)
  | case2 i b rest hmatch ih =>
    rw [occurrencesFrom_of_isPrefix hmatch]
    cases chosen with
    | nil => simp at hj
    | cons first more =>
      obtain ⟨hfirst, -⟩ := List.forall_mem_cons.mp hahead
      cases k with
      | zero =>
        obtain rfl : first = j := by simpa using hj
        exact ⟨_, rfl, hfirst⟩
      | succ k =>
        have hbehind : ∀ m ∈ more, i + p.length ≤ m := fun m hm =>
          (Nat.add_le_add_right hfirst _).trans (hchoice.le_of_mem_tail m hm)
        have hdrop : data.drop (i + p.length) = (b :: rest).drop p.length := by
          rw [← hrest, List.drop_drop]
        exact ih hchoice.tail hbehind hdrop hj
  | case3 i b rest hmiss ih =>
    rw [occurrencesFrom_of_not_isPrefix hmiss]
    -- the pattern does not stand at the cursor, so nothing is chosen there
    have hbehind : ∀ m ∈ chosen, i + 1 ≤ m := by
      intro m hm
      refine Nat.lt_of_le_of_ne (hahead m hm) ?_
      rintro rfl
      exact hmiss (hrest ▸ Pattern.matchesAt_iff_isPrefix.mp (hchoice.matchesAt _ hm))
    exact ih hchoice hbehind (drop_succ_of_drop_eq_cons hrest) hj

theorem exists_getElem?_findAll (hchoice : IsChoice p data chosen) (hj : chosen[k]? = some j) :
    ∃ o, (findAll data p)[k]? = some o ∧ o.offset ≤ j := by
  rw [findAll_eq]
  exact hchoice.exists_getElem?_occurrencesFrom (fun j _ => Nat.zero_le j) List.drop_zero hj

/-- The last member of a choice has its counterpart in the scan, so there is one for each. -/
theorem length_le (hchoice : IsChoice p data chosen) : chosen.length ≤ count data p := by
  cases hlength : chosen.length with
  | zero => exact Nat.zero_le _
  | succ n =>
    have hlast : chosen[n]? = some chosen[n] := List.getElem?_eq_getElem (by omega)
    obtain ⟨o, ho, -⟩ := hchoice.exists_getElem?_findAll hlast
    exact (List.getElem?_eq_some_iff.mp ho).1

end IsChoice

/-- The scan is a choice itself. -/
theorem isChoice_findAll (data : Bytes) (p : Pattern) :
    IsChoice p data ((findAll data p).map Occurrence.offset) := by
  have hscan := isScanFrom_findAll data p
  refine ⟨List.forall_mem_map.mpr fun o ho => (hscan.exact_match o ho).2, ?_⟩
  refine (List.isChain_map _).mpr (hscan.ordered.imp_of_mem_imp ?_)
  intro a b ha _ hbefore
  rwa [Occurrence.Before, Occurrence.stop, length_of_mem_findAll a ha] at hbefore

/-- **A scan finds as many matches as can be replaced together.** Any other choice has a match
number `k` only if the scan has, and not before the scan. -/
theorem findAll_stays_ahead (data : Bytes) (p : Pattern) :
    (∀ chosen : List Nat, IsChoice p data chosen →
      chosen.length ≤ (findAll data p).length ∧
        ∀ (k j : Nat), chosen[k]? = some j →
          ∃ o : Occurrence, (findAll data p)[k]? = some o ∧ o.offset ≤ j) ∧
      IsGreatest {n | ∃ chosen, IsChoice p data chosen ∧ chosen.length = n} (count data p) := by
  refine ⟨fun chosen hchoice => ?_, ?_, ?_⟩
  · exact ⟨hchoice.length_le, fun k j hj => hchoice.exists_getElem?_findAll hj⟩
  · exact ⟨_, isChoice_findAll data p, List.length_map _⟩
  · rintro n ⟨chosen, hchoice, rfl⟩
    exact hchoice.length_le

end ByteSplice
