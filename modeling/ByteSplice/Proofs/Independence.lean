import ByteSplice.Proofs.FileExecution
import ByteSplice.Proofs.Rewriting

/-!
# Requests that do not get in each other's way

Two requests are carried out one after the other. The second finds other contents than it would have
found before, with other offsets, and yet it may be that nobody can tell which of the two was first.
It is so where the two have nothing to do with each other (`Apart`). The patterns have no byte in
common, neither is there a byte of the one pattern in what the other is replaced by, and neither
replacement is empty.

The last is needed as well. To replace something by nothing is to bring together what was on either
side of it, and that may be the two halves of a match.

## Cases

Patterns that have no byte in common have no matches that overlap. So any bytes fall into matches of
the one, matches of the other, and single bytes at which neither begins (`patterns_induction`). What
is said of both replacements is said of each of these in turn. Only at a single byte is there
something to show, namely that still no match begins there once what is behind it has been replaced
(`Apart.isPrefix_replaceAll_iff`).

For requests this leaves the length policy. What it decides depends on the number of matches, and
that is the same in either order (`Apart.count_replaceAll`).

## Main definitions

* `Apart`

## Main results

* `Apart.count_replaceAll`, `Apart.replaceAll_comm`
* `Rules.Reads.count_rewritten`, `Rules.Reads.rewritten_comm`
* `Rules.apart_requests_commute`
-/

namespace ByteSplice

variable {p q : Pattern} {r s data : Bytes}

/-! ### Two patterns -/

/-- Bytes are made up of the matches of one pattern, those of another, and single bytes where
neither begins. -/
theorem patterns_induction (p q : Pattern) {motive : Bytes → Prop} (nil : motive [])
    (left : ∀ rest, motive rest → motive (p.bytes ++ rest))
    (right : ∀ rest, motive rest → motive (q.bytes ++ rest))
    (other : ∀ b rest, ¬ p.bytes <+: b :: rest → ¬ q.bytes <+: b :: rest → motive rest →
      motive (b :: rest)) (data : Bytes) : motive data := by
  induction hlength : data.length using Nat.strong_induction_on generalizing data with
  | h n ih =>
    subst hlength
    by_cases hp : p.bytes <+: data
    · obtain ⟨rest, rfl⟩ := hp
      have hpos := p.length_pos
      refine left rest (ih _ ?_ rest rfl)
      rw [List.length_append, ← Pattern.length]
      omega
    by_cases hq : q.bytes <+: data
    · obtain ⟨rest, rfl⟩ := hq
      have hpos := q.length_pos
      refine right rest (ih _ ?_ rest rfl)
      rw [List.length_append, ← Pattern.length]
      omega
    cases data with
    | nil => exact nil
    | cons b rest => exact other b rest hp hq (ih _ (Nat.lt_succ_self _) rest rfl)

/-- Two replacements have nothing to do with each other. What they put in may have bytes in common,
but no pattern shares a byte with the other one or with what that is replaced by. -/
structure Apart (p : Pattern) (r : Bytes) (q : Pattern) (s : Bytes) : Prop where
  patterns : List.Disjoint p.bytes q.bytes
  left : List.Disjoint q.bytes r
  right : List.Disjoint p.bytes s
  left_ne_nil : r ≠ []
  right_ne_nil : s ≠ []

namespace Apart

theorem symm (h : Apart p r q s) : Apart q s p r :=
  ⟨List.disjoint_symm h.patterns, h.right, h.left, h.right_ne_nil, h.left_ne_nil⟩

/-- A match of the one pattern is there before the other is replaced just if it is there
afterwards. -/
theorem isPrefix_replaceAll_iff (h : Apart p r q s) :
    q.bytes <+: replaceAll p r data ↔ q.bytes <+: data :=
  ⟨isPrefix_of_isPrefix_replaceAll h.left h.left_ne_nil, isPrefix_replaceAll h.symm.patterns⟩

/-- **Neither replacement makes or destroys a match of the other pattern.** -/
theorem count_replaceAll (h : Apart p r q s) (data : Bytes) :
    count (replaceAll p r data) q = count data q := by
  induction data using patterns_induction p q with
  | nil => rw [replaceAll_nil]
  | left rest ih =>
    rw [replaceAll_pattern_append, count_append_of_disjoint h.left, ih,
      count_append_of_disjoint h.symm.patterns]
  | right rest ih =>
    rw [replaceAll_append_of_disjoint h.patterns, count_pattern_append, count_pattern_append, ih]
  | other b rest hp hq ih =>
    have hq' : ¬ q.bytes <+: b :: replaceAll p r rest := by
      rwa [← replaceAll_of_not_isPrefix hp, h.isPrefix_replaceAll_iff]
    rw [replaceAll_of_not_isPrefix hp, count_of_not_isPrefix hq', count_of_not_isPrefix hq, ih]

/-- **The order of the two replacements does not matter.** -/
theorem replaceAll_comm (h : Apart p r q s) (data : Bytes) :
    replaceAll q s (replaceAll p r data) = replaceAll p r (replaceAll q s data) := by
  induction data using patterns_induction p q with
  | nil => simp only [replaceAll_nil]
  | left rest ih =>
    rw [replaceAll_pattern_append, replaceAll_append_of_disjoint h.left, ih,
      replaceAll_append_of_disjoint h.symm.patterns, replaceAll_pattern_append]
  | right rest ih =>
    rw [replaceAll_append_of_disjoint h.patterns, replaceAll_pattern_append, ih,
      replaceAll_pattern_append, replaceAll_append_of_disjoint h.right]
  | other b rest hp hq ih =>
    have hq' : ¬ q.bytes <+: b :: replaceAll p r rest := by
      rwa [← replaceAll_of_not_isPrefix hp, h.isPrefix_replaceAll_iff]
    have hp' : ¬ p.bytes <+: b :: replaceAll q s rest := by
      rwa [← replaceAll_of_not_isPrefix hq, h.symm.isPrefix_replaceAll_iff]
    rw [replaceAll_of_not_isPrefix hp, replaceAll_of_not_isPrefix hq',
      replaceAll_of_not_isPrefix hq, replaceAll_of_not_isPrefix hp', ih]

/-- An empty replacement brings the halves of a match together, and then the order counts. -/
example :
    replaceAll ⟨[1, 1], by decide⟩ [3] (replaceAll ⟨[2], by decide⟩ [] [1, 2, 1]) = [3] ∧
      replaceAll ⟨[2], by decide⟩ [] (replaceAll ⟨[1, 1], by decide⟩ [3] [1, 2, 1]) = [1, 1] := by
  constructor <;> cbv

end Apart

/-! ### Two requests -/

namespace Rules

variable {rules rules' : Rules} {request request' : Request} {site : Site}
  {observers observers' : List Observer} {x y z : Execution}

section Reads

variable (hreads : rules.Reads request p r) (hreads' : rules'.Reads request' q s)
  (hsilent : rules.zeroMatch = .silent) (hsilent' : rules'.zeroMatch = .silent)
  (hapart : Apart p r q s)

include hreads hsilent hapart

/-- **A request leaves the matches of the other one**, whether it is let through or not. -/
theorem Reads.count_rewritten (data : Bytes) :
    count (rules.rewritten data request) q = count data q := by
  rw [hreads.rewritten_eq hsilent]
  split_ifs with hpermits
  · exact hapart.count_replaceAll data
  · rfl

include hreads' hsilent'

theorem Reads.rewritten_comm (data : Bytes) :
    rules'.rewritten (rules.rewritten data request) request' =
      rules.rewritten (rules'.rewritten data request') request := by
  rw [hreads'.rewritten_eq hsilent', hreads.rewritten_eq hsilent (rules'.rewritten data request'),
    hreads.count_rewritten hsilent hapart, hreads'.count_rewritten hsilent' hapart.symm,
    hreads.rewritten_eq hsilent, hreads'.rewritten_eq hsilent']
  split_ifs with hpermits' hpermits
  · exact hapart.replaceAll_comm data
  all_goals rfl

/-- The second request answers what it would have answered without the first. -/
theorem Reads.occurrences_after (hx : rules.Ends site observers request x)
    (hy : rules'.Ends x.site observers' request' y) (hz : rules'.Ends site observers request' z)
    (hwritable : site.IsWritable) (hrenews : site.RenewsBackup) :
    y.result.map Outcome.occurrences = z.result.map Outcome.occurrences := by
  have hdata : x.site.resource.data = rules.rewritten site.resource.data request := by
    rw [hx.resource_of_isWritable hwritable, Resource.data_withData]
  rw [hreads'.occurrences_eq hsilent' hy (hx.isWritable hwritable hrenews),
    hreads'.occurrences_eq hsilent' hz hwritable, hdata, hreads.count_rewritten hsilent hapart]

end Reads

/-- What two requests leave on a writable site. -/
theorem Ends.resource_after (hx : rules.Ends site observers request x)
    (hy : rules'.Ends x.site observers' request' y) (hwritable : site.IsWritable)
    (hrenews : site.RenewsBackup) :
    y.site.resource = site.resource.withData
      (rules'.rewritten (rules.rewritten site.resource.data request) request') := by
  rw [hy.resource_of_isWritable (hx.isWritable hwritable hrenews),
    hx.resource_of_isWritable hwritable, Resource.data_withData, Resource.withData_withData]

/-- After two requests on a file the file has what the resource has. -/
theorem Ends.read_after (hx : rules.Ends site observers request x)
    (hy : rules'.Ends x.site observers' request' y) (hwritable : site.IsWritable) {path : Path}
    {keepBackup : Bool} (hfile : site.resource = .file path site.resource.data keepBackup)
    (hread : site.tree.read path = .ok site.resource.data) :
    y.site.tree.read path = .ok y.site.resource.data := by
  have hfile' : x.site.resource = .file path x.site.resource.data keepBackup := by
    rw [hx.resource_of_isWritable hwritable, hfile]
    rfl
  exact hy.read_eq hfile' (hx.read_eq hfile hread)

/-- **Requests that have nothing to do with each other commute.** Whichever comes first, each is
turned down with the same error or counts the same occurrences, and in the end the resource is the
same. If it is a file that nobody else has written to, the file is the same too.

Both requests have to be able to write. A file that is only to be read has its backup made by the
first of them, whichever that is, and then refuses the second. -/
theorem apart_requests_commute (observers : List Observer) (hreads : rules.Reads request p r)
    (hreads' : rules'.Reads request' q s) (hsilent : rules.zeroMatch = .silent)
    (hsilent' : rules'.zeroMatch = .silent) (hapart : Apart p r q s)
    (hwritable : site.IsWritable) (hrenews : site.RenewsBackup) :
    let x := rules.execute site observers request
    let x' := rules'.execute x.site x.observers request'
    let y' := rules'.execute site observers request'
    let y := rules.execute y'.site y'.observers request
    x.result.map Outcome.occurrences = y.result.map Outcome.occurrences ∧
    x'.result.map Outcome.occurrences = y'.result.map Outcome.occurrences ∧
    x'.site.resource = y.site.resource ∧
    ∀ path keepBackup, site.resource = .file path site.resource.data keepBackup →
      site.tree.read path = .ok site.resource.data →
      x'.site.tree.read path = y.site.tree.read path := by
  intro x x' y' y
  have hx := rules.execute_ends site observers request
  have hx' := rules'.execute_ends x.site x.observers request'
  have hy' := rules'.execute_ends site observers request'
  have hy := rules.execute_ends y'.site y'.observers request
  have hresource : x'.site.resource = y.site.resource := by
    rw [hx.resource_after hx' hwritable hrenews, hy'.resource_after hy hwritable hrenews,
      hreads.rewritten_comm hreads' hsilent hsilent' hapart]
  refine ⟨?_, ?_, hresource, fun path keepBackup hfile hread => ?_⟩
  · exact (hreads'.occurrences_after hreads hsilent' hsilent hapart.symm hy' hy hx hwritable
      hrenews).symm
  · exact hreads.occurrences_after hreads' hsilent hsilent' hapart hx hx' hy' hwritable hrenews
  · rw [hx.read_after hx' hwritable hfile hread, hy'.read_after hy hwritable hfile hread, hresource]

/-- One request makes the file longer and the other makes it shorter. Both keep a backup, so the
second of them writes over that of the first. -/
theorem apart_requests_commute_backedUp :
    let rules : Rules := { encoding := .hex }
    let grow : Request := ⟨"01", "03 04", true, true⟩
    let shrink : Request := ⟨"02", "05", false, false⟩
    let path : Path := .ofText "fw.bin"
    let site : Site := ⟨.file path [1, 2] true, Site.writtenOver⟩
    site.IsWritable ∧ site.RenewsBackup ∧ ∃ x x' y' y, x = rules.execute site [] grow ∧
      x' = rules.execute x.site x.observers shrink ∧ y' = rules.execute site [] shrink ∧
      y = rules.execute y'.site y'.observers grow ∧ y.result.map Outcome.occurrences = .ok 1 ∧
      y.site.resource = .file path [3, 4, 0, 5] true ∧
      x'.site.tree.read path = y.site.tree.read path := by
  intro rules grow shrink path site
  have hone : Encoding.hex.encode "01" = .ok [1] := rfl
  have htwo : Encoding.hex.encode "02" = .ok [2] := rfl
  have hgrow : Encoding.hex.encode "03 04" = .ok [3, 4] := rfl
  have hshrink : Encoding.hex.encode "05" = .ok [5] := rfl
  have hreads : rules.Reads grow ⟨[1], by decide⟩ [3, 4, 0] := ⟨hone, [3, 4], hgrow, rfl⟩
  have hreads' : rules.Reads shrink ⟨[2], by decide⟩ [5] := ⟨htwo, [5], hshrink, rfl⟩
  have hapart : Apart ⟨[1], by decide⟩ [3, 4, 0] ⟨[2], by decide⟩ [5] := by
    constructor <;> simp
  have hwritable : site.IsWritable := Site.unhindered_writtenOver.replaceable_iff.mpr
    ⟨⟨["fw.bin"], 0o644, [1, 2], Site.find_writtenOver⟩,
      fun _ => Site.not_holdsDirectory_writtenOver⟩
  have hrenews : site.RenewsBackup := fun place mode bytes hfind => by
    cases Site.find_writtenOver.symm.trans hfind
    decide
  have hread : site.tree.read path = .ok site.resource.data :=
    Tree.read_eq_ok_iff.mpr ⟨["fw.bin"], 0o644, Site.find_writtenOver, by decide⟩
  have hends := rules.execute_ends site [] grow
  have hends' := rules.execute_ends (rules.execute site [] grow).site
    (rules.execute site [] grow).observers shrink
  obtain ⟨hresult, -, hresource, htree⟩ :=
    apart_requests_commute [] hreads hreads' rfl rfl hapart hwritable hrenews
  have hcount : count site.resource.data ⟨[1], by decide⟩ = 1 := by decide +kernel
  have hpermits : grow.Permits ⟨[1], by decide⟩ [3, 4, 0] 1 := Or.inl rfl
  rw [hreads.occurrences_eq rfl hends hwritable, hcount, if_pos hpermits] at hresult
  have hbytes : rules.rewritten (rules.rewritten site.resource.data grow) shrink =
      [3, 4, 0, 5] := by
    decide +kernel
  rw [hends.resource_after hends' hwritable hrenews, hbytes] at hresource
  exact ⟨hwritable, hrenews, _, _, _, _, rfl, rfl, rfl, rfl, hresult.symm, hresource.symm,
    htree path true rfl hread⟩

end Rules

end ByteSplice
