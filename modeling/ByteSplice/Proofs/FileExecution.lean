import ByteSplice.Proofs.Observation

/-!
# Requests that are carried out on a file

A file resource answers from what it read when it was opened. As long as nobody else writes to the
file, that is what the file still holds, and then carrying out a request either leaves the whole
file tree as it was or replaces the file in it. `Tree.Replaced` says what the second means, with all
that can be seen of it afterwards: what the path and the path of the backup lead to, that nothing
else has changed, and that all paths lead where they led.

## Main definitions

* `Tree.SameBeside`: two trees differ in the file at a path and its backup only.
* `Tree.Replaced`: one tree is another with the file at a path replaced.

## Main results

* `Site.replaced_of_commit`
* `Rules.Ends.replaced_of_event`
* `Rules.Ends.read_eq`
* `Rules.Ends.exists_reads_of_ok`
-/

namespace ByteSplice

namespace Tree

variable {t u v kept : Tree} {path : Path} {keepBackup : Bool} {old contents : Bytes}
  {place : Place} {mode : Nat} {journal : Journal}

/-- Two trees have the same directories, and the same files but for the one at a path and, if it is
kept, its backup. -/
structure SameBeside (t u : Tree) (path : Path) (keepBackup : Bool) : Prop where
  sameDirectories : t.SameDirectories u
  elsewhere : ∀ place, t.locate path ≠ .ok place →
    (keepBackup = true → t.locate path.backup ≠ .ok place) → u.get? place = t.get? place

theorem SameBeside.refl (t : Tree) (path : Path) (keepBackup : Bool) :
    t.SameBeside t path keepBackup :=
  ⟨fun _ => Iff.rfl, fun _ _ _ => rfl⟩

theorem SameBeside.trans (h : t.SameBeside u path keepBackup)
    (h' : u.SameBeside v path keepBackup) : t.SameBeside v path keepBackup := by
  refine ⟨h.sameDirectories.trans h'.sameDirectories, fun place hne hbackup => ?_⟩
  have hne' : u.locate path ≠ .ok place := by
    rwa [Ne, ← h.sameDirectories.locate_eq_ok_iff]
  have hbackup' : keepBackup = true → u.locate path.backup ≠ .ok place := by
    rwa [Ne, ← h.sameDirectories.locate_eq_ok_iff]
  rw [h'.elsewhere place hne' hbackup', h.elsewhere place hne hbackup]

/-- Where no backup is kept, what has its name is let alone. -/
theorem SameBeside.get?_backup (h : t.SameBeside u path false) (hread : t.read path = .ok old)
    (hplace : t.locate path.backup = .ok place) : u.get? place = t.get? place := by
  obtain ⟨file, mode, hfind, -⟩ := read_eq_ok_iff.mp hread
  refine h.elsewhere place (fun hfile => ?_) nofun
  cases hfile.symm.trans (find_eq_file_iff.mp hfind).1
  exact ne_of_locate_backup hfind hplace rfl

/-- `u` is `t` with other contents in the file at a path, which held `old`, and with a backup if one
is wanted. -/
structure Replaced (t u : Tree) (path : Path) (keepBackup : Bool) (old contents : Bytes) : Prop
    extends t.SameBeside u path keepBackup where
  /-- The path leads to the new contents. -/
  read_eq : u.read path = .ok contents
  /-- The path of the backup leads to the old ones. -/
  read_backup_eq : keepBackup = true → u.read path.backup = .ok old

theorem replaced_of_keep (hfind : t.find path = .ok (place, .file mode old))
    (hkeep : t.keep path keepBackup = .ok (kept, journal)) (hread : mayRead mode = true)
    (contents : Bytes) :
    t.Replaced (kept.put place (.file mode contents)) path keepBackup old contents := by
  have hsame := sameDirectories_keep hkeep
  have hnot := hsame.get?_ne_directory hfind
  refine ⟨⟨hsame.trans (sameDirectories_put_file hnot mode contents),
    fun _ => get?_replaced hfind hkeep⟩, read_replaced hfind hkeep hread, fun hkept => ?_⟩
  subst hkept
  exact read_backup_replaced hfind hkeep hread

end Tree

/-! ### Commits and requests -/

/-- **A commit to a file replaces it** and nothing else, if the file may be read. -/
theorem Site.replaced_of_commit {tree done : Tree} {path : Path} {held old contents : Bytes}
    {keepBackup : Bool} {resource : Resource} {journal : Journal}
    (hread : tree.read path = .ok old)
    (hcommit : commit ⟨.file path held keepBackup, tree⟩ contents =
      ⟨none, ⟨resource, done⟩, journal⟩) :
    tree.Replaced done path keepBackup old contents := by
  have hwritable : IsWritable ⟨.file path held keepBackup, tree⟩ :=
    (commit_failure_eq_none_iff _ contents).mp (by rw [hcommit])
  obtain ⟨⟨place, mode, bytes, hfind⟩, ⟨kept, noted⟩, hkeep⟩ := hwritable
  obtain ⟨_, _, hfind', hmay⟩ := Tree.read_eq_ok_iff.mp hread
  cases hfind.symm.trans hfind'
  have hdone := commit_file held (Tree.replaceFile_of_keep contents hfind hkeep)
  rw [hcommit] at hdone
  cases hdone
  exact Tree.replaced_of_keep hfind hkeep hmay contents

namespace Rules

variable {rules : Rules} {site : Site} {observers : List Observer} {request : Request}
  {x : Execution} {data : Bytes}

theorem Ends.site_eq_of_event_eq_none (h : rules.Ends site observers request x)
    (hevent : x.event data = none) : x.site = site :=
  (h.leavesAlone (Execution.event_eq_none_iff.mp hevent)).site_eq

/-- **A request that changes a file replaces it** and nothing else, if nobody else has written to
it. -/
theorem Ends.replaced_of_event (h : rules.Ends site observers request x) {path : Path}
    {keepBackup : Bool} (hfile : site.resource = .file path data keepBackup)
    (hread : site.tree.read path = .ok data) (hevent : x.event data ≠ none) :
    site.tree.Replaced x.site.tree path keepBackup data x.site.resource.data := by
  obtain ⟨resource, tree⟩ := site
  obtain rfl : resource = .file path data keepBackup := hfile
  cases h with
  | changed hplan hsome hwritable happly hcommit =>
    rw [Resource.data_withData]
    exact Site.replaced_of_commit hread hcommit
  | rejected | unmatched | uncommitted =>
    exact absurd (Execution.event_of_not_changed (by simp [Resource.unchanged])) hevent

/-- **A file resource still has what its file has**, whatever becomes of the request. -/
theorem Ends.read_eq (h : rules.Ends site observers request x) {path : Path} {keepBackup : Bool}
    (hfile : site.resource = .file path data keepBackup)
    (hread : site.tree.read path = .ok data) :
    x.site.tree.read path = .ok x.site.resource.data := by
  by_cases hevent : x.event data = none
  · rw [h.site_eq_of_event_eq_none hevent, hread, hfile, Resource.data]
  · exact (h.replaced_of_event hfile hread hevent).read_eq

/-- **What a request that succeeds leaves in the tree.** The file has every match replaced. If there
is one the file was replaced, and otherwise nothing has happened. -/
theorem Ends.exists_reads_of_ok (h : rules.Ends site observers request x) {path : Path}
    {keepBackup : Bool} (hfile : site.resource = .file path data keepBackup)
    (hread : site.tree.read path = .ok data) {o : Outcome} (ho : x.result = .ok o) :
    ∃ p replacement, rules.Reads request p replacement ∧
      ((∃ i, p.MatchesAt data i) → site.tree.Replaced x.site.tree path keepBackup data
        (replaceAll p replacement data)) ∧
      ((∀ i, ¬ p.MatchesAt data i) → x.site = site) := by
  have hdata : site.resource.data = data := by rw [hfile, Resource.data]
  obtain ⟨plan, hplan, happly, hcount, -, -, hchanged⟩ := h.outcome ho
  rw [hdata] at hplan happly hcount
  obtain ⟨hplans, hallowed⟩ := plan_eq_ok_iff.mp hplan
  have hcontents := Except.ok.inj ((hplans.apply hallowed).symm.trans happly)
  have hfound : o.changed = true ↔ ∃ i, plan.pattern.MatchesAt data i := by
    rw [hchanged, hcount, count, ← hplans.occurrences_eq, Nat.one_le_iff_ne_zero, Ne,
      List.length_eq_zero_iff, hplans.unmatched_iff, not_forall_not]
  refine ⟨plan.pattern, plan.replacement, hplans.reads, fun hmatch => ?_, fun hmiss => ?_⟩
  · rw [hcontents]
    refine h.replaced_of_event hfile hread fun hnone => ?_
    exact Execution.event_eq_none_iff.mp hnone ⟨o, ho, hfound.mpr hmatch⟩
  · refine (h.leavesAlone ?_).site_eq
    rintro ⟨o', ho', hchanged'⟩
    cases ho.symm.trans ho'
    obtain ⟨i, hmatch⟩ := hfound.mp hchanged'
    exact hmiss i hmatch

end Rules

end ByteSplice
