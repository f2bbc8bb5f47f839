import ByteSplice.Proofs.Storage.Replacing

/-!
# Commits

`Site.commit` either gives a resource its new contents or leaves the resource as it was. Which of
the two it does depends on the site alone, never on the contents: `Site.IsWritable` says when. A
byte string in memory is writable unless it is protected. A file is writable if its path leads to a
file now, whatever it led to when the file was opened, and if its copy can be made when one is
wanted.

A commit that is not taken leaves the whole site as it was, once its failure is let go
(`commit_of_not_isWritable`). Until then the failure may hold a staged file.

## Files

`commit_file_atomic_but_staged` says what this means for a file tree that others may have changed
since the file was opened. It leaves out what depends on permissions and on lengths of names
(`Tree.Unhindered`); then the one thing that can be in the way of a backup is a directory of its
name. It also says when a failure holds a staged file: if a directory is where the file was and no
backup is wanted. Then the tree is not what it was as long as there is the failure.

## Main definitions

* `Resource.withData`: a resource with other contents.
* `Site.IsWritable`, `Site.RenewsBackup`
* `Tree.Unhindered`

## Main results

* `Site.commit_of_isWritable`, `Site.commit_of_not_isWritable`
* `Site.commit_failure_eq_none_iff`, `Site.isWritable_commit`, `Site.renewsBackup_commit`
* `Tree.Unhindered.replaceable_iff`
* `Site.commit_file_atomic_but_staged`
-/

namespace ByteSplice

/-! ### Any resource -/

/-- The resource with other contents. -/
def Resource.withData : Resource → Bytes → Resource
  | .memory name _ readOnly, contents => .memory name contents readOnly
  | .file path _ keepBackup, contents => .file path contents keepBackup

@[simp] theorem Resource.data_withData (r : Resource) (contents : Bytes) :
    (r.withData contents).data = contents := by
  cases r <;> rfl

@[simp] theorem Resource.id_withData (r : Resource) (contents : Bytes) :
    (r.withData contents).id = r.id := by
  cases r <;> rfl

@[simp] theorem Resource.withData_withData (r : Resource) (contents more : Bytes) :
    (r.withData contents).withData more = r.withData more := by
  cases r <;> rfl

@[simp] theorem Resource.withData_data (r : Resource) : r.withData r.data = r := by
  cases r <;> rfl

namespace Site

@[simp] theorem resource_letGo (site : Site) (e : CommitError) :
    (site.letGo e).resource = site.resource :=
  rfl

/-- The resource of the site takes new contents. -/
def IsWritable (site : Site) : Prop :=
  match site.resource with
  | .memory _ _ readOnly => readOnly = false
  | .file path _ keepBackup => site.tree.Replaceable path keepBackup

theorem commit_file {tree done : Tree} {path : Path} {contents : Bytes} {keepBackup : Bool}
    {journal : Journal} (held : Bytes)
    (h : tree.replaceFile path contents keepBackup = ⟨none, done, journal⟩) :
    commit ⟨.file path held keepBackup, tree⟩ contents =
      ⟨none, ⟨.file path contents keepBackup, done⟩, journal⟩ := by
  simp only [commit, h]

theorem commit_file_of_failure {tree left : Tree} {path : Path} {contents : Bytes}
    {keepBackup : Bool} {e : CommitError} (held : Bytes)
    (h : tree.replaceFile path contents keepBackup = ⟨some e, left, []⟩) :
    commit ⟨.file path held keepBackup, tree⟩ contents =
      ⟨some e, ⟨.file path held keepBackup, left⟩, []⟩ := by
  simp only [commit, h]

/-- **A commit that is taken** changes the contents of the resource and nothing else about it. All
it can note is a backup. -/
theorem commit_of_isWritable {site : Site} (h : site.IsWritable) (contents : Bytes) :
    ∃ tree journal, site.commit contents =
        ⟨none, ⟨site.resource.withData contents, tree⟩, journal⟩ ∧
      ∀ entry ∈ journal, ∃ path, entry = .wroteBackup path := by
  obtain ⟨resource, tree⟩ := site
  cases resource with
  | memory name held readOnly =>
    obtain rfl : readOnly = false := h
    exact ⟨tree, [], rfl, by simp⟩
  | file path held keepBackup =>
    obtain ⟨⟨place, mode, bytes, hfind⟩, ⟨kept, journal⟩, hkeep⟩ := h
    refine ⟨kept.put place (.file mode contents), journal, ?_, ?_⟩
    · exact commit_file held (Tree.replaceFile_of_keep contents hfind hkeep)
    · rcases Tree.keep_eq_ok_iff.mp hkeep with ⟨-, -, rfl⟩ | ⟨-, -, rfl⟩
      · simp
      · simp

/-- **A commit that is not taken** leaves no trace, once its failure is let go. -/
theorem commit_of_not_isWritable {site : Site} (h : ¬ site.IsWritable) (contents : Bytes) :
    ∃ e left, site.commit contents = ⟨some e, left, []⟩ ∧ left.letGo e = site := by
  obtain ⟨resource, tree⟩ := site
  cases resource with
  | memory name held readOnly =>
    obtain rfl : readOnly = true := Bool.not_eq_false readOnly ▸ h
    exact ⟨_, _, rfl, rfl⟩
  | file path held keepBackup =>
    obtain ⟨e, left, hreplace, hletGo⟩ :=
      Tree.replaceFile_of_not contents (show ¬ tree.Replaceable path keepBackup from h)
    refine ⟨e, ⟨.file path held keepBackup, left⟩, commit_file_of_failure held hreplace, ?_⟩
    rw [letGo, hletGo]

theorem commit_failure_eq_none_iff (site : Site) (contents : Bytes) :
    (site.commit contents).failure = none ↔ site.IsWritable := by
  constructor
  · intro h
    by_contra hnot
    obtain ⟨e, left, he, -⟩ := commit_of_not_isWritable hnot contents
    rw [he] at h
    cases h
  · intro h
    obtain ⟨tree, journal, hcommit, -⟩ := commit_of_isWritable h contents
    rw [hcommit]

/-- Where backups are kept, the file may be written over, and so may its backup, which has the same
permission bits. -/
def RenewsBackup (site : Site) : Prop :=
  match site.resource with
  | .file path _ true => ∀ place mode bytes,
    site.tree.find path = .ok (place, .file mode bytes) → Tree.mayWrite mode = true
  | _ => True

/-- **A writable site takes one commit after the other**, except that the backup of a file that is
only to be read cannot be renewed. -/
theorem isWritable_commit {site : Site} (h : site.IsWritable) (hrenews : site.RenewsBackup)
    (contents : Bytes) : (site.commit contents).site.IsWritable := by
  obtain ⟨resource, tree⟩ := site
  cases resource with
  | memory name held readOnly =>
    obtain rfl : readOnly = false := h
    exact rfl
  | file path held keepBackup =>
    obtain ⟨⟨place, mode, bytes, hfind⟩, ⟨kept, journal⟩, hkeep⟩ := h
    rw [commit_file held (Tree.replaceFile_of_keep contents hfind hkeep)]
    refine Tree.replaceable_replaced contents hfind hkeep fun hkept => ?_
    subst hkept
    exact hrenews place mode bytes hfind

/-- What has been committed has the permission bits of what there was. -/
theorem renewsBackup_commit {site : Site} (h : site.IsWritable) (hrenews : site.RenewsBackup)
    (contents : Bytes) : (site.commit contents).site.RenewsBackup := by
  obtain ⟨resource, tree⟩ := site
  cases resource with
  | memory name held readOnly =>
    obtain rfl : readOnly = false := h
    exact trivial
  | file path held keepBackup =>
    obtain ⟨⟨place, mode, bytes, hfind⟩, ⟨kept, journal⟩, hkeep⟩ := h
    rw [commit_file held (Tree.replaceFile_of_keep contents hfind hkeep)]
    cases keepBackup with
    | false => exact trivial
    | true =>
      intro place' mode' bytes' hfind'
      cases (Tree.find_replaced contents hfind hkeep).symm.trans hfind'
      exact hrenews place mode bytes hfind

end Site

/-! ### Files -/

namespace Tree

variable {t : Tree} {place : Place} {text : String} {keepBackup : Bool}

/-- Nothing but what is where can keep the file at a path from being replaced, and from being backed
up if that is wanted. -/
structure Unhindered (t : Tree) (path : Path) (keepBackup : Bool) : Prop where
  /-- The file may be read. -/
  readable : ∀ place mode bytes, t.find path = .ok (place, .file mode bytes) →
    mayRead mode = true
  /-- An older backup may be written over. -/
  renewable : keepBackup = true → ∀ place mode bytes,
    t.find path.backup = .ok (place, .file mode bytes) → mayWrite mode = true
  /-- The path of the backup is not too long. -/
  takesText : keepBackup = true → takesText path.backup = true
  /-- Nor is its last name. -/
  takesName : keepBackup = true → takesName path.backupName = true

theorem parent_backup (t : Tree) (path : Path) : t.parent path.backup = t.parent path := by
  change t.enter (Place.start path) (path.names.dropLast ++ [path.backupName]).dropLast = _
  rw [List.dropLast_concat]
  rfl

/-- Beside a file there is a place for its backup. -/
theorem Unhindered.locate_backup (h : t.Unhindered (.ofText text) true) {directory : Place}
    (hlocate : t.locate (.ofText text) = .ok place)
    (hparent : t.parent (.ofText text) = .ok directory) :
    t.locate (Path.ofText text).backup = .ok (directory ++ [(Path.ofText text).backupName]) := by
  refine locate_eq_ok_iff.mpr ⟨?_, by simpa [takesLast] using h.takesName rfl⟩
  have hzero : '\x00' ∉ text.toList := by
    have happroach := (locate_eq_ok_iff.mp hlocate).1
    rw [approach] at happroach
    split_ifs at happroach with hzero
    all_goals simpa [Path.ofText] using hzero
  have hbackup := Path.not_mem_text_backup hzero
  have htext : (Path.ofText text).backup.text ≠ "" := by
    intro hempty
    have hlength := congrArg String.length hempty
    rw [show (Path.ofText text).backup.text = Path.directoryText text ++
      (Path.ofText text).backupName from rfl, String.length_append, Path.length_backupName,
      show "".length = 0 from rfl] at hlength
    omega
  rw [approach, if_neg (by simpa using hbackup), if_neg (by simp [h.takesText rfl]), if_neg htext,
    if_neg (by simp [Path.backup]), Path.getLast?_names_backup, parent_backup, hparent]
  split
  · cases ‹some _ = none›
  · next hup => exact absurd (Option.some.inj hup) (Path.backupName_ne_up _)
  · next name _ heq => rw [← Option.some.inj heq]

/-- The backup is kept from being written by a directory only. -/
theorem Unhindered.exists_writable_iff {path : Path} (h : t.Unhindered path true)
    (hlocate : t.locate path.backup = .ok place) :
    (∃ prior, t.writable path.backup = .ok (place, prior)) ↔
      ¬ t.HoldsDirectory path.backup := by
  constructor
  · rintro ⟨prior, hwritable⟩ ⟨place', hdir⟩
    obtain ⟨hlocate', hget⟩ := find_eq_directory_iff.mp hdir
    cases hlocate.symm.trans hlocate'
    exact get?_ne_directory_of_writable hwritable hget
  · intro hnot
    cases hget : t.get? place with
    | none => exact ⟨none, writable_eq_ok_iff.mpr ⟨hlocate, rfl, Or.inl ⟨hget, rfl⟩⟩⟩
    | some entry =>
      cases entry with
      | directory => exact absurd ⟨place, find_eq_directory_iff.mpr ⟨hlocate, hget⟩⟩ hnot
      | file mode old =>
        have hwrite := h.renewable rfl place mode old (find_eq_file_iff.mpr ⟨hlocate, hget, rfl⟩)
        exact ⟨some mode, writable_eq_ok_iff.mpr ⟨hlocate, rfl,
          Or.inr ⟨mode, old, hget, hwrite, rfl⟩⟩⟩

/-- **When a file can be replaced.** All that can be in the way is a directory of the name of the
backup. -/
theorem Unhindered.replaceable_iff (h : t.Unhindered (.ofText text) keepBackup) :
    t.Replaceable (.ofText text) keepBackup ↔
      t.HoldsFile (.ofText text) ∧
        (keepBackup = true → ¬ t.HoldsDirectory (Path.ofText text).backup) := by
  constructor
  · rintro ⟨hfile, ⟨kept, journal⟩, hkeep⟩
    refine ⟨hfile, fun hkept => ?_⟩
    subst hkept
    rcases keep_eq_ok_iff.mp hkeep with ⟨hfalse, -⟩ | ⟨-, hcopy, -⟩
    · cases hfalse
    · obtain ⟨_, _, _, spot, prior, -, -, hwritable, -⟩ := copy_eq_ok_iff.mp hcopy
      have hlocate := (writable_eq_ok_iff.mp hwritable).1
      exact (h.exists_writable_iff hlocate).mp ⟨prior, hwritable⟩
  · rintro ⟨⟨place, mode, bytes, hfind⟩, hbackup⟩
    refine ⟨⟨place, mode, bytes, hfind⟩, ?_⟩
    cases keepBackup with
    | false => exact ⟨_, rfl⟩
    | true =>
      have hlocated := (find_eq_file_iff.mp hfind).1
      obtain ⟨directory, name, hparent, -⟩ := exists_parent_of_find hfind
      have hlocate := h.locate_backup hlocated hparent
      obtain ⟨prior, hwritable⟩ := (h.exists_writable_iff hlocate).mpr (hbackup rfl)
      have hcopy := copy_eq_ok_iff.mpr ⟨place, mode, bytes, _, prior, hfind,
        h.readable place mode bytes hfind, hwritable, rfl⟩
      exact ⟨_, keep_eq_ok_iff.mpr (Or.inr ⟨rfl, hcopy, rfl⟩)⟩

end Tree

namespace Site

/-- **A commit to a file is all or nothing over the whole tree but for a staged file**, whatever the
file was when it was opened and whatever others have done to the tree since.

It is taken just if the path leads to a file now and no directory is in the way of the backup. Then
the path leads to the new contents, the backup holds what the path led to just before, and nothing
else has changed.

Otherwise the resource is what it was, and so is the whole tree once the failure is let go. If the
path leads to a directory and no backup is wanted, the failure holds a staged file until then. That
is a new file with the new contents, beside what the path leads to. In all other cases the tree is
what it was as soon as the commit is over. -/
theorem commit_file_atomic_but_staged {tree : Tree} {text : String} (held contents : Bytes)
    (keepBackup : Bool) (h : tree.Unhindered (.ofText text) keepBackup) :
    let path := Path.ofText text
    let site : Site := ⟨.file path held keepBackup, tree⟩
    let c := site.commit contents
    (c.failure = none ↔
      tree.HoldsFile path ∧ (keepBackup = true → ¬ tree.HoldsDirectory path.backup)) ∧
    (c.failure = none →
      c.site.resource.data = contents ∧
      c.site.tree.read path = .ok contents ∧
      (keepBackup = true →
        ∃ old, tree.read path = .ok old ∧ c.site.tree.read path.backup = .ok old) ∧
      ∀ place, tree.locate path ≠ .ok place →
        (keepBackup = true → tree.locate path.backup ≠ .ok place) →
        c.site.tree.get? place = tree.get? place) ∧
    (∀ e, c.failure = some e →
      c.site.resource = site.resource ∧ c.site.letGo e = site ∧
      (keepBackup = true ∨ ¬ tree.HoldsDirectory path → c.site = site)) ∧
    (keepBackup = false → tree.HoldsDirectory path →
      ∃ cause directory name mode, c.failure = some (.replace cause (directory ++ [name])) ∧
        tree.parent path = .ok directory ∧ tree.get? (directory ++ [name]) = none ∧
        tree.locate path.backup ≠ .ok (directory ++ [name]) ∧
        c.site.tree = tree.put (directory ++ [name]) (.file mode contents)) := by
  intro path site c
  have hiff : c.failure = none ↔ tree.Replaceable path keepBackup :=
    commit_failure_eq_none_iff _ contents
  refine ⟨hiff.trans h.replaceable_iff, fun hc => ?taken, fun e he => ?failed,
    fun hkept hdirectory => ?staged⟩
  case taken =>
    obtain ⟨⟨place, mode, old, hfind⟩, ⟨kept, journal⟩, hkeep⟩ := hiff.mp hc
    have hread := h.readable place mode old hfind
    have hcommit : c = ⟨none, _, journal⟩ :=
      commit_file held (Tree.replaceFile_of_keep contents hfind hkeep)
    rw [hcommit]
    refine ⟨rfl, Tree.read_replaced hfind hkeep hread, fun hkept => ⟨old, ?_, ?_⟩,
      fun other hne hbackup => Tree.get?_replaced hfind hkeep hne hbackup⟩
    · exact Tree.read_eq_ok_iff.mpr ⟨place, mode, hfind, hread⟩
    · subst hkept
      exact Tree.read_backup_replaced hfind hkeep hread
  case failed =>
    have hnot : ¬ tree.Replaceable path keepBackup := fun hreplaceable => by
      cases he.symm.trans (hiff.mpr hreplaceable)
    obtain ⟨e', left, hcommit, hletGo⟩ :=
      commit_of_not_isWritable (show ¬ site.IsWritable from hnot) contents
    have hc : c = ⟨some e', left, []⟩ := hcommit
    obtain rfl : e' = e := by simpa [hc] using he
    refine ⟨?_, by rw [hc]; exact hletGo, fun hother => ?_⟩
    · rw [hc, ← resource_letGo left e']
      exact congrArg Site.resource hletGo
    · obtain ⟨e'', hreplace, -⟩ := Tree.replaceFile_eq_self contents hnot fun hkept =>
        hother.resolve_left (by simp [hkept])
      exact congrArg Commit.site (commit_file_of_failure held hreplace)
  case staged =>
    subst hkept
    obtain ⟨place, hfind⟩ := hdirectory
    obtain ⟨directory, hparent⟩ :=
      Tree.exists_parent_of_locate (Tree.find_eq_directory_iff.mp hfind).1
    obtain ⟨name, hfresh, -⟩ := tree.exists_freshPlace_eq directory path
    have hreplace := Tree.replaceFile_over_directory contents hfind hparent
    have hnone := tree.get?_freshPlace directory path
    have hbackup : tree.locate path.backup ≠ .ok (tree.freshPlace directory path) := fun hlocate =>
      Tree.ne_freshPlace_of_locate_backup tree directory hlocate rfl
    rw [hfresh] at hreplace hnone hbackup
    have hcommit : c = ⟨some (.replace .isDirectory (directory ++ [name])), _, []⟩ :=
      commit_file_of_failure held hreplace
    refine ⟨.isDirectory, directory, name, 0o755, ?_, hparent, hnone, hbackup, ?_⟩
    all_goals rw [hcommit]

/-- A file that others have written over since it was opened, an older backup and a directory. -/
def writtenOver : Tree :=
  ⟨[(["fw.bin"], .file 0o644 [1, 2]), (["fw.bin.bak"], .file 0o600 [9]), (["lib"], .directory)]⟩

theorem find_writtenOver :
    writtenOver.find (.ofText "fw.bin") = .ok (["fw.bin"], .file 0o644 [1, 2]) := by
  rfl

theorem find_backup_writtenOver :
    writtenOver.find (Path.ofText "fw.bin").backup = .ok (["fw.bin.bak"], .file 0o600 [9]) := by
  have htext : (Path.ofText "fw.bin").backup.text = "fw.bin.bak" := rfl
  have hnames : (Path.ofText "fw.bin").backup.names = ["fw.bin.bak"] := rfl
  have hbackup : (Path.ofText "fw.bin").backup = .ofText "fw.bin.bak" := by
    calc (Path.ofText "fw.bin").backup
        = ⟨(Path.ofText "fw.bin").backup.text, false, (Path.ofText "fw.bin").backup.names, false,
            false⟩ := rfl
      _ = ⟨"fw.bin.bak", false, ["fw.bin.bak"], false, false⟩ := by rw [htext, hnames]
      _ = .ofText "fw.bin.bak" := rfl
  rw [hbackup]
  rfl

theorem unhindered_writtenOver : writtenOver.Unhindered (.ofText "fw.bin") true := by
  refine ⟨fun place mode bytes hfind => ?_, fun _ place mode bytes hfind => ?_, fun _ => by decide,
    fun _ => by decide⟩
  · cases find_writtenOver.symm.trans hfind
    decide
  · cases find_backup_writtenOver.symm.trans hfind
    decide

theorem not_holdsDirectory_writtenOver :
    ¬ writtenOver.HoldsDirectory (Path.ofText "fw.bin").backup := by
  rintro ⟨place, hdirectory⟩
  cases find_backup_writtenOver.symm.trans hdirectory

/-- A directory in the place of a file. -/
def overDirectory : Tree :=
  ⟨[(["fw.bin"], .directory)]⟩

theorem find_overDirectory : overDirectory.find (.ofText "fw.bin") = .ok (["fw.bin"], .directory) :=
  rfl

theorem unhindered_overDirectory : overDirectory.Unhindered (.ofText "fw.bin") false := by
  refine ⟨fun place mode bytes hfind => ?_, nofun, nofun, nofun⟩
  cases find_overDirectory.symm.trans hfind

/-- Over a file, the new backup is what the others wrote, and neither what the file was opened with
nor the older backup. Over a directory, there is a file more as long as there is the failure. -/
theorem commit_file_atomic_but_staged_overDirectory :
    (writtenOver.Unhindered (.ofText "fw.bin") true ∧
      ∃ c, c = commit ⟨.file (.ofText "fw.bin") [7] true, writtenOver⟩ [3] ∧ c.failure = none ∧
        c.site.tree.read (.ofText "fw.bin") = .ok [3] ∧
        c.site.tree.read (Path.ofText "fw.bin").backup = .ok [1, 2] ∧
        c.site.tree.get? ["lib"] = some .directory) ∧
    overDirectory.Unhindered (.ofText "fw.bin") false ∧
      ∃ c e staged mode, c = commit ⟨.file (.ofText "fw.bin") [7] false, overDirectory⟩ [3] ∧
        c.failure = some e ∧ c.site.resource.data = [7] ∧ overDirectory.get? staged = none ∧
        c.site.tree.get? staged = some (.file mode [3]) ∧
        (c.site.letGo e).tree = overDirectory := by
  refine ⟨⟨unhindered_writtenOver, ?_⟩, unhindered_overDirectory, ?_⟩
  · have hfile := Tree.find_eq_file_iff.mp find_writtenOver
    have hbackup := Tree.find_eq_file_iff.mp find_backup_writtenOver
    obtain ⟨hiff, hdone, -⟩ := commit_file_atomic_but_staged [7] [3] true unhindered_writtenOver
    have hc := hiff.mpr ⟨⟨["fw.bin"], 0o644, [1, 2], find_writtenOver⟩,
      fun _ => not_holdsDirectory_writtenOver⟩
    obtain ⟨-, hnew, hold, hother⟩ := hdone hc
    obtain ⟨old, hread, hread'⟩ := hold rfl
    have hbytes : writtenOver.read (.ofText "fw.bin") = .ok [1, 2] :=
      Tree.read_eq_ok_iff.mpr ⟨["fw.bin"], 0o644, find_writtenOver, by decide⟩
    rw [Except.ok.inj (hread.symm.trans hbytes)] at hread'
    refine ⟨_, rfl, hc, hnew, hread', (hother ["lib"] ?_ fun _ => ?_).trans rfl⟩
    · rw [hfile.1]
      simp
    · rw [hbackup.1]
      simp
  · obtain ⟨-, -, hfailed, hheld⟩ :=
      commit_file_atomic_but_staged [7] [3] false unhindered_overDirectory
    obtain ⟨cause, directory, name, mode, hc, -, hnone, -, htree⟩ :=
      hheld rfl ⟨["fw.bin"], find_overDirectory⟩
    obtain ⟨hresource, hletGo, -⟩ := hfailed _ hc
    refine ⟨_, _, directory ++ [name], mode, rfl, hc, ?_, hnone, ?_, ?_⟩
    · rw [hresource, Resource.data]
    · have hgiven : Place.isGiven (directory ++ [name]) = false :=
        Tree.isGiven_eq_false_of_get?_ne (t := overDirectory) (by simp [hnone])
      rw [htree, overDirectory.get?_put_self _ hgiven]
    · rw [hletGo]

end Site

end ByteSplice
