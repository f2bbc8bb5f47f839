import ByteSplice.Proofs.Storage.BackupPath
import ByteSplice.Proofs.Storage.Following
import ByteSplice.Resource
import Mathlib.Tactic.ByContra

/-!
# Replacing a file, all or nothing

`Tree.replaceFile` stages the new contents in a file beside the old one, copies the old one if a
backup is wanted, and moves the staged file over it. It may stop after each of these steps. What it
leaves is described by three equations. If the path leads to a file and the copy can be made, it is
`replaceFile_of_keep`. If the path leads to a directory and no copy is wanted, the staged file is
made ready and cannot be moved, and the failure holds it (`replaceFile_over_directory`). In all
other cases the tree that is left is the tree there was (`replaceFile_eq_self`), as a value and not
only in what can be seen of it.

## Why nothing of a failure stays

The staged file has a name that no entry has, so it hides nothing and taking it away restores the
list of entries (`erase_put_freshPlace`). So once a failure is let go, the tree is the tree there
was, whatever the failure held (`replaceFile_of_not`).

Neither the staged file nor the backup is put where a directory is, so the path leads where it led
before (`SameDirectories`). Hence moving the staged file cannot fail after a copy: where there was a
file to copy there is a file to move over. A backup is never left behind by a commit that fails.

## Main definitions

* `Tree.HoldsFile`, `Tree.HoldsDirectory`: what a path leads to.
* `Tree.Replaceable`: the file at a path can be replaced.

## Main results

* `Tree.replaceFile_of_keep`, `Tree.replaceFile_over_directory`, `Tree.replaceFile_eq_self`
* `Tree.replaceFile_of_not`
* `Tree.read_replaced`, `Tree.read_backup_replaced`, `Tree.get?_replaced`: what is where afterwards.
* `Tree.replaceable_replaced`
-/

namespace ByteSplice

namespace Tree

variable {t u : Tree} {place other directory : Place} {path : Path}

/-! ### The staged file -/

@[simp] theorem erase_put_self (t : Tree) (place : Place) (entry : Entry) :
    (t.put place entry).erase place = t.erase place := by
  simp [put, erase, List.filter_filter]

@[simp] theorem put_put (t : Tree) (place : Place) (entry entry' : Entry) :
    (t.put place entry).put place entry' = t.put place entry' := by
  rw [put, erase_put_self]
  rfl

theorem erase_put_of_ne (t : Tree) (entry : Entry) (h : other ≠ place) :
    (t.put other entry).erase place = (t.erase place).put other entry := by
  simp [put, erase, List.filter_filter, h, Bool.and_comm]

theorem length_le_nameBound {entry : Place × Entry} (h : entry ∈ t.entries) :
    (entry.1.getLast?.getD "").length ≤ t.nameBound := by
  have hmem := List.mem_map_of_mem (f := fun entry => (entry.1.getLast?.getD "").length) h
  have hle := List.le_max?_getD_of_mem (k := 0) hmem
  rw [nameBound, List.foldl_max]
  exact Nat.le_trans hle (Nat.le_max_right _ _)

theorem exists_freshPlace_eq (t : Tree) (directory : Place) (path : Path) :
    ∃ name, t.freshPlace directory path = directory ++ [name] ∧
      name.length = max t.nameBound path.backupName.length + 4 := by
  refine ⟨_, rfl, ?_⟩
  have htmp : ".tmp".length = 4 := rfl
  rw [String.length_append, htmp, String.length_ofList, List.length_replicate,
    path.getLast?_names_backup, Option.getD_some, Nat.add_comm]

/-- The staged file takes the name of no entry. -/
theorem freshPlace_ne_of_mem {entry : Place × Entry} (h : entry ∈ t.entries) (directory : Place)
    (path : Path) : entry.1 ≠ t.freshPlace directory path := by
  obtain ⟨name, hfresh, hlong⟩ := t.exists_freshPlace_eq directory path
  intro heq
  have hle := length_le_nameBound h
  rw [heq, hfresh, List.getLast?_concat, Option.getD_some] at hle
  omega

/-- Nor does it take the name of the file that it is for, or that of its backup. -/
theorem concat_ne_freshPlace {name : String}
    (h : name.length ≤ path.backupName.length) :
    other ++ [name] ≠ t.freshPlace directory path := by
  obtain ⟨fresh, hfresh, hlong⟩ := t.exists_freshPlace_eq directory path
  rw [hfresh]
  intro heq
  have hname := List.singleton_inj.mp (List.append_inj' heq rfl).2
  rw [hname] at h
  omega

theorem isGiven_freshPlace (t : Tree) (directory : Place) (path : Path) :
    (t.freshPlace directory path).isGiven = false := by
  obtain ⟨name, hfresh, hlong⟩ := t.exists_freshPlace_eq directory path
  rw [hfresh]
  refine Place.isGiven_concat (fun h => ?_) (fun h => ?_)
  · have hdots : name.length = 2 := h ▸ rfl
    omega
  · have hslash : name.length = 1 := h ▸ rfl
    omega

theorem get?_freshPlace (t : Tree) (directory : Place) (path : Path) :
    t.get? (t.freshPlace directory path) = none := by
  rw [get?, if_neg (by simp [isGiven_freshPlace])]
  refine List.lookup_eq_none_iff.mpr fun entry h => ?_
  simpa using (freshPlace_ne_of_mem h directory path).symm

/-- **Nothing of a staged file stays** once it is taken away. -/
theorem erase_put_freshPlace (t : Tree) (directory : Place) (path : Path) (entry : Entry) :
    (t.put (t.freshPlace directory path) entry).erase (t.freshPlace directory path) = t := by
  rw [erase_put_self, erase, List.filter_eq_self.mpr]
  intro entry h
  simpa using freshPlace_ne_of_mem h directory path

theorem sameDirectories_put_freshPlace (t : Tree) (directory : Place) (path : Path) (mode : Nat)
    (bytes : Bytes) :
    t.SameDirectories (t.put (t.freshPlace directory path) (.file mode bytes)) :=
  sameDirectories_put_file (by simp [get?_freshPlace]) mode bytes

/-! ### What a path leads to, with a file staged -/

/-- The path leads to a file. -/
def HoldsFile (t : Tree) (path : Path) : Prop :=
  ∃ place mode bytes, t.find path = .ok (place, .file mode bytes)

/-- The path leads to a directory. -/
def HoldsDirectory (t : Tree) (path : Path) : Prop :=
  ∃ place, t.find path = .ok (place, .directory)

theorem writable_eq_ok_iff {mode : Option Nat} :
    t.writable path = .ok (place, mode) ↔
      t.locate path = .ok place ∧ path.directoryOnly = false ∧
        ((t.get? place = none ∧ mode = none) ∨
          ∃ held bytes, t.get? place = some (.file held bytes) ∧ mayWrite held = true ∧
            mode = some held) := by
  rw [writable, locate]
  cases t.approach path with
  | error cause => simp
  | ok found => grind

/-- What may be written to is not a directory. -/
theorem get?_ne_directory_of_writable {mode : Option Nat}
    (h : t.writable path = .ok (place, mode)) : t.get? place ≠ some .directory := by
  rcases (writable_eq_ok_iff.mp h).2.2 with ⟨hnone, -⟩ | ⟨_, _, hfile, -⟩
  · simp [hnone]
  · simp [hfile]

/-- The place of a backup ends in its name. -/
theorem exists_concat_of_locate_backup (h : t.locate path.backup = .ok place) :
    ∃ above, t.parent path.backup = .ok above ∧ place = above ++ [path.backupName] := by
  have happroach := (locate_eq_ok_iff.mp h).1
  rw [approach] at happroach
  split_ifs at happroach with hzero htext hempty hdot
  · exact absurd hdot (by simp [Path.backup])
  · rw [path.getLast?_names_backup] at happroach
    split at happroach
    · cases ‹some _ = none›
    · next hup => exact absurd (Option.some.inj hup) path.backupName_ne_up
    · next name _ hname =>
      cases hparent : t.parent path.backup with
      | error cause => simp [hparent] at happroach
      | ok above =>
        rw [hparent] at happroach
        rw [Option.some.inj hname]
        exact ⟨above, rfl, (Except.ok.inj happroach).symm⟩

variable {mode : Nat} {bytes : Bytes}

theorem SameDirectories.get?_ne_directory (h : t.SameDirectories u)
    (hfind : t.find path = .ok (place, .file mode bytes)) : u.get? place ≠ some .directory := by
  intro hdir
  have hfile := (find_eq_file_iff.mp hfind).2.1
  rw [(h place).mpr hdir] at hfile
  cases hfile

/-- The backup of a file lies beside it, under a longer name. -/
theorem ne_of_locate_backup (hfind : t.find path = .ok (place, .file mode bytes))
    (h : t.locate path.backup = .ok other) : other ≠ place := by
  obtain ⟨directory, name, -, hlast, -, rfl⟩ := exists_parent_of_find hfind
  obtain ⟨above, -, rfl⟩ := exists_concat_of_locate_backup h
  intro heq
  have hname := congrArg String.length (List.singleton_inj.mp (List.append_inj' heq rfl).2)
  rw [path.length_backupName, hlast, Option.getD_some] at hname
  omega

/-- The last name of a file is shorter than that of a staged one. -/
theorem ne_freshPlace_of_find (t : Tree) (directory : Place)
    (h : u.find path = .ok (place, .file mode bytes)) :
    place ≠ t.freshPlace directory path := by
  obtain ⟨above, name, -, hlast, -, rfl⟩ := exists_parent_of_find h
  refine concat_ne_freshPlace ?_
  rw [path.length_backupName, hlast, Option.getD_some]
  omega

theorem ne_freshPlace_of_locate_backup (t : Tree) (directory : Place)
    (h : u.locate path.backup = .ok place) : place ≠ t.freshPlace directory path := by
  obtain ⟨above, -, rfl⟩ := exists_concat_of_locate_backup h
  exact concat_ne_freshPlace (Nat.le_refl _)

theorem find_put_freshPlace_file_iff {mode' : Nat} {bytes' : Bytes} :
    (t.put (t.freshPlace directory path) (.file mode bytes)).find path =
        .ok (place, .file mode' bytes') ↔
      t.find path = .ok (place, .file mode' bytes') := by
  have hsame := t.sameDirectories_put_freshPlace directory path mode bytes
  constructor
  · intro h
    have hne := ne_freshPlace_of_find t directory h
    rw [find_eq_file_iff, ← hsame.locate_eq_ok_iff, t.get?_put_of_ne _ hne] at h
    exact find_eq_file_iff.mpr h
  · intro h
    have hne := ne_freshPlace_of_find t directory h
    rw [find_eq_file_iff, ← hsame.locate_eq_ok_iff, t.get?_put_of_ne _ hne]
    exact find_eq_file_iff.mp h

theorem find_put_freshPlace_directory_iff :
    (t.put (t.freshPlace directory path) (.file mode bytes)).find path = .ok (place, .directory) ↔
      t.find path = .ok (place, .directory) := by
  have hsame := t.sameDirectories_put_freshPlace directory path mode bytes
  rw [find_eq_directory_iff, find_eq_directory_iff, ← hsame.locate_eq_ok_iff, ← hsame]

theorem writable_backup_put_freshPlace_iff {held : Option Nat} :
    (t.put (t.freshPlace directory path) (.file mode bytes)).writable path.backup =
        .ok (place, held) ↔
      t.writable path.backup = .ok (place, held) := by
  have hsame := t.sameDirectories_put_freshPlace directory path mode bytes
  rw [writable_eq_ok_iff, writable_eq_ok_iff, ← hsame.locate_eq_ok_iff]
  refine and_congr_right fun h => ?_
  rw [t.get?_put_of_ne _ (ne_freshPlace_of_locate_backup t directory h)]

/-! ### Copying and moving -/

theorem copy_eq_ok_iff {target : Path} :
    t.copy path target = .ok u ↔
      ∃ place mode bytes spot held, t.find path = .ok (place, .file mode bytes) ∧
        mayRead mode = true ∧ t.writable target = .ok (spot, held) ∧
        u = t.put spot (.file mode bytes) := by
  rw [copy]
  cases t.find path with
  | error cause => simp
  | ok found =>
    obtain ⟨place, entry⟩ := found
    cases entry with
    | directory => simp
    | file mode bytes => cases t.writable target <;> grind

theorem keep_eq_ok_iff {keepBackup : Bool} {kept : Tree} {journal : Journal} :
    t.keep path keepBackup = .ok (kept, journal) ↔
      (keepBackup = false ∧ kept = t ∧ journal = []) ∨
      (keepBackup = true ∧ t.copy path path.backup = .ok kept ∧
        journal = [.wroteBackup path.backup.text]) := by
  rw [keep]
  cases keepBackup with
  | false => simp [eq_comm]
  | true => cases t.copy path path.backup <;> simp [eq_comm]

variable {keepBackup : Bool} {journal : Journal} {kept : Tree}

/-- A copy is never put where a directory is. -/
theorem sameDirectories_copy {target : Path} (h : t.copy path target = .ok u) :
    t.SameDirectories u := by
  obtain ⟨place, mode, bytes, spot, prior, -, -, hspot, rfl⟩ := copy_eq_ok_iff.mp h
  exact sameDirectories_put_file (get?_ne_directory_of_writable hspot) mode bytes

theorem sameDirectories_keep (h : t.keep path keepBackup = .ok (kept, journal)) :
    t.SameDirectories kept := by
  rcases keep_eq_ok_iff.mp h with ⟨-, rfl, -⟩ | ⟨-, hcopy, -⟩
  · exact fun _ => Iff.rfl
  · exact sameDirectories_copy hcopy

/-- With a file staged the same copy is made, and the staged file is still there. -/
theorem keep_put_freshPlace (directory : Place) (mode : Nat) (bytes : Bytes)
    (hkeep : t.keep path keepBackup = .ok (kept, journal)) :
    ∃ kept', (t.put (t.freshPlace directory path) (.file mode bytes)).keep path keepBackup =
        .ok (kept', journal) ∧
      kept'.erase (t.freshPlace directory path) = kept ∧
      kept'.get? (t.freshPlace directory path) = some (.file mode bytes) ∧
      t.SameDirectories kept' := by
  have hsame := t.sameDirectories_put_freshPlace directory path mode bytes
  have hget := t.get?_put_self (.file mode bytes) (t.isGiven_freshPlace directory path)
  rcases keep_eq_ok_iff.mp hkeep with ⟨rfl, rfl, rfl⟩ | ⟨rfl, hcopy, rfl⟩
  · exact ⟨_, rfl, erase_put_freshPlace _ directory path _, hget, hsame⟩
  · obtain ⟨place, held, old, spot, prior, hfind, hread, hspot, rfl⟩ := copy_eq_ok_iff.mp hcopy
    have hcopy' : (t.put (t.freshPlace directory path) (.file mode bytes)).copy path path.backup =
        .ok ((t.put (t.freshPlace directory path) (.file mode bytes)).put spot (.file held old)) :=
      copy_eq_ok_iff.mpr ⟨place, held, old, spot, prior, find_put_freshPlace_file_iff.mpr hfind,
        hread, writable_backup_put_freshPlace_iff.mpr hspot, rfl⟩
    have hne := ne_freshPlace_of_locate_backup t directory (writable_eq_ok_iff.mp hspot).1
    refine ⟨_, keep_eq_ok_iff.mpr (Or.inr ⟨rfl, hcopy', rfl⟩), ?_, ?_,
      hsame.trans (sameDirectories_copy hcopy')⟩
    · rw [erase_put_of_ne _ _ hne, t.erase_put_freshPlace]
    · rw [get?_put_of_ne _ _ hne.symm, hget]

/-- Where no copy can be made, none can be made with a file staged. -/
theorem exists_keep_of_keep_put_freshPlace
    (h : (t.put (t.freshPlace directory path) (.file mode bytes)).keep path keepBackup =
      .ok (kept, journal)) :
    ∃ kept', t.keep path keepBackup = .ok (kept', journal) := by
  rcases keep_eq_ok_iff.mp h with ⟨rfl, -, rfl⟩ | ⟨rfl, hcopy, rfl⟩
  · exact ⟨t, rfl⟩
  · obtain ⟨place, held, old, spot, prior, hfind, hread, hspot, -⟩ := copy_eq_ok_iff.mp hcopy
    exact ⟨_, keep_eq_ok_iff.mpr (Or.inr ⟨rfl, copy_eq_ok_iff.mpr ⟨place, held, old, spot, prior,
      find_put_freshPlace_file_iff.mp hfind, hread, writable_backup_put_freshPlace_iff.mp hspot,
      rfl⟩, rfl⟩)⟩

/-- A file that is there can be moved over one that a path leads to. -/
theorem moveOver_eq_ok {entry : Entry} (hsame : t.SameDirectories u)
    (hget : u.get? other = some entry) (hfind : t.find path = .ok (place, .file mode bytes)) :
    u.moveOver other path = .ok ((u.erase other).put place entry) := by
  have hlocate := (find_eq_file_iff.mp hfind).1
  rw [moveOver, hget, hsame.locate_eq_ok_iff.mp hlocate]
  exact if_neg (hsame.get?_ne_directory hfind)

/-! ### Replacing -/

/-- The file at a path can be replaced: there is one, and its copy can be made if it is wanted. -/
def Replaceable (t : Tree) (path : Path) (keepBackup : Bool) : Prop :=
  t.HoldsFile path ∧ ∃ kept, t.keep path keepBackup = .ok kept

/-- **What a replacement leaves**: the tree with the copy, and the new contents at the place of the
old ones, under the same permission bits. -/
theorem replaceFile_of_keep (contents : Bytes)
    (hfind : t.find path = .ok (place, .file mode bytes))
    (hkeep : t.keep path keepBackup = .ok (kept, journal)) :
    t.replaceFile path contents keepBackup =
      ⟨none, kept.put place (.file mode contents), journal⟩ := by
  obtain ⟨directory, name, hparent, -⟩ := exists_parent_of_find hfind
  obtain ⟨kept', hkeep', rfl, hget, hsame⟩ :=
    keep_put_freshPlace directory mode contents hkeep
  rw [replaceFile, hparent]
  simp only [find_put_freshPlace_file_iff.mpr hfind, put_put, hkeep',
    moveOver_eq_ok hsame hget hfind]

/-- **A directory is in the way of the staged file.** If no copy is wanted, this is found out when
the new contents are ready, and the failure holds them. -/
theorem replaceFile_over_directory (contents : Bytes)
    (hfind : t.find path = .ok (place, .directory)) (hparent : t.parent path = .ok directory) :
    t.replaceFile path contents false =
      ⟨some (.replace .isDirectory (t.freshPlace directory path)),
        t.put (t.freshPlace directory path) (.file 0o755 contents), []⟩ := by
  have hstaged (mode : Nat) :
      (t.put (t.freshPlace directory path) (.file mode contents)).find path =
        .ok (place, .directory) := find_put_freshPlace_directory_iff.mpr hfind
  obtain ⟨hlocate, hget⟩ := find_eq_directory_iff.mp (hstaged 0o755)
  have hfresh := t.get?_put_self (.file 0o755 contents) (t.isGiven_freshPlace directory path)
  rw [replaceFile, hparent]
  simp only [hstaged, put_put, keep, Bool.false_eq_true, if_false, moveOver, hfresh, hlocate, hget,
    if_true]

/-- **Any other failure leaves the tree there was.** -/
theorem replaceFile_eq_self (contents : Bytes) (h : ¬ t.Replaceable path keepBackup)
    (hdirectory : keepBackup = false → ¬ t.HoldsDirectory path) :
    ∃ e, t.replaceFile path contents keepBackup = ⟨some e, t, []⟩ ∧ e.staged? = none := by
  rw [replaceFile]
  cases hparent : t.parent path with
  | error cause => exact ⟨_, rfl, rfl⟩
  | ok directory =>
    simp only [put_put, erase_put_freshPlace]
    cases hfind : (t.put (t.freshPlace directory path) (.file 0o600 contents)).find path with
    | error cause => exact ⟨_, rfl, rfl⟩
    | ok found =>
      obtain ⟨place, entry⟩ := found
      cases entry with
      | directory =>
        have hdir := find_put_freshPlace_directory_iff.mp hfind
        cases keepBackup with
        | false => exact absurd ⟨place, hdir⟩ (hdirectory rfl)
        | true =>
          simp only [keep, if_true, copy, find_put_freshPlace_directory_iff.mpr hdir]
          exact ⟨_, rfl, rfl⟩
      | file mode old =>
        have hfile := find_put_freshPlace_file_iff.mp hfind
        dsimp only
        cases hkeep : (t.put (t.freshPlace directory path) (.file mode contents)).keep path
            keepBackup with
        | error cause => exact ⟨_, rfl, rfl⟩
        | ok kept =>
          obtain ⟨kept', hkept⟩ := exists_keep_of_keep_put_freshPlace hkeep
          exact absurd ⟨⟨place, mode, old, hfile⟩, _, hkept⟩ h

/-- **What a failure leaves**, once it is let go: the tree there was. -/
theorem replaceFile_of_not (contents : Bytes) (h : ¬ t.Replaceable path keepBackup) :
    ∃ e u, t.replaceFile path contents keepBackup = ⟨some e, u, []⟩ ∧ u.letGo e = t := by
  by_cases hheld : keepBackup = false ∧ t.HoldsDirectory path
  · obtain ⟨rfl, place, hfind⟩ := hheld
    obtain ⟨directory, hparent⟩ := exists_parent_of_locate (find_eq_directory_iff.mp hfind).1
    exact ⟨_, _, replaceFile_over_directory contents hfind hparent,
      t.erase_put_freshPlace directory path _⟩
  · obtain ⟨e, hreplace, hnone⟩ :=
      replaceFile_eq_self contents h fun hkept hdir => hheld ⟨hkept, hdir⟩
    exact ⟨e, t, hreplace, by rw [letGo, hnone]⟩

/-! ### What is where after a replacement -/

theorem read_eq_ok_iff :
    t.read path = .ok bytes ↔
      ∃ place mode, t.find path = .ok (place, .file mode bytes) ∧ mayRead mode = true := by
  rw [read]
  cases t.find path with
  | error cause => simp
  | ok found =>
    obtain ⟨place, entry⟩ := found
    cases entry with
    | directory => simp
    | file mode held =>
      simp only [Except.ok.injEq, Prod.mk.injEq, Entry.file.injEq]
      split_ifs with hread
      · exact ⟨fun h => ⟨place, mode, ⟨rfl, rfl, Except.ok.inj h⟩, hread⟩,
          fun ⟨_, _, ⟨_, _, h⟩, _⟩ => h ▸ rfl⟩
      · exact ⟨nofun, fun ⟨_, _, ⟨_, h, _⟩, hread'⟩ => absurd (h ▸ hread') hread⟩

theorem find_replaced (contents : Bytes) (hfind : t.find path = .ok (place, .file mode bytes))
    (hkeep : t.keep path keepBackup = .ok (kept, journal)) :
    (kept.put place (.file mode contents)).find path = .ok (place, .file mode contents) := by
  obtain ⟨hlocate, hfile, honly⟩ := find_eq_file_iff.mp hfind
  have hsame := sameDirectories_keep hkeep
  have hnot := hsame.get?_ne_directory hfind
  refine find_eq_file_iff.mpr ⟨?_, ?_, honly⟩
  · exact (hsame.trans (sameDirectories_put_file hnot mode contents)).locate_eq_ok_iff.mp hlocate
  · exact kept.get?_put_self _ (isGiven_eq_false_of_get?_ne hnot)

theorem exists_find_backup_replaced (contents : Bytes)
    (hfind : t.find path = .ok (place, .file mode bytes))
    (hkeep : t.keep path true = .ok (kept, journal)) :
    ∃ spot, (kept.put place (.file mode contents)).find path.backup =
      .ok (spot, .file mode bytes) := by
  have hsame := sameDirectories_keep hkeep
  have hnot := hsame.get?_ne_directory hfind
  rcases keep_eq_ok_iff.mp hkeep with ⟨hfalse, -⟩ | ⟨-, hcopy, -⟩
  · cases hfalse
  obtain ⟨_, _, _, spot, prior, hfind', -, hspot, rfl⟩ := copy_eq_ok_iff.mp hcopy
  cases hfind.symm.trans hfind'
  have hlocate := (writable_eq_ok_iff.mp hspot).1
  have hgiven := isGiven_eq_false_of_get?_ne (get?_ne_directory_of_writable hspot)
  refine ⟨spot, find_eq_file_iff.mpr ⟨?_, ?_, rfl⟩⟩
  · exact (hsame.trans (sameDirectories_put_file hnot mode contents)).locate_eq_ok_iff.mp hlocate
  · rw [get?_put_of_ne _ _ (ne_of_locate_backup hfind hlocate), t.get?_put_self _ hgiven]

/-- The path leads to the new contents. -/
theorem read_replaced {contents : Bytes} (hfind : t.find path = .ok (place, .file mode bytes))
    (hkeep : t.keep path keepBackup = .ok (kept, journal)) (hread : mayRead mode = true) :
    (kept.put place (.file mode contents)).read path = .ok contents :=
  read_eq_ok_iff.mpr ⟨place, mode, find_replaced contents hfind hkeep, hread⟩

/-- The path of the backup leads to the old contents. -/
theorem read_backup_replaced {contents : Bytes}
    (hfind : t.find path = .ok (place, .file mode bytes))
    (hkeep : t.keep path true = .ok (kept, journal)) (hread : mayRead mode = true) :
    (kept.put place (.file mode contents)).read path.backup = .ok bytes := by
  obtain ⟨spot, hbackup⟩ := exists_find_backup_replaced contents hfind hkeep
  exact read_eq_ok_iff.mpr ⟨spot, mode, hbackup, hread⟩

/-- **What has been replaced can be replaced again.** A backup has the permission bits of its file,
and the next one is written over it. So if there is one, these bits have to allow that. -/
theorem replaceable_replaced (contents : Bytes)
    (hfind : t.find path = .ok (place, .file mode bytes))
    (hkeep : t.keep path keepBackup = .ok (kept, journal))
    (hwrite : keepBackup = true → mayWrite mode = true) :
    (kept.put place (.file mode contents)).Replaceable path keepBackup := by
  have hdone := find_replaced contents hfind hkeep
  refine ⟨⟨place, mode, contents, hdone⟩, ?_⟩
  cases keepBackup with
  | false => exact ⟨_, rfl⟩
  | true =>
    obtain ⟨spot, hbackup⟩ := exists_find_backup_replaced contents hfind hkeep
    obtain ⟨hlocate, hget, honly⟩ := find_eq_file_iff.mp hbackup
    have hspot : (kept.put place (.file mode contents)).writable path.backup =
        .ok (spot, some mode) :=
      writable_eq_ok_iff.mpr ⟨hlocate, honly, Or.inr ⟨mode, bytes, hget, hwrite rfl, rfl⟩⟩
    rcases keep_eq_ok_iff.mp hkeep with ⟨hfalse, -⟩ | ⟨-, hcopy, -⟩
    · cases hfalse
    obtain ⟨_, _, _, _, _, hfind', hread, -, -⟩ := copy_eq_ok_iff.mp hcopy
    cases hfind.symm.trans hfind'
    have hagain := copy_eq_ok_iff.mpr ⟨place, mode, contents, spot, _, hdone, hread, hspot, rfl⟩
    exact ⟨_, keep_eq_ok_iff.mpr (Or.inr ⟨rfl, hagain, rfl⟩)⟩

/-- Nowhere else has anything changed. -/
theorem get?_replaced {contents : Bytes} (hfind : t.find path = .ok (place, .file mode bytes))
    (hkeep : t.keep path keepBackup = .ok (kept, journal)) (hne : t.locate path ≠ .ok other)
    (hbackup : keepBackup = true → t.locate path.backup ≠ .ok other) :
    (kept.put place (.file mode contents)).get? other = t.get? other := by
  have hplace : other ≠ place := fun h => hne (h ▸ (find_eq_file_iff.mp hfind).1)
  rw [get?_put_of_ne _ _ hplace]
  rcases keep_eq_ok_iff.mp hkeep with ⟨-, rfl, -⟩ | ⟨hkept, hcopy, -⟩
  · rfl
  · obtain ⟨_, _, _, spot, prior, -, -, hspot, rfl⟩ := copy_eq_ok_iff.mp hcopy
    have hspot' : other ≠ spot := fun h => hbackup hkept (h ▸ (writable_eq_ok_iff.mp hspot).1)
    exact get?_put_of_ne _ _ hspot'

end Tree

end ByteSplice
