import ByteSplice.Storage.Tree
import Mathlib.Tactic.SplitIfs

/-!
# Following paths in a tree that changes

Where a path leads depends on the directories of a tree and on nothing else: files are never gone
through, and the last name may stand for anything or for nothing. So putting a file where there is
no directory, or taking one away, leaves every path leading where it led. This is what makes it
possible to speak of *the* place of a path while files around it come and go.

Only the successful half of this is stated. How a path that leads nowhere fails may well change: a
name that stood for nothing may now stand for a file.

## Directories on the way

A tree is any list of entries, and it may have an entry whose directory is missing. Nothing is lost
by that. Whatever a path leads through is a directory together with everything above it
(`Paved`), so what lies behind a missing directory is never reached.

## Main definitions

* `Tree.SameDirectories`: two trees differ in files only.
* `Tree.Paved`: a place and everything above it are directories.

## Main results

* `Tree.SameDirectories.locate_eq_ok_iff`
* `Tree.find_eq_file_iff`, `Tree.find_eq_directory_iff`
* `Tree.exists_parent_of_find`: a path that leads to a file ends in the name of the file.
* `Tree.exists_parent_of_locate`: a path that leads anywhere leads there through a directory.
-/

namespace ByteSplice

namespace Place

theorem isGiven_concat {place : Place} {name : String} (hup : name ≠ "..") (hroot : name ≠ "/") :
    isGiven (place ++ [name]) = false := by
  cases place <;> simp [isGiven, root, hup, hroot]

/-- Above a place that is always there lie places that are always there. -/
theorem isGiven_of_isPrefix {place above : Place} (h : place.isGiven = true)
    (hpre : above <+: place) : above.isGiven = true := by
  simp only [isGiven, Bool.or_eq_true, List.all_eq_true, decide_eq_true_eq] at h ⊢
  rcases h with h | rfl
  · exact Or.inl fun name hname => h name (hpre.subset hname)
  · rcases List.prefix_cons_iff.mp hpre with rfl | ⟨rest, rfl, hrest⟩
    · simp
    · rw [List.prefix_nil.mp hrest]
      exact Or.inr rfl

end Place

namespace Tree

variable {t u v : Tree} {place other : Place}

/-! ### The view, without a condition on places -/

theorem get?_put_of_ne (t : Tree) (entry : Entry) (h : other ≠ place) :
    (t.put place entry).get? other = t.get? other := by
  cases hg : other.isGiven with
  | false => rw [t.get?_put place entry hg, if_neg h]
  | true => rw [get?_of_isGiven _ hg, get?_of_isGiven _ hg]

theorem get?_put_self (t : Tree) (entry : Entry) (h : place.isGiven = false) :
    (t.put place entry).get? place = some entry := by
  rw [t.get?_put place entry h, if_pos rfl]

/-- What is not a directory is not one of the places that are always there. -/
theorem isGiven_eq_false_of_get?_ne (h : t.get? place ≠ some .directory) :
    place.isGiven = false :=
  Bool.eq_false_iff.mpr fun hg => h (t.get?_of_isGiven hg)

/-! ### Trees with the same directories -/

/-- The two trees have their directories at the same places. -/
def SameDirectories (t u : Tree) : Prop :=
  ∀ place, t.get? place = some .directory ↔ u.get? place = some .directory

theorem SameDirectories.symm (h : t.SameDirectories u) : u.SameDirectories t :=
  fun place => (h place).symm

theorem SameDirectories.trans (h : t.SameDirectories u) (h' : u.SameDirectories v) :
    t.SameDirectories v :=
  fun place => (h place).trans (h' place)

/-- A file may be put wherever there is no directory. -/
theorem sameDirectories_put_file (h : t.get? place ≠ some .directory) (mode : Nat)
    (bytes : Bytes) : t.SameDirectories (t.put place (.file mode bytes)) := by
  intro other
  by_cases hp : other = place
  · subst hp
    rw [t.get?_put_self _ (isGiven_eq_false_of_get?_ne h)]
    simp [h]
  · rw [t.get?_put_of_ne _ hp]

/-! ### Following the names of a path -/

theorem step_eq_ok_iff {name : String} {next : Place} :
    t.step place name = .ok next ↔
      (name = ".." ∧ next = place.above) ∨
      (name ≠ ".." ∧ takesName name = true ∧ t.get? (place ++ [name]) = some .directory ∧
        next = place ++ [name]) := by
  rw [step]
  split_ifs with hup hlong
  · subst hup
    constructor
    · intro h
      exact Or.inl ⟨rfl, (Except.ok.inj h).symm⟩
    · rintro (⟨-, rfl⟩ | ⟨hne, -⟩)
      · rfl
      · exact absurd rfl hne
  · have htakes : takesName name = false := by simpa using hlong
    simp [hup, htakes]
  · cases hget : t.get? (place ++ [name]) with
    | none => simp [hup]
    | some entry =>
      cases entry with
      | file mode bytes => simp [hup]
      | directory =>
        have htakes : takesName name = true := by simpa using hlong
        simp [hup, htakes, eq_comm]

theorem enter_cons_eq_ok_iff {name : String} {rest : List String} {last : Place} :
    t.enter place (name :: rest) = .ok last ↔
      ∃ next, t.step place name = .ok next ∧ t.enter next rest = .ok last := by
  rw [enter]
  cases t.step place name with
  | error cause => simp
  | ok next => simp

theorem enter_append {names more : List String} {last : Place} :
    t.enter place (names ++ more) = .ok last ↔
      ∃ middle, t.enter place names = .ok middle ∧ t.enter middle more = .ok last := by
  induction names generalizing place with
  | nil => simp [enter]
  | cons name rest ih =>
    rw [List.cons_append, enter_cons_eq_ok_iff]
    simp only [enter_cons_eq_ok_iff, ih]
    constructor
    · rintro ⟨next, hstep, middle, hrest, hmore⟩
      exact ⟨middle, ⟨next, hstep, hrest⟩, hmore⟩
    · rintro ⟨middle, ⟨next, hstep, hrest⟩, hmore⟩
      exact ⟨next, hstep, middle, hrest, hmore⟩

theorem SameDirectories.enter (h : t.SameDirectories u) {names : List String} {last : Place}
    (ht : t.enter place names = .ok last) : u.enter place names = .ok last := by
  induction names generalizing place with
  | nil => exact ht
  | cons name rest ih =>
    obtain ⟨next, hstep, hrest⟩ := enter_cons_eq_ok_iff.mp ht
    refine enter_cons_eq_ok_iff.mpr ⟨next, ?_, ih hrest⟩
    rw [step_eq_ok_iff] at hstep ⊢
    rwa [← h]

theorem SameDirectories.approach (h : t.SameDirectories u) {path : Path}
    (ht : t.approach path = .ok place) : u.approach path = .ok place := by
  rw [Tree.approach] at ht ⊢
  split_ifs at ht ⊢ with hzero htext hempty hdot
  · exact h.enter ht
  · split at ht
    · exact ht
    · exact h.enter ht
    · cases hparent : t.parent path with
      | error cause => simp [hparent] at ht
      | ok directory =>
        have hparent' : u.parent path = .ok directory := h.enter hparent
        rw [hparent] at ht
        simpa [hparent'] using ht

theorem locate_eq_ok_iff {path : Path} :
    t.locate path = .ok place ↔ t.approach path = .ok place ∧ takesLast place = true := by
  rw [locate]
  cases t.approach path with
  | error cause => simp
  | ok found =>
    simp only [Except.ok.injEq]
    split_ifs with htakes
    · grind
    · grind

/-- **A path leads to the same place** in trees with the same directories. -/
theorem SameDirectories.locate_eq_ok_iff (h : t.SameDirectories u) {path : Path} :
    t.locate path = .ok place ↔ u.locate path = .ok place := by
  rw [Tree.locate_eq_ok_iff, Tree.locate_eq_ok_iff]
  exact and_congr_left fun _ => ⟨h.approach, h.symm.approach⟩

theorem find_eq_file_iff {path : Path} {mode : Nat} {bytes : Bytes} :
    t.find path = .ok (place, .file mode bytes) ↔
      t.locate path = .ok place ∧ t.get? place = some (.file mode bytes) ∧
        path.directoryOnly = false := by
  rw [find]
  cases t.locate path with
  | error cause => simp
  | ok found => cases hget : t.get? found <;> grind

theorem find_eq_directory_iff {path : Path} :
    t.find path = .ok (place, .directory) ↔
      t.locate path = .ok place ∧ t.get? place = some .directory := by
  rw [find]
  cases t.locate path with
  | error cause => simp
  | ok found => cases hget : t.get? found <;> grind

/-! ### What a path leads through -/

/-- The place and every place above it are directories. -/
def Paved (t : Tree) (place : Place) : Prop :=
  ∀ above, above <+: place → t.get? above = some .directory

theorem paved_of_isGiven (t : Tree) (h : place.isGiven = true) : t.Paved place :=
  fun _ hpre => t.get?_of_isGiven (Place.isGiven_of_isPrefix h hpre)

theorem paved_start (t : Tree) (path : Path) : t.Paved (Place.start path) := by
  refine t.paved_of_isGiven ?_
  rw [Place.start]
  split <;> rfl

theorem Paved.above (h : t.Paved place) : t.Paved place.above := by
  rw [Place.above]
  split_ifs with hroot hgiven
  · exact t.paved_of_isGiven rfl
  · refine t.paved_of_isGiven ?_
    simp only [Place.isGiven, Bool.or_eq_true, decide_eq_true_eq, hroot, or_false] at hgiven
    simp only [Place.isGiven, List.all_append, hgiven]
    rfl
  · exact fun above hpre => h above (hpre.trans (List.dropLast_prefix place))

theorem Paved.enter (h : t.Paved place) {names : List String} {last : Place}
    (ht : t.enter place names = .ok last) : t.Paved last := by
  induction names generalizing place with
  | nil =>
    obtain rfl : place = last := by simpa [Tree.enter] using ht
    exact h
  | cons name rest ih =>
    obtain ⟨next, hstep, hrest⟩ := enter_cons_eq_ok_iff.mp ht
    refine ih ?_ hrest
    rcases step_eq_ok_iff.mp hstep with ⟨-, rfl⟩ | ⟨-, -, hdir, rfl⟩
    · exact h.above
    · intro above hpre
      rcases List.prefix_concat_iff.mp hpre with rfl | hshort
      · exact hdir
      · exact h above hshort

/-- What names lead to one after the other is a directory. -/
theorem get?_of_enter_start {path : Path} {names : List String}
    (h : t.enter (Place.start path) names = .ok place) : t.get? place = some .directory :=
  (t.paved_start path).enter h place (List.prefix_refl place)

/-- Where all the names of a path can be gone through, so can all but the last. -/
theorem exists_parent_of_enter {path : Path}
    (h : t.enter (Place.start path) path.names = .ok place) :
    ∃ directory, t.parent path = .ok directory := by
  rcases path.names.eq_nil_or_concat with hnil | ⟨names, name, hnames⟩
  · exact ⟨Place.start path, by rw [parent, hnil, List.dropLast_nil, enter]⟩
  · rw [List.concat_eq_append] at hnames
    rw [hnames, enter_append] at h
    obtain ⟨directory, hparent, -⟩ := h
    exact ⟨directory, by rw [parent, hnames, List.dropLast_concat, hparent]⟩

/-- A path that leads anywhere, be it to nothing yet, leads there through a directory. -/
theorem exists_parent_of_locate {path : Path} (h : t.locate path = .ok place) :
    ∃ directory, t.parent path = .ok directory := by
  have happroach := (Tree.locate_eq_ok_iff.mp h).1
  rw [approach] at happroach
  split_ifs at happroach with hzero htext hempty hdot
  · exact exists_parent_of_enter happroach
  · split at happroach
    · next hnone =>
      have hnil : path.names = [] := List.getLast?_eq_none_iff.mp hnone
      exact ⟨Place.start path, by rw [parent, hnil, List.dropLast_nil, enter]⟩
    · exact exists_parent_of_enter happroach
    · cases hparent : t.parent path with
      | error cause => simp [hparent] at happroach
      | ok directory => exact ⟨directory, rfl⟩

/-- **A path that leads to a file ends in a name**, and the names before it lead to the directory
of the file. -/
theorem exists_parent_of_find {path : Path} {mode : Nat} {bytes : Bytes}
    (h : t.find path = .ok (place, .file mode bytes)) :
    ∃ directory name, t.parent path = .ok directory ∧ path.names.getLast? = some name ∧
      name ≠ ".." ∧ place = directory ++ [name] := by
  obtain ⟨hlocate, hfile, -⟩ := find_eq_file_iff.mp h
  have hnot : t.get? place ≠ some .directory := by simp [hfile]
  have happroach := (Tree.locate_eq_ok_iff.mp hlocate).1
  rw [approach] at happroach
  split_ifs at happroach with hzero htext hempty hdot
  · exact absurd (get?_of_enter_start happroach) hnot
  · split at happroach
    · cases happroach
      exact absurd (t.paved_start path _ (List.prefix_refl _)) hnot
    · exact absurd (get?_of_enter_start happroach) hnot
    · next name hname hlast =>
      cases hparent : t.parent path with
      | error cause => simp [hparent] at happroach
      | ok directory =>
        rw [hparent] at happroach
        exact ⟨directory, name, rfl, hlast, hname, (Except.ok.inj happroach).symm⟩

end Tree

end ByteSplice
