import ByteSplice.Storage.Path
import Mathlib.Tactic.SplitIfs

/-!
# The path of a backup

The backup of a file lies beside it, and its last name is that of the file with `.bak` behind it.
That name is never `..`, and it is longer than the name it comes from, so the two are different
places of one directory.

The text of the path is put together anew from pieces of the text that was given. Whether the
system takes a path depends on this text, and one thing about it is needed: it has no characters
but those of the given text, slashes and `.bak`. So if the path of a file has no zero character in
it, the path of its backup has none either.

## Main definitions

* `Path.backupName`

## Main results

* `Path.getLast?_names_backup`
* `Path.not_mem_text_backup`
-/

namespace ByteSplice

namespace Path

/-- The last name of a backup. -/
def backupName (path : Path) : String :=
  path.names.getLast?.getD "" ++ ".bak"

theorem length_backupName (path : Path) :
    path.backupName.length = (path.names.getLast?.getD "").length + 4 :=
  String.length_append _ _

theorem backupName_ne_up (path : Path) : path.backupName ≠ ".." := by
  intro h
  have hdots : path.backupName.length = 2 := h ▸ rfl
  have hlength := path.length_backupName
  omega

theorem getLast?_names_backup (path : Path) :
    path.backup.names.getLast? = some path.backupName := by
  simp [backup, backupName]

/-! ### The characters of its text -/

variable {c : Char}

theorem mem_of_mem_pieces {text piece : List Char} (h : piece ∈ pieces text) (hc : c ∈ piece) :
    c ∈ text := by
  induction text generalizing piece with
  | nil => simp_all [pieces]
  | cons first rest ih =>
    rw [pieces] at h
    split_ifs at h with hslash
    · rcases List.mem_cons.mp h with rfl | hrest
      · exact absurd hc List.not_mem_nil
      · exact List.mem_cons_of_mem _ (ih hrest hc)
    · split at h <;> grind

theorem dropIdle_subset (parts : List (List Char)) : dropIdle parts ⊆ parts := by
  cases parts with
  | nil => exact fun _ h => h
  | cons head rest =>
    refine List.cons_subset_cons head fun piece h => ?_
    exact List.mem_reverse.mp (List.dropWhile_subset _ (List.mem_reverse.mp h))

theorem mem_of_mem_joined {parts : List (List Char)} (h : c ∈ (joined parts).toList) :
    c = '/' ∨ ∃ piece ∈ parts, c ∈ piece := by
  rw [joined, String.toList_ofList] at h
  induction parts with
  | nil => exact absurd h List.not_mem_nil
  | cons head rest ih =>
    cases rest with
    | nil =>
      rw [List.intercalate_singleton] at h
      exact Or.inr ⟨head, List.mem_cons_self, h⟩
    | cons next rest =>
      rw [List.intercalate_cons_cons, List.mem_append, List.mem_append, List.mem_singleton] at h
      rcases h with (hhead | hslash) | hrest
      · exact Or.inr ⟨head, List.mem_cons_self, hhead⟩
      · exact Or.inl hslash
      · rcases ih hrest with hslash | ⟨piece, hpiece, hc⟩
        · exact Or.inl hslash
        · exact Or.inr ⟨piece, List.mem_cons_of_mem _ hpiece, hc⟩

theorem mem_of_mem_directoryText {text : String} (h : c ∈ (directoryText text).toList) :
    c = '/' ∨ c ∈ text.toList := by
  rw [directoryText] at h
  split at h
  · exact absurd h List.not_mem_nil
  · rw [String.toList_append, List.mem_append] at h
    rcases h with h | h
    · rcases mem_of_mem_joined h with hslash | ⟨piece, hpiece, hc⟩
      · exact Or.inl hslash
      · have hpiece := dropIdle_subset _ (List.dropLast_subset _ (dropIdle_subset _ hpiece))
        exact Or.inr (mem_of_mem_pieces hpiece hc)
    · exact Or.inl (by simpa using h)

theorem mem_of_mem_names {text name : String} (h : name ∈ (ofText text).names)
    (hc : c ∈ name.toList) : c ∈ text.toList := by
  obtain ⟨piece, hpiece, rfl⟩ := List.mem_map.mp h
  rw [String.toList_ofList] at hc
  exact mem_of_mem_pieces (List.mem_filter.mp hpiece).1 hc

theorem not_mem_text_backup {text : String} (h : '\x00' ∉ text.toList) :
    '\x00' ∉ (ofText text).backup.text.toList := by
  intro hc
  have hsplit : '\x00' ∈ (directoryText text ++ (ofText text).backupName).toList := hc
  rw [backupName, String.toList_append, String.toList_append, List.mem_append,
    List.mem_append] at hsplit
  rcases hsplit with hdir | hname | hbak
  · rcases mem_of_mem_directoryText hdir with hslash | hc
    · exact absurd hslash (by decide)
    · exact h hc
  · cases hlast : (ofText text).names.getLast? with
    | none =>
      rw [hlast] at hname
      exact absurd hname List.not_mem_nil
    | some name =>
      rw [hlast] at hname
      exact h (mem_of_mem_names (List.mem_of_getLast? hlast) hname)
  · exact absurd hbak (by decide)

end Path

end ByteSplice
