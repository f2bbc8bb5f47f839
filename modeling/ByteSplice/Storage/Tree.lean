import ByteSplice.Storage.Cause
import ByteSplice.Storage.Path

/-!
# File trees

A file tree says, for each place, what is there: a file with its permission bits and its bytes, a
directory, or nothing. A place is a list of names from the directory in which the library works,
which is itself the empty list. A place above it begins with `..`, as often as it takes, and a place
on an absolute path with `/`. The working directory, those above it and the root are always there;
of what else they hold nothing is known, so it is as good as missing.

Paths are followed name by name. Everything but the last name has to be a directory that exists;
the last name may be missing, since some operations are about to make it. Operations either fail
for a cause and leave the tree alone, or return the tree they lead to.

The library acts as the owner of every file, with no right beyond that. Reading a file and writing
over one need the owner's bit for it; making, moving and removing files is up to the directories,
and those allow it.

`Tree.get?` is the one view of a tree that its laws are about: it is what `put` and `erase` change
at one place and nowhere else.

## Main definitions

* `Entry` and `Tree` with `get?`, `put` and `erase`.
* `Place.isGiven` and `Place.above`.
* `mayRead` and `mayWrite`.
* `Tree.enter` and `Tree.locate` follow paths.
* `read`, `readText`, `pathExists`, `write`, `copy`, `unlink`, `makeDirectory` and
  `removeDirectory`.
* `Tree.freshPlace`, where a file may be staged.
* `Tree.listing`.
-/

namespace ByteSplice

/-- What is at a place. -/
inductive Entry
  | file (mode : Nat) (bytes : Bytes)
  | directory
  deriving DecidableEq, Repr

namespace Place

/-- The root of the system. -/
def root : Place := ["/"]

/-- Whether a place is a directory whatever the tree holds: the working directory, one above it, or
the root. -/
def isGiven (place : Place) : Bool :=
  place.all (· = "..") || place = root

/-- The directory that a directory lies in; the root lies in itself. -/
def above (place : Place) : Place :=
  if place = root then root
  else if place.isGiven then place ++ [".."]
  else place.dropLast

/-- Where a path starts. -/
def start (path : Path) : Place :=
  if path.absolute then root else []

/-- Whether a place lies in the working directory. -/
def isInside (place : Place) : Bool :=
  match place with
  | [] => false
  | name :: _ => name ≠ ".." && name ≠ "/"

end Place

/-- What is where. -/
structure Tree where
  entries : List (Place × Entry) := []
  deriving DecidableEq, Repr, Inhabited

namespace Tree

/-! ### The view -/

/-- What is at a place. -/
def get? (t : Tree) (place : Place) : Option Entry :=
  if place.isGiven then some .directory else t.entries.lookup place

/-- The tree with nothing at a place. -/
def erase (t : Tree) (place : Place) : Tree :=
  ⟨t.entries.filter fun entry => entry.1 ≠ place⟩

/-- The tree with the given entry at a place. -/
def put (t : Tree) (place : Place) (entry : Entry) : Tree :=
  ⟨(place, entry) :: (t.erase place).entries⟩

theorem lookup_cons_ne {key other : Place} (h : other ≠ key) (value : Entry)
    (rest : List (Place × Entry)) : ((key, value) :: rest).lookup other = rest.lookup other := by
  rw [List.lookup_cons, beq_false_of_ne h]

theorem lookup_filter_ne (place other : Place) (entries : List (Place × Entry)) :
    (entries.filter fun entry => entry.1 ≠ place).lookup other =
      if other = place then none else entries.lookup other := by
  induction entries with
  | nil => simp
  | cons entry rest ih =>
    obtain ⟨key, value⟩ := entry
    by_cases hkey : key = place
    · rw [List.filter_cons_of_neg (by simp [hkey]), ih]
      by_cases h : other = place
      · rw [if_pos h, if_pos h]
      · rw [if_neg h, if_neg h, lookup_cons_ne (hkey ▸ h)]
    · rw [List.filter_cons_of_pos (by simp [hkey])]
      by_cases h : other = key
      · rw [h, List.lookup_cons_self, if_neg hkey, List.lookup_cons_self]
      · rw [lookup_cons_ne h, ih, lookup_cons_ne h]

/-- The working directory, those above it and the root are always there. -/
theorem get?_of_isGiven (t : Tree) {place : Place} (h : place.isGiven = true) :
    t.get? place = some .directory :=
  if_pos h

@[simp] theorem get?_nil (t : Tree) : t.get? [] = some .directory :=
  t.get?_of_isGiven rfl

/-- Removing changes what is at one place and nowhere else. -/
theorem get?_erase (t : Tree) (place : Place) {other : Place} (h : other.isGiven = false) :
    (t.erase place).get? other = if other = place then none else t.get? other := by
  simp only [get?, h, Bool.false_eq_true, if_false]
  exact lookup_filter_ne place other t.entries

/-- Putting changes what is at one place and nowhere else. -/
theorem get?_put (t : Tree) (place : Place) (entry : Entry) {other : Place}
    (h : other.isGiven = false) :
    (t.put place entry).get? other = if other = place then some entry else t.get? other := by
  by_cases hp : other = place
  · subst hp
    simp only [get?, h, Bool.false_eq_true, if_false, if_true]
    exact List.lookup_cons_self
  · have below := t.get?_erase place h
    rw [if_neg hp] at below ⊢
    rw [← below]
    simp only [get?, h, Bool.false_eq_true, if_false]
    exact lookup_cons_ne hp entry _

/-- Whether anything lies below a place. -/
def hasBelow (t : Tree) (place : Place) : Bool :=
  t.entries.any fun entry => place.isPrefixOf entry.1 && place.length < entry.1.length

/-! ### Following paths -/

/-- Whether the system takes a name: no more than 255 bytes. -/
def takesName (name : String) : Bool :=
  name.utf8ByteSize ≤ 255

/-- Goes from a directory into the one that a name stands for. -/
def step (t : Tree) (place : Place) (name : String) : Except StorageCause Place :=
  if name = ".." then .ok place.above
  else if !takesName name then .error .nameTooLong
  else
    match t.get? (place ++ [name]) with
    | none => .error .notFound
    | some (.file _ _) => .error .notDirectory
    | some .directory => .ok (place ++ [name])

/-- Goes into directory after directory. -/
def enter (t : Tree) (place : Place) : List String → Except StorageCause Place
  | [] => .ok place
  | name :: rest =>
    match t.step place name with
    | .error cause => .error cause
    | .ok next => t.enter next rest

/-- The directory that a path lies in. -/
def parent (t : Tree) (path : Path) : Except StorageCause Place :=
  t.enter (Place.start path) path.names.dropLast

/-- Whether the system takes the text of a path: fewer than 4096 bytes. -/
def takesText (path : Path) : Bool :=
  path.text.utf8ByteSize < 4096

/-- The place that a path leads to, where there may be nothing yet. Whether the system would take
the last name is left open. -/
def approach (t : Tree) (path : Path) : Except StorageCause Place :=
  if path.text.toList.contains '\x00' then .error .zeroInPath
  else if !takesText path then .error .nameTooLong
  else if path.text = "" then .error .notFound
  else if path.endsInDot then t.enter (Place.start path) path.names
  else
    match path.names.getLast? with
    | none => .ok (Place.start path)
    | some ".." => t.enter (Place.start path) path.names
    | some name =>
      match t.parent path with
      | .error cause => .error cause
      | .ok place => .ok (place ++ [name])

/-- Whether the system takes the last name of a place. -/
def takesLast (place : Place) : Bool :=
  (place.getLast?.map takesName).getD true

/-- The place that a path leads to, where there may be nothing yet. -/
def locate (t : Tree) (path : Path) : Except StorageCause Place :=
  match t.approach path with
  | .error cause => .error cause
  | .ok place => if takesLast place then .ok place else .error .nameTooLong

/-- The place that a path leads to, together with what is there. -/
def find (t : Tree) (path : Path) : Except StorageCause (Place × Entry) :=
  match t.locate path with
  | .error cause => .error cause
  | .ok place =>
    match t.get? place with
    | none => .error .notFound
    | some (.file mode bytes) =>
      if path.directoryOnly then .error .notDirectory else .ok (place, .file mode bytes)
    | some .directory => .ok (place, .directory)

/-! ### Operations -/

/-- Whether the owner of a file with these permission bits may read it. -/
def mayRead (mode : Nat) : Bool :=
  mode / 0o400 % 2 = 1

/-- Whether the owner of a file with these permission bits may write over it. -/
def mayWrite (mode : Nat) : Bool :=
  mode / 0o200 % 2 = 1

/-- The bytes of a file. -/
def read (t : Tree) (path : Path) : Except StorageCause Bytes :=
  match t.find path with
  | .error cause => .error cause
  | .ok (_, .directory) => .error .isDirectory
  | .ok (_, .file mode bytes) => if mayRead mode then .ok bytes else .error .permissionDenied

/-- The text of a file. -/
def readText (t : Tree) (path : Path) : Except StorageCause String :=
  match t.read path with
  | .error cause => .error cause
  | .ok bytes =>
    match String.fromUTF8? ⟨bytes.toArray⟩ with
    | none => .error .notText
    | some text => .ok text

/-- Whether a path leads to anything. -/
def pathExists (t : Tree) (path : Path) : Bool :=
  (t.find path).toBool

/-- The permission bits of a file that is made without saying which. -/
def defaultMode : Nat := 0o644

/-- Where a file may be written, and the permission bits it has there already. That a path can only
mean a directory counts before the last name is looked at. -/
def writable (t : Tree) (path : Path) : Except StorageCause (Place × Option Nat) :=
  match t.approach path with
  | .error cause => .error cause
  | .ok place =>
    if path.directoryOnly then .error .isDirectory
    else if !takesLast place then .error .nameTooLong
    else
      match t.get? place with
      | some .directory => .error .isDirectory
      | some (.file mode _) =>
        if mayWrite mode then .ok (place, some mode) else .error .permissionDenied
      | none => .ok (place, none)

/-- Gives a file new bytes, or makes it. -/
def write (t : Tree) (path : Path) (bytes : Bytes) : Except StorageCause Tree :=
  match t.writable path with
  | .error cause => .error cause
  | .ok (place, mode) => .ok (t.put place (.file (mode.getD defaultMode) bytes))

/-- Copies a file with its permission bits. -/
def copy (t : Tree) (source target : Path) : Except StorageCause Tree :=
  match t.find source with
  | .error cause => .error cause
  | .ok (_, .directory) => .error .notRegularFile
  | .ok (_, .file mode bytes) =>
    if !mayRead mode then .error .permissionDenied
    else
      match t.writable target with
      | .error cause => .error cause
      | .ok (place, _) => .ok (t.put place (.file mode bytes))

/-- Removes a file. -/
def unlink (t : Tree) (path : Path) : Except StorageCause Tree :=
  match t.find path with
  | .error cause => .error cause
  | .ok (_, .directory) => .error .isDirectory
  | .ok (place, .file _ _) => .ok (t.erase place)

/-- Makes a directory in one that exists. -/
def makeDirectory (t : Tree) (path : Path) : Except StorageCause Tree :=
  match t.locate path with
  | .error cause => .error cause
  | .ok place =>
    match t.get? place with
    | some _ => .error .alreadyExists
    | none => .ok (t.put place .directory)

/-- Removes a directory in which there is nothing. A path that ends in `..` names a directory by
one that lies in it, so there is something in it. -/
def removeDirectory (t : Tree) (path : Path) : Except StorageCause Tree :=
  match t.find path with
  | .error cause => .error cause
  | .ok (_, .file _ _) => .error .notDirectory
  | .ok (place, .directory) =>
    if path.endsInDot then .error .invalidArgument
    else if path.names = [] then .error .busy
    else if path.names.getLast? = some ".." || t.hasBelow place then .error .directoryNotEmpty
    else .ok (t.erase place)

/-! ### Staging -/

/-- More characters than any name in the tree has. -/
def nameBound (t : Tree) : Nat :=
  (t.entries.map fun entry => (entry.1.getLast?.getD "").length).foldl max 0

/-- A place in a directory at which there is nothing: its name is longer than all others, and longer
than the name of the file that is staged, also with `.bak` behind it. -/
def freshPlace (t : Tree) (directory : Place) (target : Path) : Place :=
  let length := max t.nameBound (target.backup.names.getLast?.getD "").length
  directory ++ [".tmp" ++ String.ofList (List.replicate length 'x')]

/-! ### Making and showing whole trees -/

/-- Goes along names, and makes each directory on the way that is not there. -/
def pave (t : Tree) (place : Place) : List String → Tree × Place
  | [] => (t, place)
  | name :: rest =>
    if name = ".." then t.pave place.above rest
    else
      let next := place ++ [name]
      let paved := if (t.get? next).isSome then t else t.put next .directory
      paved.pave next rest

/-- Adds a directory and the directories it lies in. -/
def addDirectory (t : Tree) (path : Path) : Tree :=
  (t.pave (Place.start path) path.names).1

/-- The permission bits of a file that is there already. -/
def mode? (t : Tree) (place : Place) : Option Nat :=
  match t.get? place with
  | some (.file mode _) => some mode
  | _ => none

/-- Adds a file and the directories it lies in. If no permission bits are given, it keeps those that
it has already. -/
def addFile (t : Tree) (path : Path) (mode : Option Nat) (bytes : Bytes) : Tree :=
  let (t, directory) := t.pave (Place.start path) path.names.dropLast
  let place := directory ++ path.names.getLast?.toList
  t.put place (.file ((mode.or (t.mode? place)).getD defaultMode) bytes)

/-- The tree of the given directories and files. -/
def ofLists (directories : List Path) (files : List (Path × Option Nat × Bytes)) : Tree :=
  files.foldl (fun t (path, mode, bytes) => t.addFile path mode bytes)
    (directories.foldl addDirectory {})

/-- The text under which a place is listed; a directory ends in a slash. -/
def listedName (entry : Place × Entry) : String :=
  let text := String.ofList (List.intercalate ['/'] (entry.1.map String.toList))
  match entry.2 with
  | .directory => text ++ "/"
  | .file _ _ => text

/-- Whether one byte string does not come after another. -/
def inOrder : Bytes → Bytes → Bool
  | [], _ => true
  | _ :: _, [] => false
  | x :: xs, y :: ys => x < y || (x = y && inOrder xs ys)

/-- What can be seen of an entry. A file that may not be read seems to be empty. -/
def visible : Entry → Entry
  | .file mode bytes => .file mode (if mayRead mode then bytes else [])
  | .directory => .directory

/-- Everything in the working directory, in the order of the bytes of the listed names. -/
def listing (t : Tree) : List (String × Entry) :=
  let inside := t.entries.filter fun entry => entry.1.isInside
  (inside.map fun entry => (listedName entry, visible entry.2)).mergeSort
    fun x y => inOrder x.1.toUTF8.toList y.1.toUTF8.toList

end Tree

end ByteSplice
