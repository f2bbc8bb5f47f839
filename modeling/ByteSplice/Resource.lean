import ByteSplice.Journal
import ByteSplice.Storage.Tree

/-!
# Resources

A resource is something with contents that can be searched and replaced as a whole: a byte string
in memory, or a file. A file resource has read its file once and answers from what it read; what
others do to the file afterwards does not show in it. A resource and the file tree it lives in make
up a `Site`. A resource in memory has no use for the tree.

## Committing

`Site.commit` gives a resource new contents. For a file it takes these steps.

1. The new contents are written to a fresh file beside the old one, in the same directory, so that
   moving it later does not copy anything.
2. The fresh file takes the permission bits of what is at the path now. If there is nothing, the
   commit fails.
3. With backup on, what is at the path now is copied beside it. That need not be what the resource
   has read.
4. The fresh file is moved over the path. If a directory is there, the commit fails.

If one of the first three steps fails, the fresh file is removed before the commit reports its
failure. If the last one fails, the failure holds the fresh file. It is still there when the commit
is over, and it is removed when the failure is let go (`Site.letGo`). The engine does that at once:
all it keeps of a failure is the wording.

A backup that has been written stays, but after writing one no step can fail: where there was a file
to copy there is a file to move over.

## Main definitions

* `Resource` with `id`, `data` and `Resource.openFile`.
* `Site`, `Site.commit` and `Site.letGo`.
-/

namespace ByteSplice

/-- Something with contents that can be replaced. -/
inductive Resource
  /-- A byte string in memory, which may refuse to be changed. -/
  | memory (name : String) (contents : Bytes) (readOnly : Bool)
  /-- A file that was read once, and whether its old contents are kept at each commit. -/
  | file (path : Path) (contents : Bytes) (keepBackup : Bool)
  deriving DecidableEq, Repr

namespace Resource

/-- What a resource is called in journals and changes. -/
def id : Resource → String
  | memory name _ _ => name
  | file path _ _ => path.text

/-- The current contents. -/
def data : Resource → Bytes
  | memory _ contents _ => contents
  | file _ contents _ => contents

/-- Reads a file and makes it a resource. -/
def openFile (tree : Tree) (path : Path) (keepBackup : Bool) :
    Except StorageCause (Resource × Journal) :=
  match tree.read path with
  | .error cause => .error cause
  | .ok bytes => .ok (file path bytes keepBackup, [.loaded path.text bytes.length])

end Resource

/-- A resource, and the file tree it lives in. -/
structure Site where
  resource : Resource
  tree : Tree := {}
  deriving DecidableEq, Repr

/-- How a commit went: whether it failed, the site as the commit leaves it, and what it noted. -/
structure Commit where
  failure : Option CommitError
  site : Site
  journal : Journal
  deriving DecidableEq, Repr

/-- How replacing a file went: whether it failed, the tree as it is left, and what was noted. -/
structure FileCommit where
  failure : Option CommitError
  tree : Tree
  journal : Journal
  deriving DecidableEq, Repr

namespace Tree

/-- Copies what is at a path to its backup, if that is wanted. -/
def keep (t : Tree) (path : Path) (keepBackup : Bool) : Except StorageCause (Tree × Journal) :=
  if keepBackup then
    match t.copy path path.backup with
    | .error cause => .error cause
    | .ok t' => .ok (t', [.wroteBackup path.backup.text])
  else .ok (t, [])

/-- Moves the file at a place over a path, whether or not a file is there. -/
def moveOver (t : Tree) (place : Place) (path : Path) : Except StorageCause Tree :=
  match t.get? place, t.locate path with
  | none, _ => .error .notFound
  | some _, .error cause => .error cause
  | some entry, .ok target =>
    if t.get? target = some .directory then .error .isDirectory
    else .ok ((t.erase place).put target entry)

/-- Gives the file at a path new contents. A failure leaves the tree as it was, but for the staged
file that the failure may hold. -/
def replaceFile (t : Tree) (path : Path) (contents : Bytes) (keepBackup : Bool) : FileCommit :=
  match t.parent path with
  | .error cause => ⟨some (.storage cause), t, []⟩
  | .ok directory =>
    let fresh := t.freshPlace directory path
    let staged := t.put fresh (.file 0o600 contents)
    match staged.find path with
    | .error cause => ⟨some (.storage cause), staged.erase fresh, []⟩
    | .ok (_, current) =>
      let mode :=
        match current with
        | .file mode _ => mode
        | .directory => 0o755
      let ready := staged.put fresh (.file mode contents)
      match ready.keep path keepBackup with
      | .error cause => ⟨some (.storage cause), ready.erase fresh, []⟩
      | .ok (kept, journal) =>
        match kept.moveOver fresh path with
        | .error cause => ⟨some (.replace cause fresh), kept, journal⟩
        | .ok done => ⟨none, done, journal⟩

/-- The tree once the failure of a commit is let go, and the staged file with it. -/
def letGo (t : Tree) (failure : CommitError) : Tree :=
  match failure.staged? with
  | some staged => t.erase staged
  | none => t

end Tree

/-- The site once the failure of a commit is let go, and the staged file with it. -/
def Site.letGo (site : Site) (failure : CommitError) : Site :=
  { site with tree := site.tree.letGo failure }

/-- Gives the resource of a site new contents, or leaves the resource as it was. -/
def Site.commit (site : Site) (contents : Bytes) : Commit :=
  match site.resource with
  | .memory name _ true => ⟨some (.readOnly name), site, []⟩
  | .memory name _ false => ⟨none, { site with resource := .memory name contents false }, []⟩
  | .file path _ keepBackup =>
    let r := site.tree.replaceFile path contents keepBackup
    match r.failure with
    | some e => ⟨some e, { site with tree := r.tree }, r.journal⟩
    | none => ⟨none, ⟨.file path contents keepBackup, r.tree⟩, r.journal⟩

end ByteSplice
