import ByteSplice.Bytes
import ByteSplice.Storage.Path

/-!
# Why storage says no

Operations on files fail for a `StorageCause`. A resource that cannot take new contents fails with
a `CommitError`, which says at which point it failed: before anything was touched, while the new
contents were made ready, or when they were to be moved into place.

In the last case the new contents are still where they were staged, so that whoever is told of the
failure might move them once more. The failure holds the staged file, and the file is removed when
the failure is let go. No other failure holds anything.

The wording of a cause is the one the operating system gives it, with its number.

## Main definitions

* `StorageCause` and `CommitError`, each with its `message`.
* `CommitError.staged?`
-/

namespace ByteSplice

/-- Why an operation on files fails. -/
inductive StorageCause
  /-- A name on the way, or the last one, does not exist. -/
  | notFound
  /-- The permission bits of a file do not let its owner do this. -/
  | permissionDenied
  /-- The root of the system was to be removed. -/
  | busy
  /-- Something that exists already was to be made. -/
  | alreadyExists
  /-- A file stands where a directory is needed. -/
  | notDirectory
  /-- A directory stands where a file is needed. -/
  | isDirectory
  /-- The operation makes no sense for this path. -/
  | invalidArgument
  /-- A name has more than 255 bytes. -/
  | nameTooLong
  /-- A directory that is to be removed has entries. -/
  | directoryNotEmpty
  /-- A path has a zero character in it. -/
  | zeroInPath
  /-- The bytes of a text file are not UTF-8. -/
  | notText
  /-- Something other than a file was to be copied. -/
  | notRegularFile
  /-- Any other cause, in its own words. -/
  | other (text : String)
  deriving DecidableEq, Repr

/-- The wording of a cause. -/
def StorageCause.message : StorageCause → String
  | .notFound => "No such file or directory (os error 2)"
  | .permissionDenied => "Permission denied (os error 13)"
  | .busy => "Device or resource busy (os error 16)"
  | .alreadyExists => "File exists (os error 17)"
  | .notDirectory => "Not a directory (os error 20)"
  | .isDirectory => "Is a directory (os error 21)"
  | .invalidArgument => "Invalid argument (os error 22)"
  | .nameTooLong => "File name too long (os error 36)"
  | .directoryNotEmpty => "Directory not empty (os error 39)"
  | .zeroInPath => "file name contained an unexpected NUL byte"
  | .notText => "stream did not contain valid UTF-8"
  | .notRegularFile => "the source path is neither a regular file nor a symlink to a regular file"
  | .other text => text

/-- Why a resource did not take its new contents. -/
inductive CommitError
  /-- The resource takes no contents at all. -/
  | readOnly (id : String)
  /-- The new contents, or the backup of the old ones, could not be written. -/
  | storage (cause : StorageCause)
  /-- The new contents could not be moved over the old ones. They are in a file at `staged`. -/
  | replace (cause : StorageCause) (staged : Place)
  deriving DecidableEq, Repr

/-- The wording of a failed commit. -/
def CommitError.message : CommitError → String
  | .readOnly id => "Resource '" ++ id ++ "' is read-only"
  | .storage cause => "Resource I/O error: " ++ cause.message
  | .replace cause _ =>
    "Failed to replace resource file: failed to persist temporary file: " ++ cause.message

/-- The place of the staged file that a failure holds. -/
def CommitError.staged? : CommitError → Option Place
  | .replace _ staged => some staged
  | _ => none

end ByteSplice
