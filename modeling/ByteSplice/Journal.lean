import ByteSplice.PatchError
import ByteSplice.Storage.Cause
import ByteSplice.Change

/-!
# The journal of a request

Everything the library does leaves an entry in a journal, in the order in which it is done. An
entry is a value with what belongs to it; how entries look as fields of text is said in one place.

A request is in one of five states. It is received; then it is denied, or planned; a plan without
occurrences is completed at once, another one is applied first, unless its result cannot be
committed.

## Main definitions

* `RequestState`.
* `JournalEntry` with its `level`, `message?`, `fields` and `state?`.
-/

namespace ByteSplice

/-- Where a request stands. -/
inductive RequestState
  | received
  | planned
  | denied
  | applied
  | completed
  deriving DecidableEq, Repr

namespace RequestState

/-- The name of a state. -/
def name : RequestState → String
  | received => "received"
  | planned => "planned"
  | denied => "denied"
  | applied => "applied"
  | completed => "completed"

/-- Every state, in the order in which they are declared. -/
def all : List RequestState :=
  [received, planned, denied, applied, completed]

end RequestState

/-- How much an entry matters. -/
inductive Level
  | debug
  | info
  | warn
  deriving DecidableEq, Repr

/-- The name of a level. -/
def Level.name : Level → String
  | debug => "DEBUG"
  | info => "INFO"
  | warn => "WARN"

/-- One entry of the journal. -/
inductive JournalEntry
  /-- A request has come in; the lengths are those of its texts in UTF-8. -/
  | received (findLength replaceLength : Nat) (nullTerminate allowOverflow : Bool)
  /-- The contents have been scanned. -/
  | scanned (patternLength replacementLength occurrences : Nat)
  /-- The request was turned down. -/
  | rejected (error : PatchError)
  /-- There is a plan. -/
  | planned (occurrences : Nat)
  /-- The plan has no occurrences, so there is nothing to do. -/
  | unmatched
  /-- The old contents have been copied. -/
  | wroteBackup (path : String)
  /-- The new contents could not be committed. -/
  | commitFailed (error : CommitError)
  /-- The new contents are in place. -/
  | applied (occurrences oldLength newLength : Nat)
  /-- An observer failed to handle the change. -/
  | observerFailed (failure : ObserverFailure)
  /-- The request is done. -/
  | completed
  /-- A file has been opened as a resource. -/
  | loaded (path : String) (length : Nat)
  deriving DecidableEq, Repr

/-- What has been done, in order. -/
abbrev Journal := List JournalEntry

namespace JournalEntry

/-- How much an entry matters. -/
def level : JournalEntry → Level
  | rejected _ | commitFailed _ | observerFailed _ => .warn
  | unmatched | applied _ _ _ => .info
  | _ => .debug

/-- The state that an entry says a request has come to. -/
def state? : JournalEntry → Option RequestState
  | received _ _ _ _ => some .received
  | rejected _ => some .denied
  | planned _ => some .planned
  | applied _ _ _ => some .applied
  | unmatched | completed => some .completed
  | _ => none

/-- The sentence of an entry, if it has one. -/
def message? : JournalEntry → Option String
  | scanned _ _ _ => some "Scanned resource"
  | rejected _ => some "Request rejected"
  | unmatched => some "No occurrences found; resource left unchanged"
  | wroteBackup _ => some "Wrote backup"
  | commitFailed _ => some "Commit failed; original contents kept"
  | applied _ _ _ => some "Replaced occurrences"
  | observerFailed _ => some "Observer failed to handle change"
  | loaded _ _ => some "Loaded file resource"
  | _ => none

/-- What belongs to an entry, under names of its own; the state comes first. -/
def details : JournalEntry → List (String × String)
  | received findLength replaceLength nullTerminate allowOverflow =>
    [("find_len", toString findLength), ("replace_len", toString replaceLength),
      ("null_terminate", toString nullTerminate), ("allow_overflow", toString allowOverflow)]
  | scanned patternLength replacementLength occurrences =>
    [("pattern_len", toString patternLength), ("replacement_len", toString replacementLength),
      ("occurrences", toString occurrences)]
  | rejected error => [("error", error.message)]
  | planned occurrences => [("occurrences", toString occurrences)]
  | unmatched | completed => []
  | wroteBackup path => [("backup", path)]
  | commitFailed error => [("error", error.message)]
  | applied occurrences oldLength newLength =>
    [("occurrences", toString occurrences), ("old_len", toString oldLength),
      ("new_len", toString newLength)]
  | observerFailed failure => [("observer", failure.observer), ("error", failure.reason)]
  | loaded path length => [("path", path), ("len", toString length)]

/-- Every field of an entry but its level and its sentence. -/
def fields (e : JournalEntry) : List (String × String) :=
  (e.state?.map fun s => ("state", s.name)).toList ++ e.details

end JournalEntry

end ByteSplice
