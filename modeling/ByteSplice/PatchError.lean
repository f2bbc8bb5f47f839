import ByteSplice.Encoding

/-!
# How a request fails

Every way in which a find-and-replace request can be turned down, with the words that a caller is
shown. Nothing is ever partly applied, so there is no error that speaks of half a change.

The first four are found while a request is planned, the last two while a plan is applied or its
result is committed. Callers see an error as an `ErrorReport`: a kind that programs may branch on,
and a message that can be shown as it stands.

## Main definitions

* `PatchError`, `PatchError.message` and `PatchError.kind`.
* `ErrorKind` and its names.
* `ErrorReport`, the one shape in which errors leave the library.
-/

namespace ByteSplice

/-- Why a request was turned down. -/
inductive PatchError
  /-- The search text encodes to no bytes. -/
  | emptyPattern
  /-- The replacement is longer than what it replaces, and that is not allowed. -/
  | overflow (patternLength replacementLength : Nat)
  /-- There is no occurrence, and that is to be reported. -/
  | notFound
  /-- A text has no bytes under the encoding. -/
  | encoding (scheme : Encoding) (reason : String)
  /-- A plan does not fit what it is applied to. -/
  | illegalPlan (reason : String)
  /-- The resource did not take its new contents. -/
  | commitFailed (reason : String)
  deriving DecidableEq, Repr

/-- What kind of error it is, for programs. -/
inductive ErrorKind
  | emptyPattern
  | overflow
  | notFound
  | encoding
  | illegalPlan
  | commitFailed
  deriving DecidableEq, Repr

namespace ErrorKind

/-- The name of a kind in JSON. -/
def name : ErrorKind → String
  | emptyPattern => "empty_pattern"
  | overflow => "overflow"
  | notFound => "not_found"
  | encoding => "encoding"
  | illegalPlan => "illegal_plan"
  | commitFailed => "commit_failed"

/-- Every kind, under its name. -/
def named : List (String × ErrorKind) :=
  [emptyPattern, overflow, notFound, encoding, illegalPlan, commitFailed].map fun k => (k.name, k)

end ErrorKind

/-- An error as callers see it. -/
structure ErrorReport where
  kind : ErrorKind
  message : String
  deriving DecidableEq, Repr

namespace PatchError

/-- The kind of an error. -/
def kind : PatchError → ErrorKind
  | emptyPattern => .emptyPattern
  | overflow _ _ => .overflow
  | notFound => .notFound
  | encoding _ _ => .encoding
  | illegalPlan _ => .illegalPlan
  | commitFailed _ => .commitFailed

/-- The wording of an error. -/
def message : PatchError → String
  | emptyPattern => "Search text is empty; nothing to find"
  | overflow patternLength replacementLength =>
    "Replacement of " ++ toString replacementLength ++ " bytes is longer than the " ++
      toString patternLength ++ "-byte match and overflow is not allowed"
  | notFound => "Search text was not found in the resource"
  | encoding scheme reason => "Cannot encode text as " ++ scheme.label ++ ": " ++ reason
  | illegalPlan reason => "Refusing to apply plan: " ++ reason
  | commitFailed reason => "Failed to commit new contents: " ++ reason

/-- The report of an error. -/
def report (e : PatchError) : ErrorReport :=
  ⟨e.kind, e.message⟩

/-- A text that could not be encoded. -/
def ofEncodeFault (scheme : Encoding) (fault : EncodeFault) : PatchError :=
  encoding scheme fault.message

end PatchError

end ByteSplice
