import ByteSplice.Digest
import ByteSplice.Scan

/-!
# Planning a replacement

A `Request` says what to find and what to put in its place; the `Rules` say how its texts are
encoded and what to do when nothing is found. Together with the contents of a resource they
determine a `Plan`: every substitution the request would make, and a verdict on whether it may
make them.

Planning has two stages. `Rules.survey` encodes the two texts and scans; its result is a `Survey`.
`Rules.judge` looks at the survey and either reports that nothing was found or gives the verdict.
The order in which a faulty request is turned down follows from this: the search text that cannot
be encoded, the empty search text, the replacement that cannot be encoded, nothing found.

A replacement that is longer than the match makes the resource grow at every occurrence. All
occurrences have the length of the pattern, so either all of them grow or none does, and with no
occurrence there is nothing to allow.

## Main definitions

* `Request`, `Rules`, `Survey`, `Plan` and `Verdict`.
* `Rules.evaluate` keeps a denial in the plan, `Rules.plan` turns it into an error.
* `PlanReport`, the summary of a plan that a dry run prints.
-/

namespace ByteSplice

/-- What to do when the search text does not occur. -/
inductive ZeroMatch
  /-- Succeed and change nothing. -/
  | silent
  /-- Fail. -/
  | report
  deriving DecidableEq, Repr, Inhabited

namespace ZeroMatch

/-- The name of a policy in settings. -/
def name : ZeroMatch → String
  | silent => "silent"
  | report => "report"

/-- Both policies, under their names. -/
def named : List (String × ZeroMatch) :=
  [silent, report].map fun z => (z.name, z)

end ZeroMatch

/-- What to find, what to put in its place, and under which two policies. -/
structure Request where
  findText : String
  replaceText : String := ""
  /-- Whether one zero byte follows every replacement. -/
  nullTerminate : Bool := true
  /-- Whether a replacement may be longer than what it replaces. -/
  allowOverflow : Bool := false
  deriving DecidableEq, Repr

/-- What holds for every request: the encoding of its texts, and what to do about no match. -/
structure Rules where
  encoding : Encoding := .utf8
  zeroMatch : ZeroMatch := .silent
  deriving DecidableEq, Repr, Inhabited

/-- The bytes written at every occurrence. -/
def replacementOfBytes (bytes : Bytes) (nullTerminate : Bool) : Bytes :=
  if nullTerminate then bytes ++ [0] else bytes

/-- The bytes that a replacement text is written as. -/
def replacementOfText (scheme : Encoding) (text : String) (nullTerminate : Bool) :
    Except PatchError Bytes :=
  match scheme.encode text with
  | .error fault => .error (.ofEncodeFault scheme fault)
  | .ok bytes => .ok (replacementOfBytes bytes nullTerminate)

/-- A request in bytes, and where it applies. -/
structure Survey where
  pattern : Pattern
  replacement : Bytes
  occurrences : List Occurrence
  deriving DecidableEq, Repr

/-- Whether a plan may be applied. -/
inductive Verdict
  | allowed
  | denied (reason : PatchError)
  deriving DecidableEq, Repr

/-- Every substitution a request would make in one particular byte string, which the plan knows by
its length and its digest. -/
structure Plan extends Survey where
  verdict : Verdict
  sourceLength : Nat
  sourceDigest : Digest
  deriving DecidableEq, Repr

namespace Rules

/-- Encodes the two texts of a request and scans for the first. -/
def survey (rules : Rules) (data : Bytes) (request : Request) : Except PatchError Survey :=
  match Pattern.ofText rules.encoding request.findText with
  | .error e => .error e
  | .ok pattern =>
    match replacementOfText rules.encoding request.replaceText request.nullTerminate with
    | .error e => .error e
    | .ok replacement => .ok ⟨pattern, replacement, findAll data pattern⟩

end Rules

/-- Whether a survey may be carried out: a replacement longer than some occurrence needs
permission. -/
def Survey.verdict (s : Survey) (allowOverflow : Bool) : Verdict :=
  if (s.occurrences.any fun o => o.length < s.replacement.length) && !allowOverflow then
    .denied (.overflow s.pattern.length s.replacement.length)
  else .allowed

namespace Rules

/-- The plan of a survey of `data`. -/
def judge (rules : Rules) (data : Bytes) (request : Request) (s : Survey) :
    Except PatchError Plan :=
  if s.occurrences.isEmpty && rules.zeroMatch = .report then .error .notFound
  else .ok { s with
    verdict := s.verdict request.allowOverflow
    sourceLength := data.length
    sourceDigest := Digest.ofBytes data }

/-- The plan of a request, also if its verdict is a denial. -/
def evaluate (rules : Rules) (data : Bytes) (request : Request) : Except PatchError Plan :=
  match rules.survey data request with
  | .error e => .error e
  | .ok s => rules.judge data request s

/-- The plan of a request; a denial is an error. -/
def plan (rules : Rules) (data : Bytes) (request : Request) : Except PatchError Plan :=
  match rules.evaluate data request with
  | .error e => .error e
  | .ok p =>
    match p.verdict with
    | .denied reason => .error reason
    | .allowed => .ok p

end Rules

/-- The summary of a plan. -/
structure PlanReport where
  offsets : List Nat
  searchLength : Nat
  replacementLength : Nat
  sourceLength : Nat
  outputLength : Nat
  sourceMd5 : String
  /-- The message of the denial, if there is one. -/
  reason : Option String
  deriving DecidableEq, Repr

namespace Plan

/-- Whether the plan may be applied. -/
def isAllowed (p : Plan) : Bool :=
  p.verdict = .allowed

/-- Whether there is nothing to substitute. -/
def isNoop (p : Plan) : Bool :=
  p.occurrences.isEmpty

/-- The length of the contents once every occurrence is substituted. -/
def outputLength (p : Plan) : Nat :=
  p.sourceLength - p.occurrences.length * p.pattern.length +
    p.occurrences.length * p.replacement.length

/-- The summary of a plan. -/
def report (p : Plan) : PlanReport where
  offsets := p.occurrences.map Occurrence.offset
  searchLength := p.pattern.length
  replacementLength := p.replacement.length
  sourceLength := p.sourceLength
  outputLength := p.outputLength
  sourceMd5 := p.sourceDigest.toHex
  reason :=
    match p.verdict with
    | .allowed => none
    | .denied e => some e.message

end Plan

end ByteSplice
