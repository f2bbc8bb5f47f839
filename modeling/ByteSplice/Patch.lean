import ByteSplice.Resource
import ByteSplice.Splice

/-!
# Carrying out a request

`Rules.execute` carries a request through: it plans, splices, commits and tells the observers. It
is all or nothing. Whatever goes wrong, the resource keeps its contents and no observer hears of
the request; if all goes well, each observer is told once, after the commit.

`Rules.preview` plans the same request against the same contents and stops there. It treats a plan
that the length policy forbids as an answer, not as an error.

A request that matches nothing succeeds without a commit, so it succeeds on a read-only resource,
and no backup is written.

## Main definitions

* `Outcome`, what a caller learns of a request that succeeded.
* `Execution`, all that one execution leads to, and `Rules.execute`.
* `Rules.preview`.
-/

namespace ByteSplice

/-- A request that succeeded. -/
structure Outcome where
  resourceId : String
  occurrences : Nat
  /-- Whether the resource has new contents. -/
  changed : Bool
  oldLength : Nat
  newLength : Nat
  deriving DecidableEq, Repr

/-- All that one execution leads to. -/
structure Execution where
  result : Except PatchError Outcome
  site : Site
  observers : List Observer
  journal : Journal

/-- What replacing by a plan changes in a resource. -/
def Plan.change (p : Plan) (resourceId : String) (output : Bytes) : Change where
  resourceId := resourceId
  occurrences := p.occurrences.length
  oldLength := p.sourceLength
  newLength := output.length
  oldMd5 := p.sourceDigest.toHex
  newMd5 := (Digest.ofBytes output).toHex

/-- The outcome that goes with a change. -/
def Change.outcome (c : Change) : Outcome :=
  ⟨c.resourceId, c.occurrences, true, c.oldLength, c.newLength⟩

/-- The outcome of a request that matched nothing. -/
def Resource.unchanged (r : Resource) : Outcome :=
  ⟨r.id, 0, false, r.data.length, r.data.length⟩

namespace Rules

/-- What planning a request notes: the scan, if it gets that far. -/
def scanJournal (rules : Rules) (data : Bytes) (request : Request) : Journal :=
  match rules.survey data request with
  | .error _ => []
  | .ok s => [.scanned s.pattern.length s.replacement.length s.occurrences.length]

/-- Plans a request without carrying it out. -/
def preview (rules : Rules) (resource : Resource) (request : Request) : Except PatchError Plan :=
  rules.evaluate resource.data request

/-- Splices by a plan, commits the result and tells the observers. -/
def carryOut (site : Site) (observers : List Observer) (p : Plan) : Execution :=
  match p.apply site.resource.data with
  | .error refusal => ⟨.error refusal.toPatchError, site, observers, []⟩
  | .ok output =>
    let c := site.commit output
    match c.failure with
    | some e =>
      ⟨.error (.commitFailed e.message), c.site.letGo e, observers,
        c.journal ++ [.commitFailed e]⟩
    | none =>
      let change := p.change site.resource.id output
      let (told, failures) := notifyAll change observers
      ⟨.ok change.outcome, c.site, told,
        c.journal ++ [.applied change.occurrences change.oldLength change.newLength] ++
          failures.map .observerFailed ++ [.completed]⟩

/-- Carries out a request against the resource of a site. -/
def execute (rules : Rules) (site : Site) (observers : List Observer) (request : Request) :
    Execution :=
  let data := site.resource.data
  let begun := .received request.findText.utf8ByteSize request.replaceText.utf8ByteSize
    request.nullTerminate request.allowOverflow :: rules.scanJournal data request
  match rules.plan data request with
  | .error e => ⟨.error e, site, observers, begun ++ [.rejected e]⟩
  | .ok p =>
    let planned := begun ++ [.planned p.occurrences.length]
    if p.isNoop then ⟨.ok site.resource.unchanged, site, observers, planned ++ [.unmatched]⟩
    else
      let x := carryOut site observers p
      { x with journal := planned ++ x.journal }

end Rules

end ByteSplice
