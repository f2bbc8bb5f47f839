import ByteSplice.Plan

/-!
# Applying a plan

A plan is applied by walking through its occurrences with a cursor into the given bytes: the
bytes between the cursor and the occurrence are kept, the replacement is written, and the cursor
moves behind the occurrence. Offsets always refer to the given bytes, so growth or shrinkage at one
occurrence never moves another.

Three things make a plan unfit. It may have been denied; it may have been made for other contents,
which shows in their length or digest; and its occurrences may overlap, run backwards or reach
beyond the end. The last cannot happen to a plan that `Rules.evaluate` made, but a plan is a value
that anybody can build, so the walk checks each occurrence before it cuts.

The numbers here have no bound. What the same walk comes to in the words of a machine is in
`Plan.applyIn`.

## Main definitions

* `Refusal` and its wording.
* `splice`, the walk, and `Plan.apply`.
-/

namespace ByteSplice

/-- Why a plan is not applied. -/
inductive Refusal
  /-- The plan's own verdict forbids it. -/
  | denied (reason : PatchError)
  /-- The contents are not those the plan was made for. -/
  | otherContents
  /-- An occurrence starts before the end of the one before it, or ends beyond the contents. -/
  | misplaced (offset : Nat)
  deriving DecidableEq, Repr

namespace Refusal

/-- The wording of a refusal. -/
def message : Refusal → String
  | denied reason => "plan was denied (" ++ reason.message ++ ")"
  | otherContents => "plan was computed for different resource contents"
  | misplaced offset =>
    "occurrence at offset " ++ toString offset ++ " is out of order or out of bounds"

/-- A refusal as the error of a request. -/
def toPatchError (r : Refusal) : PatchError :=
  .illegalPlan r.message

end Refusal

/-- Puts `written`, pieces of output in reverse, in front of `rest` with the given occurrences
replaced. Here `rest` is what lies behind the cursor in contents of `total` bytes. -/
def splice (replacement : Bytes) (total : Nat) (written : List Bytes) (cursor : Nat)
    (rest : Bytes) : List Occurrence → Except Refusal Bytes
  | [] => .ok (rest :: written).reverse.flatten
  | o :: more =>
    if o.offset < cursor ∨ total < o.stop then .error (.misplaced o.offset)
    else
      splice replacement total (replacement :: rest.take (o.offset - cursor) :: written) o.stop
        (rest.drop (o.stop - cursor)) more

/-- The contents with every occurrence of the plan replaced. -/
def Plan.apply (p : Plan) (data : Bytes) : Except Refusal Bytes :=
  match p.verdict with
  | .denied reason => .error (.denied reason)
  | .allowed =>
    if data.length ≠ p.sourceLength ∨ Digest.ofBytes data ≠ p.sourceDigest then
      .error .otherContents
    else splice p.replacement data.length [] 0 data p.occurrences

end ByteSplice
