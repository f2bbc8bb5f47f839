import ByteSplice.Digest

/-!
# Changes and those who watch them

When a request has changed a resource, everybody who shows the resource has to know. They are told
by a `Change`: which resource, how many occurrences, and the lengths and digests before and after.

An `Observer` is told of each change once, in the order in which observers were attached. It may
fail to make use of what it is told. That is noted and goes no further: the change stays, and the
observers after it are told all the same.

## Main definitions

* `Change`.
* `Observer` and `Observer.notify`; `notifyAll` for a list of them.
-/

namespace ByteSplice

/-- What has changed in a resource. -/
structure Change where
  resourceId : String
  occurrences : Nat
  oldLength : Nat
  newLength : Nat
  oldMd5 : String
  newMd5 : String
  deriving DecidableEq, Repr

/-- Somebody who is told of changes. -/
inductive Observer
  /-- Ignores every change. -/
  | noop
  /-- Keeps every change, in order. -/
  | recording (seen : List Change)
  /-- Fails at every change. -/
  | failing
  deriving DecidableEq, Repr

namespace Observer

/-- The name under which an observer appears in the log. -/
def name : Observer → String
  | noop => "NoOpObserver"
  | recording _ => "RecordingObserver"
  | failing => "FailingObserver"

/-- Tells one observer of a change: what becomes of it, and why it failed if it did. -/
def notify (change : Change) : Observer → Observer × Option String
  | noop => (noop, none)
  | recording seen => (recording (seen ++ [change]), none)
  | failing => (failing, some "view is gone")

end Observer

/-- An observer that failed, by name, and why. -/
structure ObserverFailure where
  observer : String
  reason : String
  deriving DecidableEq, Repr

/-- Tells every observer of a change, in order, whoever fails. -/
def notifyAll (change : Change) (observers : List Observer) :
    List Observer × List ObserverFailure :=
  (observers.map fun o => (o.notify change).1,
    observers.filterMap fun o => (o.notify change).2.map fun reason => ⟨o.name, reason⟩)

end ByteSplice
