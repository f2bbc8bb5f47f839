import ByteSplice.Patch
import ByteSplice.Settings

/-!
# Sessions

A session is one resource over time. Requests are carried out against it one after the other,
observers are attached, plans are made and kept for later, the settings change, and the file tree
may be changed by others behind the back of the resource.

Each of these is a `Step`. `Session.step` says what a step answers, what it leaves behind and what
it notes in the journal; `Session.run` takes a list of steps. A step that fails leaves the session
as it was, and the session goes on.

A kept plan belongs to the contents that it was made for. It stays good while they stay the same,
and becomes good again when they come back; against any other contents it is refused
(`Plan.apply`).

## Main definitions

* `Session` and `Step`.
* `Answer` and `StepError`, what a step can say.
* `Reply`, all that a step leads to; `Session.step` and `Session.run`.
-/

namespace ByteSplice

/-- One resource over time, and what belongs to it. -/
structure Session where
  site : Site
  rules : Rules := {}
  settings : Settings := {}
  /-- Those who are told of changes, in the order in which they came. -/
  observers : List Observer := []
  /-- Plans kept for later, by number. -/
  plans : List Plan := []
  deriving DecidableEq, Repr

/-- What may be done in a session. -/
inductive Step
  /-- Carries out a request. -/
  | execute (request : Request)
  /-- Plans a request and reports on the plan. -/
  | preview (request : Request)
  /-- Plans a request and keeps the plan. -/
  | hold (request : Request)
  /-- Applies a kept plan, and commits the outcome if that is wanted. -/
  | applyHeld (number : Nat) (commit : Bool)
  /-- Gives the resource new contents. -/
  | commit (contents : Bytes)
  /-- Attaches an observer. -/
  | observe (observer : Observer)
  /-- Asks after the observers. -/
  | observations
  /-- Changes the rules. -/
  | adopt (rules : Rules)
  /-- Changes the settings, and the rules with them. -/
  | configure (settings : Settings)
  /-- Puts a resource in memory in the place of the resource. -/
  | hand (resource : Resource)
  /-- Opens a file in the place of the resource. -/
  | openFile (path : Path) (keepBackup : Bool)
  /-- Makes a resource in memory refuse to be changed. -/
  | protect
  /-- Opens the file of the resource again, with or without backups. -/
  | reopen (keepBackup : Bool)
  /-- Writes a file behind the back of the resource. -/
  | writeFile (path : Path) (contents : Bytes)
  /-- Removes a file behind the back of the resource. -/
  | removeFile (path : Path)
  /-- Makes a directory behind the back of the resource. -/
  | makeDirectory (path : Path)
  /-- Removes a directory behind the back of the resource. -/
  | removeDirectory (path : Path)
  deriving DecidableEq, Repr

/-- What a step says if it succeeds. -/
inductive Answer
  | outcome (outcome : Outcome)
  | report (report : PlanReport)
  | plan (plan : Plan)
  /-- What a kept plan has made of the contents. -/
  | spliced (output : Bytes)
  | committed
  /-- How many observers there are. -/
  | observerCount (count : Nat)
  /-- Every observer as it is now. -/
  | observers (observers : List Observer)
  | rules (rules : Rules)
  | settings (settings : Settings)
  | resource (resource : Resource)
  /-- How many bytes a protected resource has. -/
  | length (bytes : Nat)
  | done
  deriving DecidableEq, Repr

/-- What a step says if it fails. -/
inductive StepError
  /-- A request was turned down. -/
  | patch (error : PatchError)
  /-- A file could not be opened as a resource. -/
  | opening (cause : StorageCause)
  /-- The file tree could not be changed, or a resource not be opened again. -/
  | storage (cause : StorageCause)
  /-- There is no plan of this number. -/
  | noPlan (number : Nat)
  /-- The resource is not a file. -/
  | notFile
  deriving DecidableEq, Repr

/-- All that a step leads to. -/
structure Reply where
  result : Except StepError Answer
  session : Session
  journal : Journal := []

namespace Session

/-- The session with another file tree. -/
def withTree (s : Session) (tree : Tree) : Session :=
  { s with site := { s.site with tree := tree } }

/-- The session with another resource. -/
def withResource (s : Session) (resource : Resource) : Session :=
  { s with site := { s.site with resource := resource } }

/-- The reply of a step that fails and changes nothing. -/
def refuse (s : Session) (error : StepError) : Reply :=
  ⟨.error error, s, []⟩

/-- Carries out a request. -/
def execute (s : Session) (request : Request) : Reply :=
  let x := s.rules.execute s.site s.observers request
  let session := { s with site := x.site, observers := x.observers }
  match x.result with
  | .error e => ⟨.error (.patch e), session, x.journal⟩
  | .ok outcome => ⟨.ok (.outcome outcome), session, x.journal⟩

/-- Plans a request; `keep` says whether the plan is kept, and `answer` what is said of it. -/
def planned (s : Session) (request : Request) (keep : Bool) (answer : Plan → Answer) : Reply :=
  let journal := s.rules.scanJournal s.site.resource.data request
  match s.rules.preview s.site.resource request with
  | .error e => ⟨.error (.patch e), s, journal⟩
  | .ok p => ⟨.ok (answer p), if keep then { s with plans := s.plans ++ [p] } else s, journal⟩

/-- Commits new contents and says `answer` if they are taken. Of a failure only the wording is
kept. -/
def commitAs (s : Session) (contents : Bytes) (answer : Answer) : Reply :=
  let c := s.site.commit contents
  match c.failure with
  | some e =>
    ⟨.error (.patch (.commitFailed e.message)), { s with site := c.site.letGo e }, c.journal⟩
  | none => ⟨.ok answer, { s with site := c.site }, c.journal⟩

/-- Applies a kept plan to the current contents. -/
def applyHeld (s : Session) (number : Nat) (commit : Bool) : Reply :=
  match s.plans[number]? with
  | none => s.refuse (.noPlan number)
  | some p =>
    match p.apply s.site.resource.data with
    | .error refusal => s.refuse (.patch refusal.toPatchError)
    | .ok output =>
      if commit then s.commitAs output (.spliced output) else ⟨.ok (.spliced output), s, []⟩

/-- Opens a file as the resource; `fault` says how a failure is spoken of. -/
def openAs (s : Session) (path : Path) (keepBackup : Bool) (fault : StorageCause → StepError) :
    Reply :=
  match Resource.openFile s.site.tree path keepBackup with
  | .error cause => s.refuse (fault cause)
  | .ok (resource, journal) => ⟨.ok (.resource resource), s.withResource resource, journal⟩

/-- Makes a resource in memory refuse to be changed. -/
def protect (s : Session) : Reply :=
  match s.site.resource with
  | .memory name contents _ =>
    ⟨.ok (.length contents.length), s.withResource (.memory name contents true), []⟩
  | .file _ contents _ => ⟨.ok (.length contents.length), s, []⟩

/-- Opens the file of the resource again. -/
def reopen (s : Session) (keepBackup : Bool) : Reply :=
  match s.site.resource with
  | .memory _ _ _ => s.refuse .notFile
  | .file path _ _ => s.openAs path keepBackup .storage

/-- Takes what an operation on files makes of the tree. -/
def interfere (s : Session) (result : Except StorageCause Tree) : Reply :=
  match result with
  | .error cause => s.refuse (.storage cause)
  | .ok tree => ⟨.ok .done, s.withTree tree, []⟩

/-- Takes one step. -/
def step (s : Session) : Step → Reply
  | .execute request => s.execute request
  | .preview request => s.planned request false fun p => .report p.report
  | .hold request => s.planned request true .plan
  | .applyHeld number commit => s.applyHeld number commit
  | .commit contents => s.commitAs contents .committed
  | .observe observer =>
    let observers := s.observers ++ [observer]
    ⟨.ok (.observerCount observers.length), { s with observers }, []⟩
  | .observations => ⟨.ok (.observers s.observers), s, []⟩
  | .adopt rules => ⟨.ok (.rules rules), { s with rules }, []⟩
  | .configure settings =>
    ⟨.ok (.settings settings), { s with settings, rules := settings.rules }, []⟩
  | .hand resource => ⟨.ok (.resource resource), s.withResource resource, []⟩
  | .openFile path keepBackup => s.openAs path keepBackup .opening
  | .protect => s.protect
  | .reopen keepBackup => s.reopen keepBackup
  | .writeFile path contents => s.interfere (s.site.tree.write path contents)
  | .removeFile path => s.interfere (s.site.tree.unlink path)
  | .makeDirectory path => s.interfere (s.site.tree.makeDirectory path)
  | .removeDirectory path => s.interfere (s.site.tree.removeDirectory path)

/-- Takes steps one after the other and returns their replies. -/
def run (s : Session) : List Step → List Reply
  | [] => []
  | x :: rest =>
    let reply := s.step x
    reply :: run reply.session rest

/-- The session after some steps. -/
def after (s : Session) (steps : List Step) : Session :=
  steps.foldl (fun s x => (s.step x).session) s

end Session

end ByteSplice
