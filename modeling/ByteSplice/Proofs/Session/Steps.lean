import ByteSplice.Session

/-!
# What a step of a session can do

There are many kinds of steps, and for most questions only a few of them count. Requests are carried
out by one kind alone, plans are kept by one and observers are attached by one. All others are
`Reply.Quiet`: they answer with no outcome and no plan, and leave the observers and the kept plans
as they were. With `quiet_step` a proof has to look at three kinds of steps, and not at seventeen.

The contents of the resource are another matter. They may be written by carrying out a request, and
by the few kinds of steps that `Step.overwrites` lists. Whatever others do to the file tree, they do
behind the back of the resource, so it does not count (`data_step`).

## Runs

`Session.after` is where a run of steps leads to. What there is to be found along the way is
collected by `Session.along`, in the order of the steps.

## Main definitions

* `Session.data`
* `Reply.outcome?`, `Reply.plan?` and `Reply.Quiet`
* `Step.overwrites`
* `Session.along`

## Main results

* `Session.quiet_step`, `Session.data_step`
* `Session.exists_of_mem_along`, `Session.filterMap_run`
-/

namespace ByteSplice

/-- The current contents of the resource. -/
def Session.data (s : Session) : Bytes :=
  s.site.resource.data

/-! ### Steps that carry out no request -/

/-- The outcome that an answer holds. -/
def Answer.outcome? : Answer → Option Outcome
  | .outcome o => some o
  | _ => none

/-- The plan that an answer holds. -/
def Answer.plan? : Answer → Option Plan
  | .plan p => some p
  | _ => none

namespace Reply

/-- The outcome of a request that a step has carried out with success. -/
def outcome? (r : Reply) : Option Outcome :=
  match r.result with
  | .ok answer => answer.outcome?
  | .error _ => none

/-- The plan that a step has made to be kept. -/
def plan? (r : Reply) : Option Plan :=
  match r.result with
  | .ok answer => answer.plan?
  | .error _ => none

/-- The step has answered with no outcome and no plan, and the observers and the kept plans are what
they were. -/
structure Quiet (s : Session) (r : Reply) : Prop where
  outcome?_eq : r.outcome? = none
  plan?_eq : r.plan? = none
  observers_eq : r.session.observers = s.observers
  plans_eq : r.session.plans = s.plans

end Reply

/-- Whether a step may give the resource other contents without carrying out a request. -/
def Step.overwrites : Step → Bool
  | .applyHeld _ committed => committed
  | .commit _ | .hand _ | .openFile _ _ | .reopen _ => true
  | _ => false

namespace Session

variable {s : Session} {x : Step} {request : Request} {answer : Answer}

theorem quiet_refuse (s : Session) (e : StepError) : (s.refuse e).Quiet s :=
  ⟨rfl, rfl, rfl, rfl⟩

theorem quiet_commitAs (s : Session) (contents : Bytes) (houtcome : answer.outcome? = none)
    (hplan : answer.plan? = none) : (s.commitAs contents answer).Quiet s := by
  simp only [commitAs]
  split
  · exact ⟨rfl, rfl, rfl, rfl⟩
  · exact ⟨houtcome, hplan, rfl, rfl⟩

theorem quiet_applyHeld (s : Session) (number : Nat) (commit : Bool) :
    (s.applyHeld number commit).Quiet s := by
  rw [applyHeld]
  split
  · exact quiet_refuse s _
  · split
    · exact quiet_refuse s _
    · cases commit with
      | false => exact ⟨rfl, rfl, rfl, rfl⟩
      | true => exact quiet_commitAs s _ rfl rfl

theorem quiet_openAs (s : Session) (path : Path) (keepBackup : Bool)
    (fault : StorageCause → StepError) : (s.openAs path keepBackup fault).Quiet s := by
  rw [openAs]
  split
  · exact quiet_refuse s _
  · exact ⟨rfl, rfl, rfl, rfl⟩

theorem quiet_protect (s : Session) : s.protect.Quiet s := by
  rw [protect]
  split <;> exact ⟨rfl, rfl, rfl, rfl⟩

theorem quiet_reopen (s : Session) (keepBackup : Bool) : (s.reopen keepBackup).Quiet s := by
  rw [reopen]
  split
  · exact quiet_refuse s _
  · exact quiet_openAs s _ keepBackup _

theorem quiet_interfere (s : Session) (result : Except StorageCause Tree) :
    (s.interfere result).Quiet s := by
  cases result with
  | error cause => exact quiet_refuse s _
  | ok tree => exact ⟨rfl, rfl, rfl, rfl⟩

theorem quiet_preview (s : Session) (request : Request) : (s.step (.preview request)).Quiet s := by
  simp only [step, planned]
  split <;> exact ⟨rfl, rfl, rfl, rfl⟩

/-- **Three kinds of steps are not quiet.** -/
theorem quiet_step (s : Session) (x : Step) :
    (∃ request, x = .execute request) ∨ (∃ request, x = .hold request) ∨
      (∃ observer, x = .observe observer) ∨ (s.step x).Quiet s := by
  cases x with
  | execute request => exact Or.inl ⟨request, rfl⟩
  | hold request => exact Or.inr (Or.inl ⟨request, rfl⟩)
  | observe observer => exact Or.inr (Or.inr (Or.inl ⟨observer, rfl⟩))
  | preview request => exact Or.inr (Or.inr (Or.inr (quiet_preview s request)))
  | applyHeld number commit => exact Or.inr (Or.inr (Or.inr (quiet_applyHeld s number commit)))
  | commit contents => exact Or.inr (Or.inr (Or.inr (quiet_commitAs s contents rfl rfl)))
  | openFile path keepBackup => exact Or.inr (Or.inr (Or.inr (quiet_openAs s path keepBackup _)))
  | protect => exact Or.inr (Or.inr (Or.inr (quiet_protect s)))
  | reopen keepBackup => exact Or.inr (Or.inr (Or.inr (quiet_reopen s keepBackup)))
  | writeFile | removeFile | makeDirectory | removeDirectory =>
    exact Or.inr (Or.inr (Or.inr (quiet_interfere s _)))
  | observations | adopt | configure | hand => exact Or.inr (Or.inr (Or.inr ⟨rfl, rfl, rfl, rfl⟩))

/-! ### Steps that keep a plan -/

theorem plan?_hold_eq_some_iff {p : Plan} :
    (s.step (.hold request)).plan? = some p ↔
      s.rules.preview s.site.resource request = .ok p := by
  simp only [step, planned, Reply.plan?]
  cases s.rules.preview s.site.resource request with
  | error e => simp
  | ok q => simp [Answer.plan?]

theorem outcome?_hold (s : Session) (request : Request) :
    (s.step (.hold request)).outcome? = none := by
  simp only [step, planned, Reply.outcome?]
  cases s.rules.preview s.site.resource request <;> rfl

theorem observers_hold (s : Session) (request : Request) :
    (s.step (.hold request)).session.observers = s.observers := by
  simp only [step, planned]
  cases s.rules.preview s.site.resource request <;> rfl

/-! ### Steps that carry out a request -/

theorem session_execute (s : Session) (request : Request) :
    (s.step (.execute request)).session =
      { s with
        site := (s.rules.execute s.site s.observers request).site
        observers := (s.rules.execute s.site s.observers request).observers } := by
  simp only [step, execute]
  split <;> rfl

theorem site_execute (s : Session) (request : Request) :
    (s.step (.execute request)).session.site =
      (s.rules.execute s.site s.observers request).site := by
  rw [session_execute]

theorem data_execute (s : Session) (request : Request) :
    (s.step (.execute request)).session.data =
      (s.rules.execute s.site s.observers request).site.resource.data := by
  rw [data, site_execute]

theorem result_execute (s : Session) (request : Request) :
    (s.step (.execute request)).result =
      ((s.rules.execute s.site s.observers request).result.map .outcome).mapError .patch := by
  simp only [step, execute]
  cases (s.rules.execute s.site s.observers request).result <;> rfl

theorem outcome?_execute_eq_some_iff {o : Outcome} :
    (s.step (.execute request)).outcome? = some o ↔
      (s.rules.execute s.site s.observers request).result = .ok o := by
  simp only [step, execute, Reply.outcome?]
  cases (s.rules.execute s.site s.observers request).result with
  | error e => simp
  | ok o' => simp [Answer.outcome?]

theorem plan?_execute (s : Session) (request : Request) :
    (s.step (.execute request)).plan? = none := by
  simp only [step, execute, Reply.plan?]
  cases (s.rules.execute s.site s.observers request).result <;> rfl

/-! ### Steps that leave the contents alone -/

theorem site_planned (s : Session) (request : Request) (keep : Bool) (answer : Plan → Answer) :
    (s.planned request keep answer).session.site = s.site := by
  simp only [planned]
  split
  · rfl
  · cases keep <;> rfl

theorem data_protect (s : Session) : s.protect.session.data = s.data := by
  obtain ⟨⟨resource, tree⟩⟩ := s
  cases resource <;> rfl

theorem data_interfere (s : Session) (result : Except StorageCause Tree) :
    (s.interfere result).session.data = s.data := by
  cases result <;> rfl

/-- Applying a kept plan, and leaving it at that, changes nothing. -/
theorem session_applyHeld_false (s : Session) (number : Nat) :
    (s.step (.applyHeld number false)).session = s := by
  simp only [step, applyHeld]
  split
  · rfl
  · split <;> rfl

/-- **The contents stay**, unless a request is carried out or the step overwrites them. -/
theorem data_step (hx : x.overwrites = false) :
    (∃ request, x = .execute request) ∨ (s.step x).session.data = s.data := by
  cases x with
  | execute request => exact Or.inl ⟨request, rfl⟩
  | preview request | hold request =>
    exact Or.inr (congrArg (fun site => site.resource.data) (site_planned s request _ _))
  | applyHeld number commit =>
    obtain rfl : commit = false := hx
    exact Or.inr (congrArg data (session_applyHeld_false s number))
  | protect => exact Or.inr (data_protect s)
  | writeFile | removeFile | makeDirectory | removeDirectory => exact Or.inr (data_interfere s _)
  | observe | observations | adopt | configure => exact Or.inr rfl
  | commit | hand | openFile | reopen => cases hx

/-! ### Runs -/

theorem after_cons (s : Session) (x : Step) (rest : List Step) :
    s.after (x :: rest) = (s.step x).session.after rest :=
  rfl

theorem after_append (s : Session) (first rest : List Step) :
    s.after (first ++ rest) = (s.after first).after rest :=
  List.foldl_append

/-- What is to be found at the steps of a run, each looked at in the session it is taken in. -/
def along {α : Type} (find : Session → Step → Option α) (s : Session) : List Step → List α
  | [] => []
  | x :: rest => (find s x).toList ++ along find (s.step x).session rest

/-- What is found in a run is found at one of its steps. -/
theorem exists_of_mem_along {α : Type} {find : Session → Step → Option α} {a : α}
    {steps : List Step} (h : a ∈ s.along find steps) :
    ∃ before x later, steps = before ++ x :: later ∧ find (s.after before) x = some a := by
  induction steps generalizing s with
  | nil => exact absurd h List.not_mem_nil
  | cons x rest ih =>
    rcases List.mem_append.mp h with hhere | hlater
    · exact ⟨[], x, rest, rfl, Option.mem_toList.mp hhere⟩
    · obtain ⟨before, y, later, rfl, hfind⟩ := ih hlater
      exact ⟨x :: before, y, later, rfl, hfind⟩

/-- The replies of a run are found along the way. -/
theorem filterMap_run {α : Type} (find : Reply → Option α) (s : Session) (steps : List Step) :
    (s.run steps).filterMap find = s.along (fun s x => find (s.step x)) steps := by
  induction steps generalizing s with
  | nil => rfl
  | cons x rest ih =>
    rw [run, List.filterMap_cons, ih]
    cases hfind : find (s.step x) <;> simp [along, hfind]

end Session

end ByteSplice
