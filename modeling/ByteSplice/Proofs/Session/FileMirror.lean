import ByteSplice.Proofs.FileExecution
import ByteSplice.Proofs.Rewriting
import ByteSplice.Proofs.Session.AuditTrail

/-!
# A file resource does what a resource in memory does

Take two sessions with the same rules and the same contents, one with a byte string in memory and
one with a file that has just been opened, and give both of them the same requests. Nobody can tell
them apart but by the name of the resource. Answers, events and contents are the same all along, and
the file itself has these contents too, as long as nobody else touches the tree.

What carries this through a run is `Session.Mirrors`. It holds between the two sessions at the start
and after every step (`Mirrors.step`). It says of the tree that the file can be replaced, and that
this can be done again (`Site.RenewsBackup`), since the backup that one request leaves has to be
written over by the next.

The backup cannot be read off the sessions as they are. It has what the file had before the latest
request that has changed something, and requests since then have not touched it.

## Main definitions

* `Outcome.named`, `Change.named` and `Answer.named`: the same of another resource.
* `Step.keepsToRequests`
* `Session.Mirrors`

## Main results

* `Rules.Ends.result_named`
* `Session.Mirrors.step`, `Session.mirrors_after`
* `Session.file_mirrors_memory`
-/

namespace ByteSplice

/-! ### The same of another resource -/

def Outcome.named (id : String) (o : Outcome) : Outcome :=
  { o with resourceId := id }

def Change.named (id : String) (c : Change) : Change :=
  { c with resourceId := id }

/-- An answer with another name for the resource, where it has a name in it. -/
def Answer.named (id : String) : Answer → Answer
  | .outcome o => .outcome (o.named id)
  | answer => answer

theorem Outcome.event_named (o : Outcome) (id : String) (before after : Bytes) :
    (o.named id).event before after = (o.event before after).map (Change.named id) := by
  cases hchanged : o.changed with
  | true => simp [event, named, hchanged, change, Change.named]
  | false => simp [event, named, hchanged]

namespace Rules

variable {rules : Rules} {site site' : Site} {observers others : List Observer}
  {request : Request} {x y : Execution}

/-- Of two writable sites with the same contents one can be told from the other by its name only. -/
theorem Ends.result_named (h : rules.Ends site observers request x)
    (h' : rules.Ends site' others request y) (hwritable : site.IsWritable)
    (hwritable' : site'.IsWritable) (hdata : site'.resource.data = site.resource.data) :
    y.result = x.result.map (Outcome.named site'.resource.id) := by
  rw [h'.result_of_isWritable hwritable', h.result_of_isWritable hwritable, hdata]
  cases rules.plan site.resource.data request <;> rfl

end Rules

/-! ### Two sessions -/

/-- The step carries out a request, or sets the rules for later ones. -/
def Step.keepsToRequests : Step → Bool
  | .execute _ | .adopt _ | .configure _ => true
  | _ => false

namespace Session

variable {s t : Session} {x : Step} {steps : List Step} {text : String} {path : Path}
  {keepBackup : Bool} {request : Request}

/-- `t` has a file with the contents that `s` has in memory, and the file can be replaced. -/
structure Mirrors (s t : Session) (path : Path) (keepBackup : Bool) : Prop where
  rules_eq : t.rules = s.rules
  memory : ∃ name, s.site.resource = .memory name s.data false
  file : t.site.resource = .file path s.data keepBackup
  read_eq : t.site.tree.read path = .ok s.data
  isWritable_file : t.site.IsWritable
  renews : t.site.RenewsBackup

theorem Mirrors.data_eq (h : s.Mirrors t path keepBackup) : t.data = s.data := by
  rw [data, h.file, Resource.data]

theorem Mirrors.isWritable (h : s.Mirrors t path keepBackup) : s.site.IsWritable := by
  obtain ⟨name, hmemory⟩ := h.memory
  rw [Site.IsWritable, hmemory]

/-! ### One step -/

theorem Mirrors.result_execute (h : s.Mirrors t (.ofText text) keepBackup) (request : Request) :
    (t.rules.execute t.site t.observers request).result =
      (s.rules.execute s.site s.observers request).result.map (Outcome.named text) := by
  have hends := s.rules.execute_ends s.site s.observers request
  have hends' := t.rules.execute_ends t.site t.observers request
  rw [h.rules_eq] at hends' ⊢
  rw [hends.result_named hends' h.isWritable h.isWritable_file h.data_eq, h.file]
  rfl

theorem Mirrors.execute (h : s.Mirrors t (.ofText text) keepBackup) (request : Request) :
    (s.step (.execute request)).session.Mirrors (t.step (.execute request)).session
      (.ofText text) keepBackup := by
  have hends := s.rules.execute_ends s.site s.observers request
  have hends' := t.rules.execute_ends t.site t.observers request
  have hdata : (s.step (.execute request)).session.data = s.rules.rewritten s.data request := by
    rw [data_execute, hends.resource_of_isWritable h.isWritable, Resource.data_withData, data]
  have hfile : (t.rules.execute t.site t.observers request).site.resource =
      .file (.ofText text) (s.step (.execute request)).session.data keepBackup := by
    rw [hends'.resource_of_isWritable h.isWritable_file, h.rules_eq, hdata, h.file]
    rfl
  have hread := hends'.read_eq h.file h.read_eq
  rw [hfile, Resource.data] at hread
  refine ⟨?_, ?_, by rw [site_execute, hfile], by rw [site_execute, hread], ?_, ?_⟩
  · rw [session_execute, session_execute]
    exact h.rules_eq
  · obtain ⟨name, hmemory⟩ := h.memory
    refine ⟨name, ?_⟩
    rw [hdata, site_execute, hends.resource_of_isWritable h.isWritable, hmemory]
    rfl
  · rw [site_execute]
    exact hends'.isWritable h.isWritable_file h.renews
  · rw [site_execute]
    exact hends'.renewsBackup h.isWritable_file h.renews

/-- **One step**, and the two sessions are still alike. -/
theorem Mirrors.step (h : s.Mirrors t (.ofText text) keepBackup) (hx : x.keepsToRequests = true) :
    (s.step x).session.Mirrors (t.step x).session (.ofText text) keepBackup := by
  cases x with
  | execute request => exact h.execute request
  | adopt | configure => exact ⟨rfl, h.memory, h.file, h.read_eq, h.isWritable_file, h.renews⟩
  | _ => cases hx

theorem Mirrors.result_step (h : s.Mirrors t (.ofText text) keepBackup)
    (hx : x.keepsToRequests = true) :
    (t.step x).result = (s.step x).result.map (Answer.named text) := by
  cases x with
  | execute request =>
    rw [Session.result_execute, Session.result_execute, h.result_execute]
    cases (s.rules.execute s.site s.observers request).result <;> rfl
  | adopt | configure => rfl
  | _ => cases hx

theorem Mirrors.event_eq (h : s.Mirrors t (.ofText text) keepBackup)
    (hx : x.keepsToRequests = true) : t.event x = (s.event x).map (Change.named text) := by
  cases x with
  | execute request =>
    have hafter := (h.execute request).data_eq
    rw [data_execute, data_execute] at hafter
    rw [event_execute, event_execute, Execution.event, Execution.event, h.result_execute, hafter,
      h.data_eq]
    cases (s.rules.execute s.site s.observers request).result with
    | error e => rfl
    | ok o => exact o.event_named text _ _
  | adopt | configure => rfl
  | _ => cases hx

/-- A step either replaces the file or leaves the site as it was, and the event says which. -/
theorem Mirrors.site_step_of_event_eq_none (h : s.Mirrors t (.ofText text) keepBackup)
    (hx : x.keepsToRequests = true) (hevent : s.event x = none) :
    (t.step x).session.site = t.site := by
  cases x with
  | execute request =>
    have hevent' : t.event (.execute request) = none := by rw [h.event_eq hx, hevent]; rfl
    rw [event_execute] at hevent'
    rw [site_execute]
    exact (t.rules.execute_ends t.site t.observers request).site_eq_of_event_eq_none hevent'
  | adopt | configure => rfl
  | _ => cases hx

theorem Mirrors.replaced_step (h : s.Mirrors t (.ofText text) keepBackup)
    (hx : x.keepsToRequests = true) (hevent : s.event x ≠ none) :
    t.site.tree.Replaced (t.step x).session.site.tree (.ofText text) keepBackup s.data
      (s.step x).session.data := by
  cases x with
  | execute request =>
    have hevent' : t.event (.execute request) ≠ none := by
      rw [h.event_eq hx]
      simpa using hevent
    rw [event_execute, h.data_eq] at hevent'
    have hreplaced := (t.rules.execute_ends t.site t.observers request).replaced_of_event h.file
      h.read_eq hevent'
    rw [← (h.execute request).data_eq, data_execute, site_execute]
    exact hreplaced
  | adopt | configure => exact absurd rfl hevent
  | _ => cases hx

/-! ### Runs -/

/-- **Sessions that are alike stay so**, all along a run. -/
theorem Mirrors.after (h : s.Mirrors t (.ofText text) keepBackup)
    (hsteps : ∀ x ∈ steps, x.keepsToRequests = true) :
    (s.after steps).Mirrors (t.after steps) (.ofText text) keepBackup := by
  induction steps generalizing s t with
  | nil => exact h
  | cons x rest ih =>
    obtain ⟨hx, hrest⟩ := List.forall_mem_cons.mp hsteps
    exact ih (h.step hx) hrest

theorem Mirrors.results (h : s.Mirrors t (.ofText text) keepBackup)
    (hsteps : ∀ x ∈ steps, x.keepsToRequests = true) :
    (t.run steps).map Reply.result =
      (s.run steps).map fun r => r.result.map (Answer.named text) := by
  induction steps generalizing s t with
  | nil => rfl
  | cons x rest ih =>
    obtain ⟨hx, hrest⟩ := List.forall_mem_cons.mp hsteps
    rw [run, run, List.map_cons, List.map_cons, h.result_step hx, ih (h.step hx) hrest]

theorem Mirrors.events (h : s.Mirrors t (.ofText text) keepBackup)
    (hsteps : ∀ x ∈ steps, x.keepsToRequests = true) :
    t.along event steps = (s.along event steps).map (Change.named text) := by
  induction steps generalizing s t with
  | nil => rfl
  | cons x rest ih =>
    obtain ⟨hx, hrest⟩ := List.forall_mem_cons.mp hsteps
    rw [along, along, List.map_append, h.event_eq hx, ih (h.step hx) hrest, Option.toList_map]

theorem Mirrors.site_after_of_events_eq_nil (h : s.Mirrors t (.ofText text) keepBackup)
    (hsteps : ∀ x ∈ steps, x.keepsToRequests = true) (hnone : s.along event steps = []) :
    (t.after steps).site = t.site := by
  induction steps generalizing s t with
  | nil => rfl
  | cons x rest ih =>
    obtain ⟨hx, hrest⟩ := List.forall_mem_cons.mp hsteps
    obtain ⟨hhere, hlater⟩ := List.append_eq_nil_iff.mp hnone
    have hevent : s.event x = none := Option.toList_eq_nil_iff.mp hhere
    rw [after_cons, ih (h.step hx) hrest hlater, h.site_step_of_event_eq_none hx hevent]

theorem Mirrors.sameBeside_after (h : s.Mirrors t (.ofText text) keepBackup)
    (hsteps : ∀ x ∈ steps, x.keepsToRequests = true) :
    t.site.tree.SameBeside (t.after steps).site.tree (.ofText text) keepBackup := by
  induction steps generalizing s t with
  | nil => exact .refl _ _ _
  | cons x rest ih =>
    obtain ⟨hx, hrest⟩ := List.forall_mem_cons.mp hsteps
    refine Tree.SameBeside.trans ?_ (ih (h.step hx) hrest)
    by_cases hevent : s.event x = none
    · rw [h.site_step_of_event_eq_none hx hevent]
      exact .refl _ _ _
    · exact (h.replaced_step hx hevent).toSameBeside

/-- The backup is what the latest request that has changed something has left there. -/
theorem Mirrors.read_backup_after (h : s.Mirrors t (.ofText text) true) {before later : List Step}
    (hsteps : ∀ y ∈ before ++ x :: later, y.keepsToRequests = true)
    (hevent : (s.after before).event x ≠ none)
    (hlatest : ((s.after before).step x).session.along event later = []) :
    (t.after (before ++ x :: later)).site.tree.read (Path.ofText text).backup =
      .ok (s.after before).data := by
  obtain ⟨hbefore, hrest⟩ := List.forall_mem_append.mp hsteps
  obtain ⟨hx, hlater⟩ := List.forall_mem_cons.mp hrest
  have hhere := h.after hbefore
  rw [after_append, after_cons, (hhere.step hx).site_after_of_events_eq_nil hlater hlatest]
  exact (hhere.replaced_step hx hevent).read_backup_eq rfl

theorem mirrors_of_openFile {name : String} {contents : Bytes} {journal : Journal}
    (hmemory : s.site.resource = .memory name contents false)
    (hopen : Resource.openFile t.site.tree (.ofText text) keepBackup =
      .ok (t.site.resource, journal))
    (hdata : t.data = contents) (hrules : t.rules = s.rules)
    (hunhindered : keepBackup = true → t.site.tree.Unhindered (.ofText text) true ∧
      ¬ t.site.tree.HoldsDirectory (Path.ofText text).backup)
    (hrenews : t.site.RenewsBackup) :
    s.Mirrors t (.ofText text) keepBackup := by
  have hcontents : s.data = contents := by rw [data, hmemory, Resource.data]
  rw [Resource.openFile] at hopen
  cases hread : t.site.tree.read (.ofText text) with
  | error cause => simp [hread] at hopen
  | ok bytes =>
    simp only [hread, Except.ok.injEq, Prod.mk.injEq] at hopen
    obtain rfl : bytes = s.data := by
      rw [hcontents, ← hdata, data, ← hopen.1, Resource.data]
    refine ⟨hrules, ⟨name, hcontents ▸ hmemory⟩, hopen.1.symm, hread, ?_, hrenews⟩
    obtain ⟨place, mode, hfind, -⟩ := Tree.read_eq_ok_iff.mp hread
    have hfile : t.site.tree.HoldsFile (.ofText text) := ⟨place, mode, s.data, hfind⟩
    rw [Site.IsWritable, ← hopen.1]
    cases keepBackup with
    | false => exact ⟨hfile, _, rfl⟩
    | true =>
      obtain ⟨hclear, hbackup⟩ := hunhindered rfl
      exact hclear.replaceable_iff.mpr ⟨hfile, fun _ => hbackup⟩

/-- **A file resource does what a resource in memory does.** Take a writable byte string in memory
and a file with the same contents that has been opened in a tree nobody else touches, and carry out
any requests on both of them, under any rules. If backups are kept, nothing must be in their way,
and the file must be one that may be written over, since its backups have its permission bits.

All along, answers and events are the same but for the name of the resource, both resources have the
same contents, and so has the file itself. The backup is what the file had before the latest request
that has changed something. If there was none, the whole tree is as it was, and in any case nothing
but the file and its backup has changed in it. -/
theorem file_mirrors_memory {name : String} {contents : Bytes} {journal : Journal}
    (hmemory : s.site.resource = .memory name contents false)
    (hopen : Resource.openFile t.site.tree (.ofText text) keepBackup =
      .ok (t.site.resource, journal))
    (hdata : t.data = contents) (hrules : t.rules = s.rules)
    (hunhindered : keepBackup = true → t.site.tree.Unhindered (.ofText text) true ∧
      ¬ t.site.tree.HoldsDirectory (Path.ofText text).backup)
    (hrenews : t.site.RenewsBackup)
    (hsteps : ∀ x ∈ steps, x.keepsToRequests = true) :
    let path := Path.ofText text
    let u := s.after steps
    let v := t.after steps
    (t.run steps).map Reply.result =
      ((s.run steps).map fun r => r.result.map (Answer.named text)) ∧
    (∀ (i j : Nat) (seen held : List Change), s.observers[i]? = some (.recording seen) →
      t.observers[j]? = some (.recording held) →
      ∃ events, u.observers[i]? = some (.recording (seen ++ events)) ∧
        v.observers[j]? = some (.recording (held ++ events.map (Change.named text)))) ∧
    v.data = u.data ∧ v.site.tree.read path = .ok u.data ∧
    (keepBackup = true → ∀ before x later, steps = before ++ x :: later →
      (s.after before).event x ≠ none →
      ((s.after before).step x).session.along event later = [] →
      v.site.tree.read path.backup = .ok (s.after before).data) ∧
    (s.along event steps = [] → v.site = t.site) ∧
    t.site.tree.SameBeside v.site.tree path keepBackup := by
  have h := mirrors_of_openFile hmemory hopen hdata hrules hunhindered hrenews
  have hlast := h.after hsteps
  refine ⟨h.results hsteps, fun i j seen held hseen hheld => ?_, hlast.data_eq, hlast.read_eq,
    ?backup, h.site_after_of_events_eq_nil hsteps, h.sameBeside_after hsteps⟩
  · refine ⟨s.along event steps, ?_, ?_⟩
    · rw [getElem?_observers_after hseen, Observer.told_recording]
    · rw [getElem?_observers_after hheld, Observer.told_recording, h.events hsteps]
  case backup =>
    intro hkept before x later heq hevent hlatest
    subst hkept heq
    exact h.read_backup_after hsteps hevent hlatest

/-- The second of two changes is backed up over the first, and the request that is turned down
after them is not. -/
theorem file_mirrors_memory_backedUp :
    let s : Session :=
      { site := { resource := .memory "image" [1, 2] false }, rules := { encoding := .hex } }
    let t : Session :=
      { site := ⟨.file (.ofText "fw.bin") [1, 2] true, Site.writtenOver⟩
        rules := { encoding := .hex } }
    let steps : List Step :=
      [.execute ⟨"01", "03", false, false⟩, .adopt { encoding := .hex, zeroMatch := .report },
        .execute ⟨"02", "", true, false⟩, .execute ⟨"07", "08", false, false⟩]
    (∀ x ∈ steps, x.keepsToRequests = true) ∧
      (s.after steps).data = [3, 0] ∧ (t.after steps).data = [3, 0] ∧
      (t.after steps).site.tree.read (.ofText "fw.bin") = .ok [3, 0] ∧
      (t.after steps).site.tree.read (Path.ofText "fw.bin").backup = .ok [3, 2] := by
  intro s t steps
  have hread : Site.writtenOver.read (.ofText "fw.bin") = .ok [1, 2] :=
    Tree.read_eq_ok_iff.mpr ⟨["fw.bin"], 0o644, Site.find_writtenOver, by decide⟩
  have hopen : Resource.openFile t.site.tree (.ofText "fw.bin") true =
      .ok (t.site.resource, [.loaded "fw.bin" 2]) := by
    rw [Resource.openFile, hread]
    rfl
  have hrenews : t.site.RenewsBackup := fun place mode bytes hfind => by
    cases Site.find_writtenOver.symm.trans hfind
    decide
  have hsteps : ∀ x ∈ steps, x.keepsToRequests = true := by decide
  have hdata : (s.after steps).data = [3, 0] := by decide +kernel
  have hearlier : (s.after (steps.take 2)).data = [3, 2] := by decide +kernel
  obtain ⟨-, -, hheld, hfile, hkept, -⟩ := file_mirrors_memory (s := s) (t := t) rfl hopen rfl rfl
    (fun _ => ⟨Site.unhindered_writtenOver, Site.not_holdsDirectory_writtenOver⟩) hrenews hsteps
  refine ⟨hsteps, hdata, hheld.trans hdata, hfile.trans (by rw [hdata]), ?_⟩
  rw [← hearlier]
  exact hkept rfl (steps.take 2) _ _ rfl (by decide +kernel) (by decide +kernel)

end Session

end ByteSplice
