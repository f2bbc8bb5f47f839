import ByteSplice.CommandLine.Run
import ByteSplice.Proofs.FileExecution
import ByteSplice.Proofs.Preview

/-!
# What a run of the program comes to

A run takes its settings from one of three places, puts the options above them, reads the file, and
carries the request out or previews it. It may stop after each of these. `CommandLine.Ends` lists
the six ways in which a run can end once its arguments are accepted, each with all that it leaves,
and `runWith_ends` says that there are no others.

Only one of the six writes anything, and all that is written there is written by carrying out the
request (`Rules.Ends.exists_reads_of_ok`). In all the others the tree is the tree there was.

## Main definitions

* `CommandLine.Found`: where the settings of a run come from.
* `Options.execution`: what carrying out the request of a run leads to.
* `CommandLine.Ends`

## Main results

* `CommandLine.runWith_ends`
* `CommandLine.Ends.tree_eq`, `CommandLine.Ends.exists_outcome`, `CommandLine.Ends.exists_plan`
* `CommandLine.run_replaces_or_leaves`
-/

namespace ByteSplice

/-- What carrying out the request of the options leads to, under settings that have been adjusted
and on a file that was just opened. -/
def Options.execution (o : Options) (settings : Settings) (tree : Tree) (data : Bytes) :
    Execution :=
  settings.rules.execute ⟨.file (.ofText o.file) data settings.backup, tree⟩ []
    (settings.request o.find o.replace)

namespace CommandLine

variable {o : Options} {tree : Tree} {loaded : Settings} {data : Bytes} {finish : Finish}

/-! ### Settings -/

/-- The settings that a run finds before it looks at the other options. -/
inductive Found (o : Options) (tree : Tree) : Settings → Prop
  /-- They are in the file that is named. -/
  | named {name : String} {loaded : Settings} (hconfig : o.config = some name)
      (hload : tree.loadSettings (.ofText name) = .ok loaded) : Found o tree loaded
  /-- No file is named, but there is one of the usual name. -/
  | usual {loaded : Settings} (hconfig : o.config = none)
      (hthere : tree.pathExists (.ofText "bytepatch.toml") = true)
      (hload : tree.loadSettings (.ofText "bytepatch.toml") = .ok loaded) : Found o tree loaded
  /-- There is none. -/
  | builtIn (hconfig : o.config = none)
      (hmissing : tree.pathExists (.ofText "bytepatch.toml") = false) : Found o tree {}

theorem settings_eq_ok_iff : settings o tree = .ok loaded ↔ Found o tree loaded := by
  rw [settings]
  constructor
  · intro h
    split at h
    · next hconfig => exact .named hconfig h
    · next hconfig =>
      split_ifs at h with hthere
      · exact .usual hconfig hthere h
      · cases h
        exact .builtIn hconfig (eq_false_of_ne_true hthere)
  · rintro (⟨hconfig, hload⟩ | ⟨hconfig, hthere, hload⟩ | ⟨hconfig, hmissing⟩)
    · rw [hconfig]
      exact hload
    · rw [hconfig]
      exact (if_pos hthere).trans hload
    · rw [hconfig]
      exact if_neg (Bool.eq_false_iff.mp hmissing)

/-! ### The six ways -/

/-- The ways in which a run can end, and what each of them leaves. -/
inductive Ends (o : Options) (tree : Tree) : Finish → Prop
  /-- There are no settings. -/
  | unsettled {fault : LoadFault} (hsettings : settings o tree = .error fault) :
    Ends o tree { exit := 1, errors := [describeLoadFault fault], tree }
  /-- The file cannot be read. -/
  | unread {loaded : Settings} {cause : StorageCause} (hfound : Found o tree loaded)
      (hread : tree.read (.ofText o.file) = .error cause) :
    Ends o tree { exit := 1, errors := describeOpening (.ofText o.file) cause, tree }
  /-- The request is only to be planned, and cannot be. -/
  | unplanned {loaded : Settings} {data : Bytes} {e : PatchError} (hfound : Found o tree loaded)
      (hread : tree.read (.ofText o.file) = .ok data) (hdry : o.dryRun = true)
      (heval : (o.adjust loaded).rules.evaluate data
        ((o.adjust loaded).request o.find o.replace) = .error e) :
    Ends o tree { exit := 1, errors := [describeError e], tree }
  /-- The request is only to be planned, and that is done. -/
  | planned {loaded : Settings} {data : Bytes} {plan : Plan} (hfound : Found o tree loaded)
      (hread : tree.read (.ofText o.file) = .ok data) (hdry : o.dryRun = true)
      (heval : (o.adjust loaded).rules.evaluate data
        ((o.adjust loaded).request o.find o.replace) = .ok plan) :
    Ends o tree { exit := 0, output := printed plan.report.toJson, tree }
  /-- The request fails. -/
  | failed {loaded : Settings} {data : Bytes} {e : PatchError} (hfound : Found o tree loaded)
      (hread : tree.read (.ofText o.file) = .ok data) (hact : o.dryRun = false)
      (hresult : (o.execution (o.adjust loaded) tree data).result = .error e) :
    Ends o tree { exit := 1, errors := [describeError e], tree }
  /-- The request is carried out. -/
  | carriedOut {loaded : Settings} {data : Bytes} {outcome : Outcome}
      (hfound : Found o tree loaded) (hread : tree.read (.ofText o.file) = .ok data)
      (hact : o.dryRun = false)
      (hresult : (o.execution (o.adjust loaded) tree data).result = .ok outcome) :
    Ends o tree { exit := 0, output := printed outcome.toJson,
                  tree := (o.execution (o.adjust loaded) tree data).site.tree }

/-- With settings and the bytes of the file, it is up to the request. -/
theorem runWith_eq (hfound : Found o tree loaded)
    (hread : tree.read (.ofText o.file) = .ok data) :
    runWith o tree = carryOut o (o.adjust loaded)
      ⟨.file (.ofText o.file) data (o.adjust loaded).backup, tree⟩ := by
  simp only [runWith, settings_eq_ok_iff.mpr hfound, Resource.openFile, hread]

theorem runWith_of_plan {plan : Plan} (hfound : Found o tree loaded)
    (hread : tree.read (.ofText o.file) = .ok data) (hdry : o.dryRun = true)
    (heval : (o.adjust loaded).rules.evaluate data ((o.adjust loaded).request o.find o.replace) =
      .ok plan) :
    runWith o tree = { exit := 0, output := printed plan.report.toJson, tree } := by
  rw [runWith_eq hfound hread]
  simp only [carryOut, hdry, if_true, Rules.preview, Resource.data, heval]

theorem runWith_of_ok {outcome : Outcome} (hfound : Found o tree loaded)
    (hread : tree.read (.ofText o.file) = .ok data) (hact : o.dryRun = false)
    (hresult : (o.execution (o.adjust loaded) tree data).result = .ok outcome) :
    runWith o tree =
      { exit := 0, output := printed outcome.toJson,
        tree := (o.execution (o.adjust loaded) tree data).site.tree } := by
  rw [Options.execution] at hresult ⊢
  rw [runWith_eq hfound hread]
  simp only [carryOut, hact, Bool.false_eq_true, if_false, hresult]

/-- A request that fails has not touched the tree. -/
theorem runWith_of_error {e : PatchError} (hfound : Found o tree loaded)
    (hread : tree.read (.ofText o.file) = .ok data) (hact : o.dryRun = false)
    (hresult : (o.execution (o.adjust loaded) tree data).result = .error e) :
    runWith o tree = { exit := 1, errors := [describeError e], tree } := by
  have hends := (o.adjust loaded).rules.execute_ends
    ⟨.file (.ofText o.file) data (o.adjust loaded).backup, tree⟩ []
    ((o.adjust loaded).request o.find o.replace)
  rw [Options.execution] at hresult
  have hsite := (hends.leavesAlone (by simp [hresult])).site_eq
  rw [runWith_eq hfound hread]
  simp only [carryOut, hact, Bool.false_eq_true, if_false, hresult, hsite]

/-- **There is no other way.** -/
theorem runWith_ends (o : Options) (tree : Tree) : Ends o tree (runWith o tree) := by
  cases hsettings : settings o tree with
  | error fault =>
    simp only [runWith, hsettings]
    exact .unsettled hsettings
  | ok loaded =>
    have hfound := settings_eq_ok_iff.mp hsettings
    cases hread : tree.read (.ofText o.file) with
    | error cause =>
      simp only [runWith, hsettings, Resource.openFile, hread]
      exact .unread hfound hread
    | ok data =>
      cases hdry : o.dryRun with
      | true =>
        cases heval : (o.adjust loaded).rules.evaluate data
            ((o.adjust loaded).request o.find o.replace) with
        | error e =>
          rw [runWith_eq hfound hread]
          simp only [carryOut, hdry, if_true, Rules.preview, Resource.data, heval]
          exact .unplanned hfound hread hdry heval
        | ok plan =>
          rw [runWith_of_plan hfound hread hdry heval]
          exact .planned hfound hread hdry heval
      | false =>
        cases hresult : (o.execution (o.adjust loaded) tree data).result with
        | error e =>
          rw [runWith_of_error hfound hread hdry hresult]
          exact .failed hfound hread hdry hresult
        | ok outcome =>
          rw [runWith_of_ok hfound hread hdry hresult]
          exact .carriedOut hfound hread hdry hresult

/-! ### What each of them means -/

/-- **A run that fails leaves the tree alone**, and so does one that is only to plan. -/
theorem Ends.tree_eq (h : Ends o tree finish) (hidle : o.dryRun = true ∨ finish.exit ≠ 0) :
    finish.tree = tree := by
  cases h with
  | carriedOut _ _ hact =>
    rcases hidle with hdry | hexit
    · cases hact.symm.trans hdry
    · exact absurd rfl hexit
  | _ => rfl

theorem Ends.exists_outcome (h : Ends o tree finish) (hact : o.dryRun = false)
    (hexit : finish.exit = 0) :
    ∃ loaded data outcome, Found o tree loaded ∧ tree.read (.ofText o.file) = .ok data ∧
      (o.execution (o.adjust loaded) tree data).result = .ok outcome := by
  cases h with
  | carriedOut hfound hread _ hresult => exact ⟨_, _, _, hfound, hread, hresult⟩
  | planned _ _ hdry => cases hact.symm.trans hdry
  | _ => cases hexit

theorem Ends.exists_plan (h : Ends o tree finish) (hdry : o.dryRun = true)
    (hexit : finish.exit = 0) :
    ∃ loaded data plan, Found o tree loaded ∧ tree.read (.ofText o.file) = .ok data ∧
      (o.adjust loaded).rules.evaluate data ((o.adjust loaded).request o.find o.replace) =
        .ok plan := by
  cases h with
  | planned hfound hread _ heval => exact ⟨_, _, _, hfound, hread, heval⟩
  | carriedOut _ _ hact => cases hact.symm.trans hdry
  | _ => cases hexit

/-- A run that succeeds has carried its request out. -/
theorem exists_outcome_of_exit (hact : o.dryRun = false) (hexit : (runWith o tree).exit = 0)
    (hfound : Found o tree loaded) (hread : tree.read (.ofText o.file) = .ok data) :
    (runWith o tree).tree = (o.execution (o.adjust loaded) tree data).site.tree ∧
      ∃ outcome, (o.execution (o.adjust loaded) tree data).result = .ok outcome := by
  cases hresult : (o.execution (o.adjust loaded) tree data).result with
  | error e =>
    rw [runWith_of_error hfound hread hact hresult] at hexit
    cases hexit
  | ok outcome => exact ⟨by rw [runWith_of_ok hfound hread hact hresult], outcome, rfl⟩

/-- The request of a run replaces every match in the file, keeps its old bytes if that is wanted,
and does nothing else. -/
theorem exists_reads_of_execution {settings : Settings} {outcome : Outcome}
    (hread : tree.read (.ofText o.file) = .ok data)
    (hresult : (o.execution settings tree data).result = .ok outcome) :
    let path := Path.ofText o.file
    let done := (o.execution settings tree data).site.tree
    ∃ p replacement, settings.rules.Reads (settings.request o.find o.replace) p replacement ∧
      done.read path = .ok (replaceAll p replacement data) ∧
      (settings.backup = true → (∃ i, p.MatchesAt data i) → done.read path.backup = .ok data) ∧
      (settings.backup = false ∨ (∀ i, ¬ p.MatchesAt data i) →
        ∀ place, tree.locate path.backup = .ok place → done.get? place = tree.get? place) ∧
      (∀ place, tree.locate path ≠ .ok place → tree.locate path.backup ≠ .ok place →
        done.get? place = tree.get? place) ∧
      ((∀ i, ¬ p.MatchesAt data i) → done = tree) := by
  intro path done
  have hends := settings.rules.execute_ends ⟨.file path data settings.backup, tree⟩ []
    (settings.request o.find o.replace)
  obtain ⟨p, replacement, hreads, hreplaced, hsame⟩ := hends.exists_reads_of_ok rfl hread hresult
  refine ⟨p, replacement, hreads, ?_⟩
  by_cases hmatch : ∃ i, p.MatchesAt data i
  · have h : tree.Replaced done path settings.backup data (replaceAll p replacement data) :=
      hreplaced hmatch
    refine ⟨h.read_eq, fun hkept _ => h.read_backup_eq hkept, ?_,
      fun place hne hbackup => h.elsewhere place hne fun _ => hbackup,
      fun hmiss => absurd hmatch (not_exists.mpr hmiss)⟩
    rintro (hoff | hmiss) place hplace
    · have hbeside := h.toSameBeside
      rw [hoff] at hbeside
      exact hbeside.get?_backup hread hplace
    · exact absurd hmatch (not_exists.mpr hmiss)
  · have hmiss := not_exists.mp hmatch
    have h : done = tree := congrArg Site.tree (hsame hmiss)
    rw [h, replaceAll_of_not_matchesAt _ hmiss]
    exact ⟨hread, fun _ hmatch' => absurd hmatch' hmatch, fun _ _ _ => rfl, fun _ _ _ => rfl,
      fun _ => rfl⟩

/-- **A run replaces the file or leaves the tree alone.** Take any arguments that are accepted and
any file tree. Each of five settings is that of the option if the option settles it, and else that
of the file for settings.

A run that is not only to plan succeeds just if the settings and the file can be read and carrying
the request out succeeds. Then the file has every match replaced. Its backup has the old bytes if
backups are on and there was a match, and otherwise it is what it was; nothing else has changed, and
without a match nothing at all.

A run that fails leaves the tree as it was, and so does one that is only to plan. Such a run
succeeds just if there is a plan. It prints the report of the plan, which gives a reason if the plan
is denied by the length policy, and that is not a failure. -/
theorem run_replaces_or_leaves {arguments : List String} {o : Options} (tree : Tree)
    (haccepted : Options.ofArguments arguments = some o) :
    let path := Path.ofText o.file
    let finish := run arguments tree
    let effective (loaded : Settings) : Settings :=
      { encoding := o.encoding.getD loaded.encoding
        zeroMatch := if o.reportNotFound then .report else loaded.zeroMatch
        nullTerminate := loaded.nullTerminate && !o.noNullTerminate
        allowOverflow := loaded.allowOverflow || o.allowOverflow
        backup := loaded.backup || o.backup }
    let request (loaded : Settings) : Request :=
      ⟨o.find, o.replace, (effective loaded).nullTerminate, (effective loaded).allowOverflow⟩
    (o.dryRun = false →
      (finish.exit = 0 ↔
        ∃ loaded data outcome, Found o tree loaded ∧ tree.read path = .ok data ∧
          (o.execution (effective loaded) tree data).result = .ok outcome) ∧
      (finish.exit = 0 → ∀ loaded data, Found o tree loaded → tree.read path = .ok data →
        ∃ p replacement, (effective loaded).rules.Reads (request loaded) p replacement ∧
          finish.tree.read path = .ok (replaceAll p replacement data) ∧
          ((effective loaded).backup = true → (∃ i, p.MatchesAt data i) →
            finish.tree.read path.backup = .ok data) ∧
          ((effective loaded).backup = false ∨ (∀ i, ¬ p.MatchesAt data i) →
            ∀ place, tree.locate path.backup = .ok place →
              finish.tree.get? place = tree.get? place) ∧
          (∀ place, tree.locate path ≠ .ok place → tree.locate path.backup ≠ .ok place →
            finish.tree.get? place = tree.get? place) ∧
          ((∀ i, ¬ p.MatchesAt data i) → finish.tree = tree))) ∧
    (o.dryRun = true ∨ finish.exit ≠ 0 → finish.tree = tree) ∧
    (o.dryRun = true →
      (finish.exit = 0 ↔
        ∃ loaded data plan, Found o tree loaded ∧ tree.read path = .ok data ∧
          (effective loaded).rules.evaluate data (request loaded) = .ok plan) ∧
      (∀ loaded data plan, Found o tree loaded → tree.read path = .ok data →
        (effective loaded).rules.evaluate data (request loaded) = .ok plan →
        finish.output = printed plan.report.toJson ∧
          ∀ e, plan.verdict = .denied e → plan.report.reason = some e.message)) := by
  intro path finish effective request
  have hrun : finish = runWith o tree := by
    change run arguments tree = _
    simp only [run, haccepted]
  have hends : Ends o tree finish := hrun ▸ runWith_ends o tree
  refine ⟨fun hact => ⟨⟨hends.exists_outcome hact, ?_⟩, ?_⟩, hends.tree_eq,
    fun hdry => ⟨⟨hends.exists_plan hdry, ?_⟩, ?_⟩⟩
  · rintro ⟨loaded, data, outcome, hfound, hread, hresult⟩
    rw [hrun, runWith_of_ok hfound hread hact hresult]
  · intro hexit loaded data hfound hread
    obtain ⟨htree, outcome, hresult⟩ :=
      exists_outcome_of_exit hact (hrun ▸ hexit) hfound hread
    rw [hrun, htree]
    exact exists_reads_of_execution hread hresult
  · rintro ⟨loaded, data, plan, hfound, hread, heval⟩
    rw [hrun, runWith_of_plan hfound hread hdry heval]
  · intro loaded data plan hfound hread heval
    rw [hrun, runWith_of_plan hfound hread hdry heval]
    exact ⟨rfl, fun e hdenied => Plan.reason_report_of_denied hdenied⟩

/-- The options allow a longer replacement, take the zero byte away from it and ask for a backup,
which is written over an older one. -/
theorem run_replaces_or_leaves_longer :
    let arguments := ["-ffw.bin", "--find=01", "--replace", "03 03", "--encoding", "hex",
      "--allow-overflow", "--no-null-terminate", "--backup"]
    ∃ o, Options.ofArguments arguments = some o ∧ Found o Site.writtenOver {} ∧
      ∃ finish, finish = run arguments Site.writtenOver ∧ finish.exit = 0 ∧
        finish.tree.read (.ofText "fw.bin") = .ok [3, 3, 2] ∧
        finish.tree.read (Path.ofText "fw.bin").backup = .ok [1, 2] ∧
        finish.tree.get? ["lib"] = some .directory := by
  intro arguments
  let o : Options :=
    { file := "fw.bin", find := "01", replace := "03 03", noNullTerminate := true
      allowOverflow := true, encoding := some .hex, backup := true }
  have haccepted : Options.ofArguments arguments = some o := by rfl
  have hfound : Found o Site.writtenOver {} := .builtIn rfl (by rfl)
  have hread : Site.writtenOver.read (.ofText "fw.bin") = .ok [1, 2] :=
    Tree.read_eq_ok_iff.mpr ⟨["fw.bin"], 0o644, Site.find_writtenOver, by decide⟩
  have hresult : (o.execution (o.adjust {}) Site.writtenOver [1, 2]).result =
      .ok ⟨"fw.bin", 1, true, 2, 3⟩ := by decide +kernel
  obtain ⟨hact, -, -⟩ := run_replaces_or_leaves Site.writtenOver haccepted
  obtain ⟨hiff, hdone⟩ := hact rfl
  have hexit := hiff.mpr ⟨_, _, _, hfound, hread, hresult⟩
  obtain ⟨p, replacement, hreads, hnew, hold, -, hother, -⟩ := hdone hexit _ _ hfound hread
  have hfind : Encoding.hex.encode "01" = .ok [1] := rfl
  have hreplace : Encoding.hex.encode "03 03" = .ok [3, 3] := rfl
  have hbytes : (o.adjust {}).rules.Reads ((o.adjust {}).request o.find o.replace)
      ⟨[1], by decide⟩ [3, 3] := ⟨hfind, [3, 3], hreplace, rfl⟩
  obtain ⟨rfl, rfl⟩ := hbytes.unique hreads
  refine ⟨o, haccepted, hfound, _, rfl, hexit, ?_, hold rfl ⟨0, by decide⟩,
    (hother ["lib"] ?_ ?_).trans rfl⟩
  · rw [hnew]
    cbv
  · rw [(Tree.find_eq_file_iff.mp Site.find_writtenOver).1]
    simp
  · rw [(Tree.find_eq_file_iff.mp Site.find_backup_writtenOver).1]
    simp

end CommandLine

end ByteSplice
