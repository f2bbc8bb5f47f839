import ByteSplice.CommandLine.Options
import ByteSplice.Contract

/-!
# The program

The program carries out one request on one file. It takes its settings from the file that is named,
or else from `bytepatch.toml` if there is such a file, and puts the options above them. What comes
of the request is printed as indented JSON. A request that is turned down is printed as compact JSON
where errors go, and whatever keeps the program from getting that far is printed in words.

All of this is a function from arguments and a file tree to what is printed and the tree afterwards.

## Main definitions

* `Finish`, what a run leaves.
* `CommandLine.run`.
-/

namespace ByteSplice

/-- What a run of the program leaves: its exit code, what it printed, and the file tree. -/
structure Finish where
  exit : Nat
  output : String := ""
  errors : List String := []
  tree : Tree
  deriving DecidableEq, Repr

namespace CommandLine

/-- The file that settings come from if no other is named. -/
def defaultConfig : Path :=
  .ofText "bytepatch.toml"

/-- The settings of a run, without the options. -/
def settings (options : Options) (tree : Tree) : Except LoadFault Settings :=
  match options.config with
  | some path => tree.loadSettings (.ofText path)
  | none => if tree.pathExists defaultConfig then tree.loadSettings defaultConfig else .ok {}

/-- What is said of settings that cannot be had. What is wrong inside a file is not told. -/
def describeLoadFault (fault : LoadFault) : String :=
  match fault with
  | .unreadable _ _ => "Error: " ++ fault.message
  | .unfit _ _ => "Error: Failed to parse TOML"

/-- What is said of a file that cannot be opened. -/
def describeOpening (path : Path) (cause : StorageCause) : List String :=
  ["Error: Failed to open " ++ Text.Quoted.text path.text, "", "Caused by:",
    "    " ++ cause.message]

/-- What is printed of a request that succeeded. -/
def printed (value : Json) : String :=
  value.indented ++ "\n"

/-- What is printed of a request that was turned down. -/
def describeError (e : PatchError) : String :=
  e.report.toJson.compact

/-- Carries out the request of the options on a file that has been opened. -/
def carryOut (options : Options) (settings : Settings) (site : Site) : Finish :=
  let request := settings.request options.find options.replace
  if options.dryRun then
    match settings.rules.preview site.resource request with
    | .error e => { exit := 1, errors := [describeError e], tree := site.tree }
    | .ok p => { exit := 0, output := printed p.report.toJson, tree := site.tree }
  else
    let x := settings.rules.execute site [] request
    match x.result with
    | .error e => { exit := 1, errors := [describeError e], tree := x.site.tree }
    | .ok outcome => { exit := 0, output := printed outcome.toJson, tree := x.site.tree }

/-- Runs the program with options. -/
def runWith (options : Options) (tree : Tree) : Finish :=
  match settings options tree with
  | .error fault => { exit := 1, errors := [describeLoadFault fault], tree }
  | .ok loaded =>
    let settings := options.adjust loaded
    let path := Path.ofText options.file
    match Resource.openFile tree path settings.backup with
    | .error cause => { exit := 1, errors := describeOpening path cause, tree }
    | .ok (resource, _) => carryOut options settings ⟨resource, tree⟩

/-- Runs the program. -/
def run (arguments : List String) (tree : Tree) : Finish :=
  match Options.ofArguments arguments with
  | none => { exit := 2, errors := [Options.usage], tree }
  | some options => runWith options tree

end CommandLine

end ByteSplice
