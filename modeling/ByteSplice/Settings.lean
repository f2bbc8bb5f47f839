import ByteSplice.Plan
import ByteSplice.Storage.Tree
import ByteSplice.Toml.Shape

/-!
# Settings

What a user may settle once for all requests: the encoding of texts, what to do about no match, the
two policies of a request, and whether a file is backed up before it is replaced. Settings are
written in TOML, in three sections:

* `encoding` with `scheme`;
* `policy` with `zero-match`, `null-terminate` and `allow-overflow`;
* `output` with `backup`.

Sections and fields may be left out. Nothing else may be given, so that a misspelt field does not
pass for a default.

There are two kinds of default. A section that is left out is the default of its structure. A
section that is given starts from one with nothing in it, which is `blank`, and its fields are read
into that.

## Main definitions

* `EncodingSettings`, `PolicySettings` and `OutputSettings`, each with a `blank`.
* `Settings`, with `Settings.rules` and `Settings.request`.
* `Settings.ofToml` and `Settings.parse`.
* `Tree.loadSettings` and the wording of its faults.
-/

namespace ByteSplice

/-- The section about texts. -/
structure EncodingSettings where
  encoding : Encoding := .utf8
  deriving DecidableEq, Repr, Inhabited

/-- The section about what requests may do. -/
structure PolicySettings where
  zeroMatch : ZeroMatch := .silent
  nullTerminate : Bool := true
  allowOverflow : Bool := false
  deriving DecidableEq, Repr, Inhabited

/-- The section about what is written. -/
structure OutputSettings where
  /-- Whether a file is copied before it is replaced. -/
  backup : Bool := false
  deriving DecidableEq, Repr, Inhabited

/-- What holds for all requests until it is settled otherwise. -/
structure Settings extends EncodingSettings, PolicySettings, OutputSettings
  deriving DecidableEq, Repr, Inhabited

/-- The section about texts, given without any field. -/
def EncodingSettings.blank : EncodingSettings where
  encoding := .utf8

/-- The section about requests, given without any field. -/
def PolicySettings.blank : PolicySettings where
  zeroMatch := .silent
  nullTerminate := true
  allowOverflow := false

/-- The section about what is written, given without any field. -/
def OutputSettings.blank : OutputSettings where
  backup := false

/-- Why a text gives no settings. -/
inductive SettingsFault
  /-- The text is not TOML. -/
  | malformed
  /-- The text is TOML, but not of the right shape. -/
  | mismatch (cause : Mismatch)
  deriving DecidableEq, Repr

namespace Settings

/-- The rules that settings lay down for every request. -/
def rules (s : Settings) : Rules :=
  ⟨s.encoding, s.zeroMatch⟩

/-- A request under the policies of the settings. -/
def request (s : Settings) (findText replaceText : String) : Request where
  findText := findText
  replaceText := replaceText
  nullTerminate := s.nullTerminate
  allowOverflow := s.allowOverflow

/-! ### The written form -/

/-- The field for the encoding. -/
def schemeField : Toml.Field EncodingSettings :=
  ⟨"scheme", fun v s => (v.asName Encoding.named).map fun x => { s with encoding := x }⟩

/-- The field for what to do about no match. -/
def zeroMatchField : Toml.Field PolicySettings :=
  ⟨"zero-match", fun v s => (v.asName ZeroMatch.named).map fun x => { s with zeroMatch := x }⟩

/-- The field for the zero byte behind a replacement. -/
def nullTerminateField : Toml.Field PolicySettings :=
  ⟨"null-terminate", fun v s => v.asFlag.map fun x => { s with nullTerminate := x }⟩

/-- The field for longer replacements. -/
def allowOverflowField : Toml.Field PolicySettings :=
  ⟨"allow-overflow", fun v s => v.asFlag.map fun x => { s with allowOverflow := x }⟩

/-- The field for backups. -/
def backupField : Toml.Field OutputSettings :=
  ⟨"backup", fun v s => v.asFlag.map fun x => { s with backup := x }⟩

/-- A section, as a field of the whole. Its own fields are read into a section that is blank, and it
takes the place of the one there was. -/
def sectionField {σ : Type} (name shapeName : String) (fields : List (Toml.Field σ)) (blank : σ)
    (put : Settings → σ → Settings) : Toml.Field Settings :=
  ⟨name, fun v s => (v.asRecord shapeName fields blank).map (put s)⟩

/-- The sections of settings. -/
def sections : List (Toml.Field Settings) :=
  [sectionField "encoding" "EncodingSettings" [schemeField] .blank
      fun s x => { s with toEncodingSettings := x },
    sectionField "policy" "PolicySettings"
      [zeroMatchField, nullTerminateField, allowOverflowField] .blank
      fun s x => { s with toPolicySettings := x },
    sectionField "output" "OutputSettings" [backupField] .blank
      fun s x => { s with toOutputSettings := x }]

/-- The settings that a table describes. -/
def ofToml (entries : Toml.Entries) : Except Mismatch Settings :=
  Toml.addEntries sections entries {}

/-- The settings that a text describes. -/
def parse (text : String) : Except SettingsFault Settings :=
  match Toml.parse text with
  | none => .error .malformed
  | some entries =>
    match ofToml entries with
    | .error cause => .error (.mismatch cause)
    | .ok settings => .ok settings

end Settings

/-! ### Settings in a file -/

/-- Why a file gives no settings. -/
inductive LoadFault
  /-- The file could not be read. -/
  | unreadable (path : Path) (cause : StorageCause)
  /-- What the file says is not settings. -/
  | unfit (path : Path) (fault : SettingsFault)
  deriving DecidableEq, Repr

/-- The wording of a fault, as far as it does not quote the file. -/
def LoadFault.message : LoadFault → String
  | unreadable path cause =>
    "Failed to read config file at " ++ Text.Quoted.text path.text ++ ": " ++ cause.message
  | unfit path _ => "Failed to parse TOML from config file " ++ Text.Quoted.text path.text ++ ": "

/-- The settings that a file describes. -/
def Tree.loadSettings (t : Tree) (path : Path) : Except LoadFault Settings :=
  match t.readText path with
  | .error cause => .error (.unreadable path cause)
  | .ok text =>
    match Settings.parse text with
    | .error fault => .error (.unfit path fault)
    | .ok settings => .ok settings

end ByteSplice
