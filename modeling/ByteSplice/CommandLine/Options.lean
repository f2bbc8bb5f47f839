import ByteSplice.Settings

/-!
# Options of the command line

Arguments name options. An option is a switch, or it takes a value. It has a long name behind two
hyphens, and some options have a letter behind one.

* The value of a long option stands behind an equals sign, or it is the next argument.
* Letters may be joined in one argument. The first that takes a value takes the rest of the
  argument, less an equals sign in front; if nothing is left, it takes the next argument.
* A value that is an argument of its own does not start with a hyphen, unless it is just a hyphen.
* No option is given twice, a switch takes no value, and a path is not empty.
* Two hyphens alone may come last. Nothing else may be an argument.

Arguments that break a rule are all the same to the program: it shows how it is used.

## Main definitions

* `CommandLine.Key` and `CommandLine.given`, which takes arguments apart.
* `Options`.
* `Options.ofArguments`.
* `Options.adjust`, which puts options above settings.
-/

namespace ByteSplice

namespace CommandLine

/-- What an option is about. -/
inductive Key
  | file
  | find
  | replace
  | noNullTerminate
  | allowOverflow
  | encoding
  | reportNotFound
  | dryRun
  | backup
  | config
  | verbose
  deriving DecidableEq, Repr

namespace Key

/-- Every option. -/
def all : List Key :=
  [file, find, replace, noNullTerminate, allowOverflow, encoding, reportNotFound, dryRun, backup,
    config, verbose]

/-- The long name of an option. -/
def name : Key → String
  | file => "file"
  | find => "find"
  | replace => "replace"
  | noNullTerminate => "no-null-terminate"
  | allowOverflow => "allow-overflow"
  | encoding => "encoding"
  | reportNotFound => "report-not-found"
  | dryRun => "dry-run"
  | backup => "backup"
  | config => "config"
  | verbose => "verbose"

/-- The letter of an option, if it has one. -/
def letter? : Key → Option Char
  | file => some 'f'
  | config => some 'c'
  | verbose => some 'v'
  | _ => none

/-- Whether an option takes a value. -/
def takesValue : Key → Bool
  | file | find | replace | encoding | config => true
  | _ => false

/-- The option of a long name. -/
def ofName? (name : String) : Option Key :=
  all.find? fun key => key.name = name

/-- The option of a letter. -/
def ofLetter? (c : Char) : Option Key :=
  all.find? fun key => key.letter? = some c

end Key

/-! ### Taking arguments apart -/

/-- An option with its value, which is empty for a switch. -/
abbrev Given := Key × String

/-- What one argument says: the options it gives, and the option that waits for the next argument as
its value. -/
structure Word where
  given : List Given
  awaiting : Option Key := none
  deriving DecidableEq, Repr

/-- Reads an argument behind two hyphens. -/
def longWord (s : List Char) : Option Word :=
  match Key.ofName? (String.ofList (s.takeWhile (· ≠ '='))), s.dropWhile (· ≠ '=') with
  | none, _ => none
  | some key, [] => some (if key.takesValue then ⟨[], some key⟩ else ⟨[(key, "")], none⟩)
  | some key, _ :: value =>
    if key.takesValue then some ⟨[(key, String.ofList value)], none⟩ else none

/-- Reads letters behind one hyphen. -/
def letters : List Char → Option Word
  | [] => some ⟨[], none⟩
  | c :: rest =>
    match Key.ofLetter? c with
    | none => none
    | some key =>
      if key.takesValue then
        match rest with
        | [] => some ⟨[], some key⟩
        | '=' :: value => some ⟨[(key, String.ofList value)], none⟩
        | value => some ⟨[(key, String.ofList value)], none⟩
      else (letters rest).map fun word => { word with given := (key, "") :: word.given }

/-- Reads one argument that is not a value. -/
def word (argument : String) : Option Word :=
  match argument.toList with
  | '-' :: '-' :: s => longWord s
  | '-' :: c :: s => letters (c :: s)
  | _ => none

/-- Whether an argument may be the value of the option in front of it. -/
def isValue (argument : String) : Bool :=
  argument = "-" || argument.toList.head? ≠ some '-'

/-- The options that arguments give, in order. -/
def given : (arguments : List String) → Option (List Given)
  | [] => some []
  | argument :: rest =>
    if argument = "--" then if rest.isEmpty then some [] else none
    else
      match word argument with
      | none => none
      | some ⟨options, none⟩ => (given rest).map (options ++ ·)
      | some ⟨options, some key⟩ =>
        match rest with
        | [] => none
        | value :: rest =>
          if isValue value then (given rest).map (options ++ (key, value) :: ·) else none

end CommandLine

/-! ### Options -/

/-- What the command line asks for. -/
structure Options where
  file : String
  find : String
  replace : String := ""
  noNullTerminate : Bool := false
  allowOverflow : Bool := false
  encoding : Option Encoding := none
  reportNotFound : Bool := false
  dryRun : Bool := false
  backup : Bool := false
  config : Option String := none
  verbose : Bool := false
  deriving DecidableEq, Repr

namespace Options

open CommandLine

/-- How the program is used. -/
def usage : String :=
  "Usage: --file <FILE> --find <FIND> [OPTIONS]"

/-- The value of an option, if it is given. -/
def valueOf (options : List Given) (key : Key) : Option String :=
  options.lookup key

/-- A path that is given, which is not empty. -/
def pathOf (options : List Given) (key : Key) : Option (Option String) :=
  match valueOf options key with
  | some "" => none
  | value => some value

/-- An encoding that is given, which is known. -/
def encodingOf (options : List Given) : Option (Option Encoding) :=
  match valueOf options .encoding with
  | none => some none
  | some name => (Encoding.named.lookup name).map some

/-- The options that are given, if each is given once and the necessary ones are. -/
def ofGiven (options : List Given) : Option Options :=
  if ¬ (options.map Prod.fst).Nodup then none
  else do
    let file ← (← pathOf options .file)
    let config ← pathOf options .config
    let find ← valueOf options .find
    let encoding ← encodingOf options
    let isOn (key : Key) : Bool := (valueOf options key).isSome
    some
      { file
        find
        replace := (valueOf options .replace).getD ""
        noNullTerminate := isOn .noNullTerminate
        allowOverflow := isOn .allowOverflow
        encoding
        reportNotFound := isOn .reportNotFound
        dryRun := isOn .dryRun
        backup := isOn .backup
        config
        verbose := isOn .verbose }

/-- The options that arguments ask for. -/
def ofArguments (arguments : List String) : Option Options :=
  (given arguments).bind ofGiven

/-- Settings with the options above them. An option can only settle a thing one way, so what it does
not mention stays as it is. -/
def adjust (o : Options) (s : Settings) : Settings where
  encoding := o.encoding.getD s.encoding
  zeroMatch := if o.reportNotFound then .report else s.zeroMatch
  nullTerminate := s.nullTerminate && !o.noNullTerminate
  allowOverflow := s.allowOverflow || o.allowOverflow
  backup := s.backup || o.backup

end Options

end ByteSplice
