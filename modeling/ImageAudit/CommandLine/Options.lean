import ImageAudit.Text.Basic

/-!
# Options of the command line

Options come in a short and a long form. The value of an option is the rest of its argument or the
next argument, unless that begins with a hyphen; short options without a value may share an
argument.

* `Options.read` reads the arguments of a call. Runs take such a reader as a parameter.
* A value that stands in an argument of its own is only judged when the next option is met, so that
  an unknown option is told first.
-/

namespace ImageAudit

open Text

/-- How results are shown. -/
inductive OutputFormat where
  | terminal
  | json
  deriving DecidableEq

/-- What a call asks for. -/
structure Options where
  /-- The file or directory to audit. -/
  dockerfile : Text
  policy : Option Text
  json : Bool
  jsonPath : Text
  report : Bool
  reportPath : Text
  template : Option Text
  format : OutputFormat
  noColour : Bool
  failOnFindings : Bool
  verbosity : Nat
  quiet : Bool
  deriving DecidableEq

/-- Why a call is not carried out. -/
inductive UsageFault where
  | helpWanted
  | versionWanted
  | missingOption
  | unknownArgument
  /-- An option that is given twice. -/
  | conflict
  /-- A value that is missing or not what the option takes. -/
  | invalidValue
  /-- A value for an option that takes none. -/
  | valueUnwanted
  deriving DecidableEq

/-- What is said of a call that is not carried out. -/
def UsageFault.message : UsageFault → Text
  | helpWanted => "Usage: dockerfile-audit [OPTIONS] --dockerfile <PATH>".toList
  | versionWanted => []
  | missingOption => "error: the option --dockerfile <PATH> is required".toList
  | unknownArgument => "error: an argument is not known".toList
  | conflict => "error: an option is given twice".toList
  | invalidValue => "error: a value is missing or invalid".toList
  | valueUnwanted => "error: an option takes no value".toList

/-- The exit code of a call that is not carried out. -/
def UsageFault.exitCode : UsageFault → Nat
  | helpWanted | versionWanted => 0
  | _ => 2

namespace Options

/-! ## The options -/

/-- The options that take a value. -/
inductive Setting where
  | dockerfile
  | policy
  | jsonPath
  | reportPath
  | template
  | format
  deriving DecidableEq

/-- The options that are given at most once and take no value. -/
inductive Switch where
  | json
  | report
  | noColour
  | failOnFindings
  | quiet
  deriving DecidableEq

/-- An option. -/
inductive Name where
  | setting (s : Setting)
  | switch (s : Switch)
  | verbose
  | help
  | version
  deriving DecidableEq

/-- The option of a letter. -/
def shortName? (c : Char) : Option Name :=
  [('d', .setting .dockerfile), ('p', .setting .policy), ('j', .switch .json),
    ('o', .setting .jsonPath), ('r', .switch .report), ('n', .setting .reportPath),
    ('t', .setting .template), ('v', .verbose), ('q', .switch .quiet), ('h', .help),
    ('V', .version)].lookup c

/-- The option of a word. -/
def longName? (w : Text) : Option Name :=
  [("dockerfile".toList, Name.setting .dockerfile), ("policy".toList, .setting .policy),
    ("json".toList, .switch .json), ("json-outfile".toList, .setting .jsonPath),
    ("report".toList, .switch .report), ("report-name".toList, .setting .reportPath),
    ("report-template".toList, .setting .template), ("format".toList, .setting .format),
    ("no-color".toList, .switch .noColour), ("fail-on-findings".toList, .switch .failOnFindings),
    ("verbose".toList, .verbose), ("quiet".toList, .switch .quiet), ("help".toList, .help),
    ("version".toList, .version)].lookup w

/-- The format of a word. -/
def formatOf? (w : Text) : Option OutputFormat :=
  if w == "tty".toList then some .terminal else if w == "json".toList then some .json else none

/-- Whether an option takes a value. -/
def Setting.takes (s : Setting) (v : Text) : Bool :=
  match s with
  | format => (formatOf? v).isSome
  | _ => !v.isEmpty

/-! ## Arguments -/

/-- An option whose value is not judged yet. -/
inductive Pending where
  | nothing
  | awaits (s : Setting)
  | has (s : Setting) (v : Text)

/-- What has been read. -/
structure Given where
  values : List (Setting × Text)
  switches : List Switch
  verbosity : Nat
  pending : Pending

namespace Given

/-- Nothing has been read. -/
def nothing : Given := ⟨[], [], 0, .nothing⟩

/-- Takes the value of an option. -/
def take (g : Given) (s : Setting) (v : Text) : Except UsageFault Given :=
  if (g.values.lookup s).isSome then .error .conflict
  else if s.takes v then .ok { g with values := (s, v) :: g.values }
  else .error .invalidValue

/-- Judges the value of the option before. -/
def settle (g : Given) : Except UsageFault Given :=
  match g.pending with
  | .nothing => .ok g
  | .awaits _ => .error .invalidValue
  | .has s v => { g with pending := .nothing }.take s v

/-- The highest count of an option that may be repeated. -/
def highestVerbosity : Nat := 255

/-- Takes an option; one that takes a value awaits it. -/
def mention (g : Given) (n : Name) : Except UsageFault Given := do
  let g ← g.settle
  match n with
  | .setting s => .ok { g with pending := .awaits s }
  | .switch s =>
    if g.switches.contains s then .error .conflict else .ok { g with switches := s :: g.switches }
  | .verbose => .ok { g with verbosity := min (g.verbosity + 1) highestVerbosity }
  | .help => .error .helpWanted
  | .version => .error .versionWanted

/-- Takes an option with a value in the same argument. -/
def attach (g : Given) (n : Name) (v : Text) : Except UsageFault Given :=
  match n with
  | .setting s => do
    let g ← g.settle
    g.take s v
  | _ => .error .valueUnwanted

/-- A value without the equals sign before it. -/
def dropEquals : Text → Text
  | '=' :: v => v
  | v => v

/-- Reads the letters of an argument; what follows the letter of an option that takes a value is
its value. -/
def letters (g : Given) : Text → Except UsageFault Given
  | [] => .ok g
  | c :: r =>
    match shortName? c with
    | none => .error .unknownArgument
    | some (.setting s) =>
      if r.isEmpty then g.mention (.setting s) else g.attach (.setting s) (dropEquals r)
    | some n => do
      let g ← g.mention n
      g.letters r

/-- Reads a word, with its value after an equals sign. -/
def word (g : Given) (w : Text) : Except UsageFault Given :=
  match cut '=' w with
  | some (name, v) =>
    match longName? name with
    | some n => g.attach n v
    | none => .error .unknownArgument
  | none =>
    match longName? w with
    | some n => g.mention n
    | none => .error .unknownArgument

/-- Takes an argument that is no option: it is the value that is awaited. -/
def value (g : Given) (v : Text) : Except UsageFault Given :=
  match g.pending with
  | .awaits s => .ok { g with pending := .has s v }
  | _ => .error .unknownArgument

/-- Reads an argument. -/
def argument (g : Given) (a : Text) : Except UsageFault Given :=
  match a with
  | '-' :: '-' :: w => g.word w
  | '-' :: c :: r => g.letters (c :: r)
  | v => g.value v

/-- Reads arguments; after two hyphens there must not be any more. -/
def arguments : Given → List Text → Except UsageFault Given
  | g, [] => g.settle
  | g, a :: as =>
    if a == ['-', '-'] then (if as.isEmpty then g.settle else .error .unknownArgument)
    else do
      let g ← g.argument a
      arguments g as

/-- The options, where those that were not given have their usual values. -/
def options (g : Given) : Except UsageFault Options :=
  match g.values.lookup .dockerfile with
  | none => .error .missingOption
  | some dockerfile => .ok
    { dockerfile := dockerfile
      policy := g.values.lookup .policy
      json := g.switches.contains .json
      jsonPath := (g.values.lookup .jsonPath).getD "dockerfile-audit.json".toList
      report := g.switches.contains .report
      reportPath := (g.values.lookup .reportPath).getD "report.tex".toList
      template := g.values.lookup .template
      format := ((g.values.lookup .format).bind formatOf?).getD .terminal
      noColour := g.switches.contains .noColour
      failOnFindings := g.switches.contains .failOnFindings
      verbosity := g.verbosity
      quiet := g.switches.contains .quiet }

end Given

/-- Reads the arguments of a call. -/
def read (arguments : List Text) : Except UsageFault Options := do
  let g ← Given.nothing.arguments arguments
  g.options

end Options

end ImageAudit
