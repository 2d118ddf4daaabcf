import ImageAudit.Audit
import ImageAudit.CommandLine.Options
import ImageAudit.Report.Document
import ImageAudit.Report.Json
import ImageAudit.Report.Template
import ImageAudit.Report.Terminal

/-!
# Runs

A run loads the policy, audits what the options name, shows the results, and writes the files that
are asked for. It fails at the first step that does; what was shown and written before stays. Where
reading a file breaks off, the run does so too, and has not even an exit code.
Whether there is a `fault` that keeps the results from being shown is only known by trying.

* A `Toolkit` is what a run leaves to others, `Toolkit.own` what this library has for it.
* `Run.ofOptions` and `Run.ofOptionsWith` carry options out.
* `Run.ofArguments` and `Run.ofArgumentsWith` also read them.
-/

namespace ImageAudit

open Text

/-- What a run depends on besides its arguments and files. -/
structure Surroundings where
  /-- Whether the output is shown in colours. -/
  isTerminal : Bool
  /-- The date of the report. -/
  date : Text
  /-- The directory of the user's settings. -/
  configDirectory : Option Text

/-- The tools a run works with: readers of arguments, policy documents and patterns, and what fills
in templates. -/
structure Toolkit where
  readOptions : List Text → Except UsageFault Options
  readConfig : Text → Option PolicyConfig
  readPattern : Text → Option SourcePattern
  /-- Fills in a template, or the usual one if there is none. -/
  render? : (template : Option Text) → Report.Content → Option Text

namespace Toolkit

/-- Fills in a template, or the usual one if there is none. -/
def renderReport? : (template : Option Text) → Report.Content → Option Text
  | none, c => some (Report.document c)
  | some template, c => Report.Template.fill? template c

/-- The tools of this library. Their readers of documents, patterns and templates know the common
forms of these languages. -/
def own : Toolkit where
  readOptions := Options.read
  readConfig := fun t => (PolicyConfig.ofText t).toOption
  readPattern := SourcePattern.ofText?
  render? := renderReport?

/-- The policy of a document. -/
def policy (kit : Toolkit) : Text → Except PolicyError Policy :=
  Policy.ofTextWith kit.readConfig kit.readPattern

end Toolkit

/-- Why a run fails. -/
inductive RunError where
  | policy (e : PolicyError)
  /-- The results cannot be shown. -/
  | console (reason : Text)
  /-- The file of results cannot be written. -/
  | output (f : FileFault)
  /-- The template cannot be read, or the report cannot be written. -/
  | report (f : FileFault)
  /-- The template cannot be filled in. -/
  | template
  deriving DecidableEq

/-- What is said of an error. -/
def RunError.message : RunError → Text
  | policy e => e.message
  | console reason => "I/O error: ".toList ++ reason
  | output f => "I/O error: ".toList ++ f.message
  | report f => "Failed to write report: ".toList ++ f.message
  | template => "Template error".toList

/-- What a run comes to. -/
structure Run (σ : Type) where
  exitCode : Nat
  output : Text
  error : Option RunError
  files : σ

namespace Run

/-! ## Parts of a run -/

/-- The exit code if findings are to be told by it. -/
def findingsCode : Nat := 3

/-- The exit code of a run that does not fail. -/
def codeOf (o : Options) (b : BatchReport) : Nat :=
  if o.failOnFindings && b.hasFailures then findingsCode else 0

/-- What a run shows. -/
def shown (s : Surroundings) (o : Options) (b : BatchReport) : Text :=
  if o.quiet then []
  else
    match o.format with
    | .terminal => Terminal.report (s.isTerminal && !o.noColour) b
    | .json => Json.report true b.results

/-- Why the results are not shown; a run that shows nothing meets no fault. -/
def showFault? (o : Options) (fault : Option Text) : Option RunError :=
  if o.quiet then none else fault.map .console

section

variable {σ : Type} (kit : Toolkit) (fs : Files σ)

/-- Loads the policy that the options name, or else one in a usual place. -/
def loadPolicy (s : Surroundings) (o : Options) (t : σ) : Except PolicyError Policy :=
  match o.policy with
  | some path => Policy.load kit.policy fs t path
  | none => Policy.discover kit.policy fs t s.configDirectory

/-- Writes the results, if they are asked for. -/
def writeResults (o : Options) (b : BatchReport) (t : σ) : Option RunError × σ :=
  if o.json then (fs.write t o.jsonPath (Json.report true b.results)).map (·.map .output) id
  else (none, t)

/-- The template the options name. -/
def readTemplate (o : Options) (t : σ) : Except RunError (Option Text) :=
  match o.template with
  | none => .ok none
  | some path =>
    match fs.read t path with
    | .error f => .error (.report f)
    | .ok template => .ok (some template)

/-- The text of the report. -/
def reportText (o : Options) (c : Report.Content) (t : σ) : Except RunError Text :=
  match readTemplate fs o t with
  | .error e => .error e
  | .ok template =>
    match kit.render? template c with
    | some text => .ok text
    | none => .error .template

/-- Writes the report, if it is asked for. -/
def writeReport (o : Options) (c : Report.Content) (t : σ) : Option RunError × σ :=
  if o.report then
    match reportText kit fs o c t with
    | .error e => (some e, t)
    | .ok text => (fs.write t o.reportPath text).map (·.map .report) id
  else (none, t)

/-! ## Runs -/

/-- A run that fails. -/
def failed (output : Text) (e : RunError) (t : σ) : Run σ := ⟨1, output, some e, t⟩

/-- Shows and writes what is known of a batch. -/
def ofBatchWith (fault : Option Text) (s : Surroundings) (o : Options) (p : Policy)
    (b : BatchReport) (t : σ) : Run σ :=
  let output := shown s o b
  match showFault? o fault with
  | some e => failed [] e t
  | none =>
    match writeResults fs o b t with
    | (some e, t) => failed output e t
    | (none, t) =>
      match writeReport kit fs o (Report.Content.ofBatch s.date p b) t with
      | (some e, t) => failed output e t
      | (none, t) => ⟨codeOf o b, output, none, t⟩

/-- Carries options out where showing the results meets this fault, if any; where no file can be
audited, nothing is shown or written. -/
def ofOptionsWith (fault : Option Text) (s : Surroundings) (o : Options) (t : σ) : Option (Run σ) :=
  match loadPolicy kit fs s o t with
  | .error e => some (failed [] (.policy e) t)
  | .ok p =>
    (BatchReport.ofPath p fs t o.dockerfile).map fun b =>
      if b.results.isEmpty then ⟨0, [], none, t⟩ else ofBatchWith kit fs fault s o p b t

/-- Carries options out where results can be shown. -/
def ofOptions : Surroundings → Options → σ → Option (Run σ) := ofOptionsWith kit fs none

/-- What the program says of its version. -/
def versionText : Text := "dockerfile-audit 0.3.0\n".toList

/-- What is shown instead of a run that is not carried out. -/
def usageText : UsageFault → Text
  | .versionWanted => versionText
  | _ => []

/-- Reads arguments and carries them out, where showing the results meets this fault, if any. -/
def ofArgumentsWith (fault : Option Text) (s : Surroundings) (arguments : List Text) (t : σ) :
    Option (Run σ) :=
  match kit.readOptions arguments with
  | .error u => some ⟨u.exitCode, usageText u, none, t⟩
  | .ok o => ofOptionsWith kit fs fault s o t

/-- Reads arguments and carries them out where results can be shown. -/
def ofArguments : Surroundings → List Text → σ → Option (Run σ) := ofArgumentsWith kit fs none

end

end Run

end ImageAudit
