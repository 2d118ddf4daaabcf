import ImageAudit.Dockerfile.Attempt
import ImageAudit.Files
import ImageAudit.Policy.Document

/-!
# Audits

An audit judges a file, or the entries of a directory, by a policy. A file that cannot be read is
skipped and does not affect the others; only where reading breaks off there is no audit at all.

* `Dockerfile.load` reads the Dockerfile a path leads to.
* `Policy.load` reads a policy document, `Policy.discover` the one in a usual place.
* `BatchReport.ofFiles` audits a list of files, `BatchReport.ofPath` what a path leads to. They are
  `none` where reading one of the files breaks off.
-/

namespace ImageAudit

open Text

variable {σ : Type}

/-- Reads the Dockerfile a path leads to. -/
def Dockerfile.load (fs : Files σ) (t : σ) (path : Text) : Option (Except ReadError Dockerfile) :=
  let unreadable (reason : Text) := some (.error (.notADockerfile path reason))
  if fs.isDirectory t path then unreadable "is a directory".toList
  else
    match fs.read t path with
    | .ok text => Dockerfile.attemptFile path text
    | .error .missing => unreadable "does not exist".toList
    | .error .notText => unreadable "is not valid UTF-8".toList
    | .error f => unreadable f.message

/-! ## Finding policies -/

namespace Policy

/-- Reads the policy document a path leads to, with a reader of the texts of such documents. -/
def load (build : Text → Except PolicyError Policy) (fs : Files σ) (t : σ) (path : Text) :
    Except PolicyError Policy :=
  match fs.read t path with
  | .ok text => build text
  | .error .missing => .error (.notFound path)
  | .error f => .error (.unreadable path f.message)

/-- The name of the policy document in the directory where an audit is run. -/
def defaultPath : Text := "policy.yaml".toList

/-- The places where a policy document is looked for, in order; the last one is in the directory of
the user's settings, if there is one. -/
def usualPaths (configDirectory : Option Text) : List Text :=
  [defaultPath, ".dockerfile-audit.yaml".toList] ++
    (configDirectory.map fun d =>
      Path.under (Path.under d "dockerfile-audit".toList) defaultPath).toList

/-- Reads the first policy document that is there. -/
def discover (build : Text → Except PolicyError Policy) (fs : Files σ) (t : σ)
    (configDirectory : Option Text) : Except PolicyError Policy :=
  match (usualPaths configDirectory).find? (fs.isFile t) with
  | some path => load build fs t path
  | none => .error (.notFound defaultPath)

end Policy

/-! ## Batches -/

/-- The files that an audit of a path is about: the entries of a directory, or the path itself. -/
def Files.audited (fs : Files σ) (t : σ) (path : Text) : List Text :=
  if fs.isDirectory t path then fs.listing t path else [path]

/-- A file that could not be audited. -/
structure SkippedFile where
  path : Text
  error : ReadError
  deriving DecidableEq

/-- The audits of some files, and the files that could not be audited, each in their order. -/
structure BatchReport where
  results : List AuditResult
  skipped : List SkippedFile
  deriving DecidableEq

namespace BatchReport

/-- No file at all. -/
def empty : BatchReport := ⟨[], []⟩

/-- Puts the audit of a file in front. -/
def add (path : Text) (r : Except ReadError AuditResult) (b : BatchReport) : BatchReport :=
  match r with
  | .ok result => { b with results := result :: b.results }
  | .error e => { b with skipped := ⟨path, e⟩ :: b.skipped }

/-- The number of files that fail. -/
def failedCount (b : BatchReport) : Nat := b.results.countP fun r => !r.passed

/-- The number of files that pass. -/
def passedCount (b : BatchReport) : Nat := b.results.countP AuditResult.passed

/-- Whether some file fails. -/
def hasFailures (b : BatchReport) : Bool := 0 < b.failedCount

section

variable (p : Policy) (fs : Files σ) (t : σ)

/-- Audits a file. -/
def auditFile (path : Text) : Option (Except ReadError AuditResult) :=
  (Dockerfile.load fs t path).map fun d => d.map p.evaluate

/-- Audits files in order. -/
def ofFiles : List Text → Option BatchReport
  | [] => some empty
  | path :: paths => do
    let r ← auditFile p fs t path
    let b ← ofFiles paths
    some (add path r b)

/-- Audits a file, or the entries of a directory. -/
def ofPath (path : Text) : Option BatchReport := ofFiles p fs t (fs.audited t path)

end

end BatchReport

end ImageAudit
