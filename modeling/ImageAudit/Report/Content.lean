import ImageAudit.Report.Latex
import ImageAudit.Report.Statistics

/-!
# The content of LaTeX reports

What a report tells: the rules, the batch in numbers and each result. All texts from policies and
Dockerfiles are escaped already.

* `Content.ofBatch` collects the content.
-/

namespace ImageAudit.Report

open Text

/-- The width at which text in a cell may break. -/
def cellWidth : Nat := 25

/-- The width at which a statement may break, which is set in a smaller type. -/
def statementWidth : Nat := 48

/-- A text for a cell. -/
def cell (t : Text) : Text := Latex.escape t cellWidth

/-- A text for a cell, or a remark that there is none. -/
def cellOrNone (width : Nat) : Option Text → Text
  | some t => Latex.escape t width
  | none => "N/A".toList

/-- A rule in words. -/
structure RuleRow where
  kind : Text
  description : Text
  details : Text
  deriving DecidableEq

/-- The findings of a rule in numbers; the share is in hundredths of a percent. -/
structure ShareRow where
  kind : Text
  count : Nat
  share : Nat
  deriving DecidableEq

/-- A finding in words. -/
structure FindingRow where
  kind : Text
  details : Text
  mitigation : Text
  statement : Text
  deriving DecidableEq

/-- A result in words. -/
structure ResultRow where
  fileName : Text
  maintainers : Text
  passed : Bool
  findings : List FindingRow
  deriving DecidableEq

/-- What a report tells. -/
structure Content where
  date : Text
  rules : List RuleRow
  summary : Summary
  shares : List ShareRow
  results : List ResultRow
  deriving DecidableEq

/-- A rule in words. -/
def RuleRow.ofSummary (s : RuleSummary) : RuleRow :=
  ⟨cell s.kind.name, cell s.description, cell s.details⟩

/-- The findings of a rule in numbers. -/
def ShareRow.ofShare (s : RuleShare) : ShareRow := ⟨cell s.kind.name, s.count, s.share⟩

/-- A finding in words. -/
def FindingRow.ofFinding (f : Finding) : FindingRow :=
  ⟨cell f.kind.name, cell f.details, cell f.mitigation, cellOrNone statementWidth f.statement⟩

/-- A result in words. -/
def ResultRow.ofResult (r : AuditResult) : ResultRow :=
  ⟨cell r.fileName, cellOrNone cellWidth r.maintainers, r.passed,
    r.findings.map FindingRow.ofFinding⟩

/-- The content of the report on a batch. -/
def Content.ofBatch (date : Text) (p : Policy) (b : BatchReport) : Content :=
  ⟨date, p.summary.map RuleRow.ofSummary, Summary.ofBatch b,
    (RuleShare.ofBatch p b).map ShareRow.ofShare, b.results.map ResultRow.ofResult⟩

end ImageAudit.Report
