import ImageAudit.Audit
import ImageAudit.Text.Numeral

/-!
# Statistics

Counts and shares of a batch. Shares are kept in hundredths of a percent, rounded half up.

* `Summary.ofBatch` counts files, `RuleShare.ofBatch` counts findings for each rule.
* `Compliance.ofShare` grades the share of files that pass.
-/

namespace ImageAudit

/-- The share of a part in hundredths of a percent; nothing has no share in nothing. -/
def share (part total : Nat) : Nat :=
  if total = 0 then 0 else (2 * (10000 * part) + total) / (2 * total)

/-! ## Files -/

/-- How well files comply with a policy. -/
inductive Compliance where
  | poor
  | low
  | medium
  | fair
  | good
  | perfect
  deriving DecidableEq

namespace Compliance

/-- The grade of a share in hundredths of a percent. -/
def ofShare (n : Nat) : Compliance :=
  if n < 1000 then poor else if n < 2500 then low else if n < 5000 then medium
  else if n < 8000 then fair else if n < 10000 then good else perfect

/-- The name of a grade. -/
def name : Compliance → Text
  | poor => "Poor".toList
  | low => "Low".toList
  | medium => "Medium".toList
  | fair => "Fair".toList
  | good => "Good".toList
  | perfect => "Perfect".toList

/-- The colour of a grade in a report. -/
def colour : Compliance → Text
  | poor => "red!50".toList
  | low => "red!30".toList
  | medium => "orange!50".toList
  | fair => "green!20".toList
  | good => "green!35".toList
  | perfect => "green!50".toList

end Compliance

/-- The files of a batch in numbers; shares are in hundredths of a percent. -/
structure Summary where
  total : Nat
  passed : Nat
  failed : Nat
  skipped : Nat
  successShare : Nat
  failedShare : Nat
  compliance : Compliance
  deriving DecidableEq

/-- The files of a batch in numbers. -/
def Summary.ofBatch (b : BatchReport) : Summary :=
  let total := b.results.length
  let passed := b.passedCount
  let failed := total - passed
  { total := total
    passed := passed
    failed := failed
    skipped := b.skipped.length
    successShare := share passed total
    failedShare := share failed total
    compliance := .ofShare (share passed total) }

/-! ## Findings -/

/-- The findings of a rule in numbers; the share is in hundredths of a percent. -/
structure RuleShare where
  kind : RuleKind
  count : Nat
  share : Nat
  deriving DecidableEq

namespace RuleShare

/-- The number of findings of a kind in a batch. -/
def countIn (b : BatchReport) (k : RuleKind) : Nat :=
  b.results.foldl (fun n r => n + r.countOf k) 0

/-- The findings of each rule of a policy in numbers. -/
def ofBatch (p : Policy) (b : BatchReport) : List RuleShare :=
  let total := p.kinds.foldl (fun n k => n + countIn b k) 0
  p.kinds.map fun k => ⟨k, countIn b k, ImageAudit.share (countIn b k) total⟩

end RuleShare

end ImageAudit
