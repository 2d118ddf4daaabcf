import ImageAudit.Audit
import ImageAudit.Text.Numeral

/-!
# Terminal reports

The report of a batch as lines for a terminal: for each file the verdict, and for each finding what
is wrong, where, and how to mend it.

* `Terminal.report` writes a batch, with or without colours.
-/

namespace ImageAudit.Terminal

open Text

/-- How a part of a line is set off. -/
inductive Emphasis where
  | plain
  | bold
  | dim
  | green
  | red
  | yellow
  deriving DecidableEq

/-- A part of a report. -/
structure Span where
  emphasis : Emphasis
  text : Text
  deriving DecidableEq

/-- The character that begins an escape code. -/
def escapeChar : Char := '\x1b'

/-- The code that begins an emphasis. -/
def Emphasis.code : Emphasis → Text
  | plain => []
  | bold => escapeChar :: "[1m".toList
  | dim => escapeChar :: "[2m".toList
  | green => escapeChar :: "[1;32m".toList
  | red => escapeChar :: "[1;31m".toList
  | yellow => escapeChar :: "[1;33m".toList

/-- The code that ends an emphasis. -/
def reset : Text := escapeChar :: "[0m".toList

/-- Writes a part; without colours, or without emphasis, only its text. -/
def Span.render (colours : Bool) (s : Span) : Text :=
  if colours && s.emphasis != .plain then s.emphasis.code ++ s.text ++ reset else s.text

/-- A part without emphasis. -/
def plain (t : Text) : Span := ⟨.plain, t⟩

/-! ## The parts of a report -/

/-- The emphasis of a verdict. -/
def verdictEmphasis : Verdict → Emphasis
  | .pass => .green
  | .fail => .red

/-- The word for a verdict. -/
def verdictWord : Verdict → Text
  | .pass => "PASS".toList
  | .fail => "FAIL".toList

/-- The lines of a finding. -/
def findingSpans (f : Finding) : List Span :=
  [plain "  ".toList, ⟨.yellow, f.kind.name⟩, plain (": ".toList ++ f.details ++ ['\n'])] ++
  (match f.statement with
    | some s => [plain "    ".toList, ⟨.dim, "> ".toList ++ s⟩, plain ['\n']]
    | none => []) ++
  [plain "    ".toList, ⟨.dim, "fix:".toList⟩, plain (' ' :: f.mitigation ++ ['\n'])]

/-- The lines of a file. -/
def resultSpans (r : AuditResult) : List Span :=
  [⟨verdictEmphasis r.verdict, verdictWord r.verdict⟩, plain [' '], ⟨.bold, r.fileName⟩] ++
  (match r.maintainers with
    | some m => [plain [' '], ⟨.dim, '(' :: m ++ [')']⟩]
    | none => []) ++
  [plain ['\n']] ++ r.findings.flatMap findingSpans

/-- The line of a file that was skipped. -/
def skippedSpans (s : SkippedFile) : List Span :=
  [⟨.dim, "SKIP".toList⟩, plain (' ' :: s.path ++ ": ".toList ++ s.error.message ++ ['\n'])]

/-- The last line, unless no file was audited. -/
def totalSpans (b : BatchReport) : List Span :=
  if b.results.isEmpty then []
  else
    [plain ['\n'],
      ⟨verdictEmphasis .pass, decimal b.passedCount ++ " passed".toList⟩, plain ", ".toList,
      ⟨verdictEmphasis .fail, decimal b.failedCount ++ " failed".toList⟩,
      plain (", ".toList ++ decimal b.skipped.length ++ " skipped\n".toList)]

/-- The parts of the report of a batch. -/
def spans (b : BatchReport) : List Span :=
  b.results.flatMap resultSpans ++ b.skipped.flatMap skippedSpans ++ totalSpans b

/-- Writes the report of a batch. -/
def report (colours : Bool) (b : BatchReport) : Text := (spans b).flatMap (Span.render colours)

end ImageAudit.Terminal
