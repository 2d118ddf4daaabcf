import ImageAudit.Report.Content
import ImageAudit.Text.Numeral

/-!
# LaTeX reports

The report that is written unless a template is given: the rules, the batch in numbers, and each
result with its findings.

* `Report.document` writes the content of a report.
-/

namespace ImageAudit.Report

open Text

/-! ## Commands -/

/-- A text between braces. -/
def braced (t : Text) : Text := '\x7b' :: t ++ ['\x7d']

/-- A command with an argument. -/
def command (name : String) (argument : Text) : Text := '\\' :: name.toList ++ braced argument

/-- A command with an option and an argument. -/
def commandWith (name : String) (option : String) (argument : Text) : Text :=
  '\\' :: name.toList ++ '[' :: option.toList ++ ']' :: braced argument

/-- The lines of a text, each ended. -/
def ended (ls : List Text) : Text := ls.flatMap fun l => l ++ ['\n']

/-- The end of a row of a table. -/
def rowEnd : Text := " \\\\".toList

/-- A line across a table. -/
def tableRule : Text := "\\hline".toList

/-- The beginning of an environment. -/
def openEnvironment (name : String) : Text := command "begin" name.toList

/-- The end of an environment. -/
def closeEnvironment (name : String) : Text := command "end" name.toList

/-- A column of a given share of the text's width. -/
def column (share : String) : Text := 'p' :: braced (share.toList ++ "\\textwidth".toList)

/-- The beginning of a table of two columns that may go on over pages. -/
def longTable (left right : String) : Text :=
  openEnvironment "longtable" ++ braced ('|' :: column left ++ '|' :: column right ++ ['|'])

/-- A name in a table. -/
def typewriter (t : Text) : Text := command "texttt" t

/-- A heading or a label. -/
def bold (t : String) : Text := command "textbf" t.toList

/-- A label inside a cell. -/
def italic (t : String) : Text := command "textit" t.toList

/-- A share in percent. -/
def percent (n : Nat) : Text := hundredths n ++ "\\%".toList

/-! ## Parts -/

/-- Everything before the first section. -/
def preamble (c : Content) : Text :=
  ended [
    commandWith "documentclass" "11pt,a4paper" "article".toList,
    commandWith "usepackage" "utf8" "inputenc".toList,
    commandWith "usepackage" "T1" "fontenc".toList,
    commandWith "usepackage" "margin=2cm" "geometry".toList,
    commandWith "usepackage" "table" "xcolor".toList,
    command "usepackage" "longtable".toList,
    command "usepackage" "hyperref".toList,
    [],
    command "title" "Dockerfile Audit Report".toList,
    command "date" c.date,
    [],
    openEnvironment "document",
    "\\maketitle".toList,
    "\\tableofcontents".toList,
    "\\newpage".toList,
    []]

/-- The row of a rule. -/
def ruleRow (r : RuleRow) : Text :=
  let details := if r.details.isEmpty then [] else " \\newline ".toList ++ command "small" r.details
  ended [[], typewriter r.kind ++ " & ".toList ++ r.description ++ details ++ rowEnd, tableRule]

/-- The section on the rules. -/
def policySection (c : Content) : Text :=
  ended [
    command "section" "Policy".toList,
    "The audit was performed with the following rules enabled.".toList,
    [],
    longTable "0.28" "0.64",
    tableRule,
    bold "Rule" ++ " & ".toList ++ bold "Description" ++ rowEnd,
    tableRule] ++
  c.rules.flatMap ruleRow ++
  ended [[], closeEnvironment "longtable", []]

/-- A line of the summary. -/
def summaryRow (name : String) (value : Text) : Text :=
  name.toList ++ " & ".toList ++ value ++ rowEnd

/-- A number of files and their share. -/
def countWithShare (count share : Nat) : Text :=
  decimal count ++ " (".toList ++ percent share ++ [')']

/-- The section on the files in numbers. -/
def summarySection (s : Summary) : Text :=
  ended [
    command "section" "Summary".toList,
    openEnvironment "tabular" ++ braced "|l|r|".toList,
    tableRule,
    summaryRow "Audited files" (decimal s.total),
    summaryRow "Passed" (countWithShare s.passed s.successShare),
    summaryRow "Failed" (countWithShare s.failed s.failedShare),
    summaryRow "Skipped" (decimal s.skipped),
    tableRule,
    summaryRow "Compliance level"
      (command "cellcolor" s.compliance.colour ++ ' ' :: s.compliance.name),
    tableRule,
    closeEnvironment "tabular",
    []]

/-- The row of a rule's findings in numbers. -/
def shareRow (r : ShareRow) : Text :=
  ended [[], typewriter r.kind ++ " & ".toList ++ decimal r.count ++ " & ".toList ++
    percent r.share ++ rowEnd]

/-- The section on the findings in numbers. -/
def sharesSection (c : Content) : Text :=
  ended [
    command "subsection" "Violations per rule".toList,
    openEnvironment "tabular" ++ braced "|l|r|r|".toList,
    tableRule,
    bold "Rule" ++ " & ".toList ++ bold "Count" ++ " & ".toList ++ bold "Share" ++ rowEnd,
    tableRule] ++
  c.shares.flatMap shareRow ++
  ended [[], tableRule, closeEnvironment "tabular", []]

/-- The rows of a finding. -/
def findingRows (f : FindingRow) : Text :=
  ended [
    [],
    typewriter f.kind ++ " & ".toList ++ f.details ++ rowEnd,
    " & ".toList ++ italic "Mitigation:" ++ ' ' :: f.mitigation ++ rowEnd,
    " & ".toList ++ italic "Statement:" ++ ' ' ::
      typewriter ("\\tiny ".toList ++ f.statement ++ [' ']) ++ rowEnd,
    tableRule]

/-- The table of the findings of a result. -/
def findingsTable (fs : List FindingRow) : Text :=
  if fs.isEmpty then []
  else
    ended [[], longTable "0.22" "0.70", tableRule] ++ fs.flatMap findingRows ++
      ended [[], closeEnvironment "longtable"]

/-- The word for a verdict. -/
def verdict (passed : Bool) : Text :=
  if passed then command "textcolor" "green!50!black".toList ++ braced "PASS".toList
  else command "textcolor" "red".toList ++ braced "FAIL".toList

/-- The section on a result. -/
def resultSection (r : ResultRow) : Text :=
  ended [
    [],
    command "subsection" r.fileName,
    bold "Maintainers:" ++ ' ' :: r.maintainers ++ rowEnd,
    bold "Outcome:" ++ ' ' :: verdict r.passed,
    []] ++
  findingsTable r.findings ++
  ended [[]]

/-- The report. -/
def document (c : Content) : Text :=
  preamble c ++ policySection c ++ summarySection c.summary ++ sharesSection c ++
    ended [command "section" "Results".toList] ++ c.results.flatMap resultSection ++
    ended [[], [], closeEnvironment "document"]

end ImageAudit.Report
