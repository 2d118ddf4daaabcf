import ImageAudit.Text.Basic

/-!
# Findings

A finding says what a rule objects to, how to mend it, and which statement it is about. A file
passes an audit if there is none.

* `RuleKind.all` lists the kinds of rules in the order policies apply them.
* `AuditResult.verdict` follows from the findings.
-/

namespace ImageAudit

open Text

/-- The kinds of rules. -/
inductive RuleKind where
  | enforceRegistry
  | forbidTags
  | forbidInsecureRegistries
  | forbidRoot
  | forbidPrivilegedPorts
  | forbidPackages
  | forbidSecrets
  deriving DecidableEq

namespace RuleKind

/-- The name of a kind in reports. -/
def name : RuleKind → Text
  | enforceRegistry => "ENFORCE_REGISTRY".toList
  | forbidTags => "FORBID_TAGS".toList
  | forbidInsecureRegistries => "FORBID_INSECURE_REGISTRIES".toList
  | forbidRoot => "FORBID_ROOT".toList
  | forbidPrivilegedPorts => "FORBID_PRIVILEGED_PORTS".toList
  | forbidPackages => "FORBID_PACKAGES".toList
  | forbidSecrets => "FORBID_SECRETS".toList

/-- All kinds, in the order policies apply them. -/
def all : List RuleKind :=
  [enforceRegistry, forbidTags, forbidInsecureRegistries, forbidRoot, forbidPrivilegedPorts,
    forbidPackages, forbidSecrets]

theorem mem_all (k : RuleKind) : k ∈ all := by cases k <;> decide

/-- The kind of a name; the case of the letters does not matter. -/
def ofName? (t : Text) : Option RuleKind := all.find? fun k => sameWord k.name t

end RuleKind

/-- What a rule objects to. -/
structure Finding where
  kind : RuleKind
  /-- What is wrong. -/
  details : Text
  /-- How to mend it. -/
  mitigation : Text
  /-- The text of the statement it is about, if it is about one. -/
  statement : Option Text
  deriving DecidableEq

/-- What an audit comes to. -/
inductive Verdict where
  | pass
  | fail
  deriving DecidableEq

/-- The name of a verdict in reports. -/
def Verdict.name : Verdict → Text
  | pass => "pass".toList
  | fail => "fail".toList

/-- The audit of one file. -/
structure AuditResult where
  fileName : Text
  maintainers : Option Text
  findings : List Finding
  deriving DecidableEq

namespace AuditResult

/-- Whether there is no finding. -/
def passed (r : AuditResult) : Bool := r.findings.isEmpty

/-- A file passes if there is no finding. -/
def verdict (r : AuditResult) : Verdict := if r.passed then .pass else .fail

theorem verdict_eq_fail_iff {r : AuditResult} : r.verdict = .fail ↔ r.findings ≠ [] := by
  rw [verdict, passed]
  cases r.findings with
  | nil => exact iff_of_false nofun (fun some_finding => some_finding rfl)
  | cons f fs => exact iff_of_true rfl (List.cons_ne_nil f fs)

/-- The number of findings of a kind. -/
def countOf (r : AuditResult) (k : RuleKind) : Nat := r.findings.countP fun f => f.kind == k

end AuditResult

end ImageAudit
