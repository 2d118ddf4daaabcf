import ImageAudit.Policy.Rule

/-!
# Policies

A policy is a list of rules, applied in order.

* `Policy.ofConfig` builds the rules that a configuration enables.
* `Policy.evaluate` judges a Dockerfile.
-/

namespace ImageAudit

open Text

/-! ## Configurations -/

/-- A rule without parameters. -/
structure SwitchConfig where
  enabled : Bool
  deriving DecidableEq

/-- A rule with a list it cannot do without. -/
structure ListConfig where
  enabled : Bool
  items : Option (List Text)
  deriving DecidableEq

/-- The rule on secrets. -/
structure SecretsConfig where
  enabled : Bool
  secrets : Option (List Text)
  allowed : List Text
  deriving DecidableEq

/-- What a policy document says of each rule. -/
structure PolicyConfig where
  registries : Option ListConfig
  tags : Option ListConfig
  insecureRegistries : Option SwitchConfig
  root : Option SwitchConfig
  privilegedPorts : Option SwitchConfig
  packages : Option ListConfig
  secrets : Option SecretsConfig
  deriving DecidableEq

/-- A configuration without rules. -/
def PolicyConfig.empty : PolicyConfig := ⟨none, none, none, none, none, none, none⟩

/-! ## Errors -/

/-- Why there is no policy. -/
inductive PolicyError where
  /-- The file is not there. -/
  | notFound (path : Text)
  /-- The file cannot be read as text. -/
  | unreadable (path reason : Text)
  /-- The document has not the form of a configuration. -/
  | invalidConfig
  /-- A pattern is none. -/
  | invalidPattern (pattern : Text)
  deriving DecidableEq

/-- What is said of an error; the reasons of the last two are not told. -/
def PolicyError.message : PolicyError → Text
  | notFound path => "Policy file ".toList ++ path ++ " does not exist".toList
  | unreadable path reason =>
    "Failed to read policy file ".toList ++ path ++ ": ".toList ++ reason
  | invalidConfig => "Invalid policy configuration".toList
  | invalidPattern _ => "Invalid pattern".toList

/-! ## Policies -/

/-- The rules of an audit in order. -/
structure Policy where
  rules : List Rule

/-- What a rule asks for, in words. -/
structure RuleSummary where
  kind : RuleKind
  description : Text
  details : Text
  deriving DecidableEq

/-- Reads patterns with `read`; the first that is none decides. -/
def readPatterns (read : Text → Option SourcePattern) :
    List Text → Except PolicyError (List SourcePattern)
  | [] => .ok []
  | t :: ts =>
    match read t with
    | none => .error (.invalidPattern t)
    | some p => (readPatterns read ts).map (p :: ·)

namespace Rule

/-- A rule that is enabled. -/
def ofSwitch (rule : Rule) : Option SwitchConfig → List Rule
  | some c => if c.enabled then [rule] else []
  | none => []

/-- A rule that is enabled and has its list. -/
def ofList (rule : List Text → Rule) : Option ListConfig → List Rule
  | some c => if c.enabled then (c.items.map rule).toList else []
  | none => []

section Reader

variable (read : Text → Option SourcePattern)

/-- The rule on packages, the names of which must be patterns once they are escaped. -/
def ofPackagesWith (packages : List Text) : Except PolicyError Rule :=
  (readPatterns read (packages.map Pattern.wholeWordText)).map fun _ => forbidPackages packages

/-- The rule on secrets; its patterns are read before the allowed ones. -/
def ofSecretsWith (secrets allowed : List Text) : Except PolicyError Rule := do
  let secrets ← readPatterns read secrets
  let allowed ← readPatterns read allowed
  return forbidSecrets secrets allowed

/-- The rule on packages if it is enabled and has its list. -/
def ofPackagesConfig : Option ListConfig → Except PolicyError (List Rule)
  | some ⟨true, some packages⟩ => (ofPackagesWith read packages).map fun r => [r]
  | _ => .ok []

/-- The rule on secrets if it is enabled and has patterns. -/
def ofSecretsConfig : Option SecretsConfig → Except PolicyError (List Rule)
  | some ⟨true, some (t :: ts), allowed⟩ =>
    (ofSecretsWith read (t :: ts) allowed).map fun r => [r]
  | _ => .ok []

end Reader

/-- The rule on secrets. -/
def ofSecrets : List Text → List Text → Except PolicyError Rule :=
  ofSecretsWith SourcePattern.ofText?

end Rule

namespace Policy

/-- The rules a configuration enables, with a reader of patterns; one whose list is missing is left
out. -/
def ofConfigWith (read : Text → Option SourcePattern) (c : PolicyConfig) :
    Except PolicyError Policy := do
  let packages ← Rule.ofPackagesConfig read c.packages
  let secrets ← Rule.ofSecretsConfig read c.secrets
  return ⟨Rule.ofList .enforceRegistry c.registries ++
    Rule.ofList .forbidTags c.tags ++
    Rule.ofSwitch .forbidInsecureRegistries c.insecureRegistries ++
    Rule.ofSwitch .forbidRoot c.root ++
    Rule.ofSwitch .forbidPrivilegedPorts c.privilegedPorts ++
    packages ++
    secrets⟩

/-- The rules a configuration enables. -/
def ofConfig : PolicyConfig → Except PolicyError Policy := ofConfigWith SourcePattern.ofText?

/-- The findings of all rules, in order. -/
def findings (p : Policy) (v : View) : List Finding := p.rules.flatMap fun r => r.findings v

/-- The audit of a Dockerfile. -/
def evaluate (p : Policy) (d : Dockerfile) : AuditResult :=
  ⟨d.fileName, d.maintainers, p.findings d.view⟩

/-- The kinds of the rules, in order. -/
def kinds (p : Policy) : List RuleKind := p.rules.map Rule.kind

/-- What the rules ask for, in order. -/
def summary (p : Policy) : List RuleSummary :=
  p.rules.map fun r => ⟨r.kind, r.description, r.details⟩

end Policy

end ImageAudit
