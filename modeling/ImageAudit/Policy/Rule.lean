import ImageAudit.Pattern.Reader
import ImageAudit.Policy.Finding
import ImageAudit.Policy.Packages

/-!
# Rules

A rule turns the view of a Dockerfile into findings; what it cannot interpret it leaves alone.

* `Rule.findings` judges a view.
* `Rule.description` and `Rule.details` say what a rule asks for.
-/

namespace ImageAudit

open Text

/-- A rule with its parameters. -/
inductive Rule where
  /-- Images come from these registries. -/
  | enforceRegistry (allowed : List Text)
  /-- No image has one of these tags. -/
  | forbidTags (tags : List Text)
  /-- No registry is reached without encryption. -/
  | forbidInsecureRegistries
  /-- The container does not run as root. -/
  | forbidRoot
  /-- No port is exposed that needs privileges. -/
  | forbidPrivilegedPorts
  /-- None of these packages is installed. -/
  | forbidPackages (packages : List Text)
  /-- No file is added that matches a secret pattern and no allowed one. -/
  | forbidSecrets (secrets allowed : List SourcePattern)

/-- The text of a list, parted by commas. -/
def commaList (ts : List Text) : Text := join ", ".toList ts

/-! ## Registries -/

/-- The finding on an image from a registry that is not allowed. -/
def registryFinding (allowed : List Text) (b : Located BaseImage) : Finding :=
  ⟨.enforceRegistry,
    "Registry ".toList ++ b.item.reference.effectiveRegistry ++
      " is not an allowed registry to pull images from.".toList,
    "The FROM statement should be changed using images from one of the allowed registries: ".toList
      ++ commaList allowed,
    some b.text⟩

/-- Whether an image needs no registry: it is empty, or an earlier stage. -/
def isExempt (stageNames : List Text) (b : BaseImage) : Bool :=
  b.reference.isScratch || stageNames.contains b.reference.name

/-- The findings on images, given the names of the stages before them. -/
def registryFindingsFrom (allowed : List Text) :
    (stageNames : List Text) → List (Located BaseImage) → List Finding
  | _, [] => []
  | stageNames, b :: bs =>
    let rest := registryFindingsFrom allowed (stageNames ++ b.item.stageName.toList) bs
    if isExempt stageNames b.item || allowed.contains b.item.reference.effectiveRegistry then rest
    else registryFinding allowed b :: rest

/-- The findings on images from registries that are not allowed. -/
def registryFindings (allowed : List Text) (v : View) : List Finding :=
  registryFindingsFrom allowed [] v.bases

/-- The finding on a registry that is reached without encryption. -/
def insecureFinding (b : Located BaseImage) : Finding :=
  ⟨.forbidInsecureRegistries,
    "Registry ".toList ++ b.item.reference.effectiveRegistry ++
      " uses HTTP and therefore it is considered insecure".toList,
    "The FROM statement should be changed using images from a registry which uses HTTPS.".toList,
    some b.text⟩

/-- The findings on registries that are reached without encryption. -/
def insecureFindings (v : View) : List Finding :=
  (v.bases.filter fun b => startsWith "http://".toList b.item.reference.effectiveRegistry).map
    insecureFinding

/-! ## Tags -/

/-- The finding on an image with a tag that is not allowed. -/
def tagFinding (tags : List Text) (tag : Text) (b : Located BaseImage) : Finding :=
  ⟨.forbidTags,
    "Tag ".toList ++ tag ++ " is not allowed.".toList,
    ("The FROM statements should be changed using an image with a fixed tag or without any ".toList
      ++ "of the following tags: ".toList) ++ commaList tags,
    some b.text⟩

/-- The finding on an image, if its tag is not allowed. -/
def tagFinding? (tags : List Text) (b : Located BaseImage) : Option Finding :=
  if b.item.reference.isScratch then none
  else
    match b.item.reference.effectiveTag with
    | some tag => if tags.contains tag then some (tagFinding tags tag b) else none
    | none => none

/-- The findings on images with tags that are not allowed. -/
def tagFindings (tags : List Text) (v : View) : List Finding := v.bases.filterMap (tagFinding? tags)

/-! ## Users -/

/-- The finding on a file that sets no user. -/
def noUserFinding : Finding :=
  ⟨.forbidRoot,
    ("No USER statements found. By default, if privileges are not dropped, the container ".toList
      ++ "will run as root.".toList),
    ("Create a user and add a USER statement before the entrypoint of the image to run the ".toList
      ++ "application as a non-privileged user.".toList),
    none⟩

/-- The finding on a file whose last user is root. -/
def rootFinding (u : Located Owner) : Finding :=
  ⟨.forbidRoot,
    "The last USER statement found elevates privileges to root.".toList,
    ("Add one more USER statement before the entrypoint of the image to run the application ".toList
      ++ "as a non-privileged user.".toList),
    some u.text⟩

/-- The finding on the user a container runs as. -/
def rootFindings (v : View) : List Finding :=
  match v.users.getLast? with
  | none => [noUserFinding]
  | some u => if u.item.isRoot then [rootFinding u] else []

/-! ## Ports -/

/-- The highest port that needs privileges. -/
def highestPrivilegedPort : Nat := 1024

/-- The number a port stands for: its own, or that of the variable it refers to. -/
def portNumber? (v : View) (p : Port) : Option Nat :=
  match p.number? with
  | some n => some n
  | none => do
    let name ← p.reference?
    let value ← v.envValue name
    Port.numberOf? (((cut '/' value).map (·.1)).getD value)

/-- The finding on a port that needs privileges. -/
def portFinding (n : Nat) (e : Located (List Port)) : Finding :=
  ⟨.forbidPrivilegedPorts,
    "The container exposes a privileged port: ".toList ++ decimal n ++
      ". Privileged ports require the application which uses it to run as root.".toList,
    ("Change the configuration for the application to bind on a port greater than 1024, and ".toList
      ++ "change the Dockerfile to reflect this modification.".toList),
    some e.text⟩

/-- The finding on a port, if it needs privileges. -/
def portFinding? (v : View) (e : Located (List Port)) (p : Port) : Option Finding :=
  match portNumber? v p with
  | some n => if n ≤ highestPrivilegedPort then some (portFinding n e) else none
  | none => none

/-- The findings on ports that need privileges. -/
def portFindings (v : View) : List Finding :=
  v.exposes.flatMap fun e => e.item.filterMap (portFinding? v e)

/-! ## Packages -/

/-- The finding on a package that is installed. -/
def installFinding (package : Text) (run : Located RunCommand) : Finding :=
  ⟨.forbidPackages,
    "Forbidden package \x22".toList ++ package ++ "\x22 is installed.".toList,
    "The RUN statements should be reviewed and package \x22".toList ++ package ++
      "\x22 should be removed unless absolutely necessary.".toList,
    some run.text⟩

/-- The finding on a package that a statement names. -/
def mentionFinding (package : Text) (s : Statement) : Finding :=
  ⟨.forbidPackages,
    "Forbidden package \x22".toList ++ package ++ "\x22 is installed or used.".toList,
    "The RUN/CMD/ENTRYPOINT statement should be reviewed and package \x22".toList ++ package ++
      "\x22 should be removed unless absolutely necessary.".toList,
    some s.text⟩

/-- The statements that run something, in the order of their lines; on one line, RUN comes before
CMD and CMD before ENTRYPOINT. -/
def commandStatements (v : View) : List Statement :=
  (v.runs.map (·.statement) ++ v.cmds.map (·.statement) ++
    v.entrypoints.map (·.statement)).mergeSort fun a b => a.line ≤ b.line

/-- The findings on statements that name a package as a whole word. -/
def mentionFindings (packages : List Text) (v : View) : List Finding :=
  (commandStatements v).flatMap fun s =>
    (packages.filter fun p => (Pattern.wholeWord p).occursIn s.text).map fun p => mentionFinding p s

/-- The findings on packages: those that the last stage installs, or, if it calls no package manager
at all, those that any command names. -/
def packageFindings (packages : List Text) (v : View) : List Finding :=
  let events := packageEvents v.lastStageRuns
  if events.isEmpty then mentionFindings packages v
  else packages.filterMap fun p => (installer? events p).map (installFinding p)

/-! ## Secrets -/

/-- The first secret pattern that a path matches, unless it matches an allowed one. -/
def secretPattern? (secrets allowed : List SourcePattern) (path : Text) : Option SourcePattern :=
  match secrets.find? fun p => p.pattern.occursIn path with
  | some p => if allowed.any fun a => a.pattern.occursIn path then none else some p
  | none => none

/-- The finding on a file that is a secret. -/
def secretFinding (p : SourcePattern) (t : Located Transfer) : Finding :=
  ⟨.forbidSecrets,
    "Forbidden file matching pattern \x22".toList ++ p.text ++
      "\x22 is added into the image.".toList,
    ("The ADD/COPY statement should be changed or removed. Secrets should be provisioned ".toList
      ++ "using a safer and stateless way (Vault, Kubernetes secrets) instead.".toList),
    some t.text⟩

/-- The findings on files that are secrets. -/
def secretFindings (secrets allowed : List SourcePattern) (v : View) : List Finding :=
  v.transfers.flatMap fun t =>
    (t.item.sources.filterMap (secretPattern? secrets allowed)).map fun p => secretFinding p t

/-! ## Rules -/

namespace Rule

/-- The kind of a rule. -/
def kind : Rule → RuleKind
  | enforceRegistry _ => .enforceRegistry
  | forbidTags _ => .forbidTags
  | forbidInsecureRegistries => .forbidInsecureRegistries
  | forbidRoot => .forbidRoot
  | forbidPrivilegedPorts => .forbidPrivilegedPorts
  | forbidPackages _ => .forbidPackages
  | forbidSecrets _ _ => .forbidSecrets

/-- What a rule asks for. -/
def description : Rule → Text
  | enforceRegistry _ =>
    "Allow images to be based (using the FROM command) only on images belonging to approved ".toList
      ++ "repositories.".toList
  | forbidTags _ =>
    "Restrict the use of certain tags for the images the build is sourced from (using FROM ".toList
      ++ "command)".toList
  | forbidInsecureRegistries =>
    "Forbid the use of HTTP protocol for the registries from which source images are stored.".toList
  | forbidRoot => "Forbid the container to run as a privileged (root) user.".toList
  | forbidPrivilegedPorts =>
    "Forbid the image to expose privileged ports that require administrative permissions.".toList
  | forbidPackages _ => "Forbid the installation/use of dangerous packages.".toList
  | forbidSecrets _ _ => "Forbid the inclusion of secrets in the image.".toList

/-- The parameters of a rule in words. -/
def details : Rule → Text
  | enforceRegistry allowed =>
    "The following registries are allowed: ".toList ++ commaList allowed ++ ['.']
  | forbidTags tags => "The following tags are forbidden: ".toList ++ commaList tags ++ ['.']
  | forbidPackages packages =>
    "The following packages are forbidden: ".toList ++ commaList packages ++ ['.']
  | forbidSecrets secrets allowed =>
    "The following patterns are forbidden: ".toList ++ commaList (secrets.map (·.text)) ++
      ".\nThe following patterns are whitelisted: ".toList ++
      commaList (allowed.map (·.text)) ++ ['.']
  | forbidInsecureRegistries | forbidRoot | forbidPrivilegedPorts => []

/-- What a rule objects to. -/
def findings : Rule → View → List Finding
  | enforceRegistry allowed, v => registryFindings allowed v
  | forbidTags tags, v => tagFindings tags v
  | forbidInsecureRegistries, v => insecureFindings v
  | forbidRoot, v => rootFindings v
  | forbidPrivilegedPorts, v => portFindings v
  | forbidPackages packages, v => packageFindings packages v
  | forbidSecrets secrets allowed, v => secretFindings secrets allowed v

end Rule

end ImageAudit
