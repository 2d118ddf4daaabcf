import ImageAudit.Policy.Rule
import ImageAudit.Proofs.Dockerfile.View

/-!
# What rules read

A rule looks at statements of a few kinds only, and at the order they stand in; all other statements
may come and go.

* `Rule.findings_only`: the findings are those on the statements the rule reads.
* `Rule.findings_insert`: one more statement of any other kind, wherever it stands, changes nothing.
-/

namespace ImageAudit

/-- The kinds of statements a rule reads. -/
def RuleKind.reads : RuleKind → List Kind
  | enforceRegistry | forbidTags | forbidInsecureRegistries => [.base]
  | forbidRoot => [.user]
  | forbidPrivilegedPorts => [.expose, .env]
  | forbidPackages => [.base, .run, .cmd, .entrypoint]
  | forbidSecrets => [.add, .copy]

namespace Dockerfile

/-- The statements of some kinds only. -/
def only (kinds : List Kind) (d : Dockerfile) : Dockerfile :=
  { d with statements := d.statements.filter fun s => kinds.contains s.kind }

variable {kinds : List Kind}

theorem select_only {α : Type} {pick : Instruction → Option α} {k : Kind}
    (picks : Instruction.Picks pick k) (read : k ∈ kinds) (d : Dockerfile) :
    Located.select pick (d.only kinds).statements = Located.select pick d.statements :=
  Located.select_filter picks (fun s same => by simp [same, read]) d.statements

theorem lastStageRuns_only (base : .base ∈ kinds) (run : .run ∈ kinds) (d : Dockerfile) :
    (d.only kinds).view.lastStageRuns = d.view.lastStageRuns := by
  have kept (k : Kind) (read : k ∈ kinds) (s : Statement) (same : s.kind = k) :
      kinds.contains s.kind = true := by simp [same, read]
  rw [lastStageRuns_view (isLastStage_afterLastBase (d.only kinds).statements),
    lastStageRuns_view (isLastStage_afterLastBase d.statements), only,
    afterLastBase_filter (kept .base base),
    Located.select_filter Instruction.picks_run (kept .run run)]

end Dockerfile

/-! ## Rules on several lists of a view -/

section

variable {v w : View}

theorem portFindings_congr (exposes : v.exposes = w.exposes) (envs : v.envs = w.envs) :
    portFindings v = portFindings w := by
  have number (p : Port) : portNumber? v p = portNumber? w p := by
    simp only [portNumber?, View.envValue, envs]
  have finding (e : Located (List Port)) : portFinding? v e = portFinding? w e := by
    funext p
    rw [portFinding?, portFinding?, number]
  rw [portFindings, portFindings, exposes]
  simp only [finding]

theorem packageFindings_congr (last : v.lastStageRuns = w.lastStageRuns) (runs : v.runs = w.runs)
    (cmds : v.cmds = w.cmds) (entrypoints : v.entrypoints = w.entrypoints) (packages : List Text) :
    packageFindings packages v = packageFindings packages w := by
  have statements : commandStatements v = commandStatements w := by
    rw [commandStatements, commandStatements, runs, cmds, entrypoints]
  rw [packageFindings, packageFindings, last, mentionFindings, mentionFindings, statements]

theorem secretFindings_congr (adds : v.adds = w.adds) (copies : v.copies = w.copies)
    (secrets allowed : List SourcePattern) :
    secretFindings secrets allowed v = secretFindings secrets allowed w := by
  rw [secretFindings, secretFindings, View.transfers, View.transfers, adds, copies]

end

/-! ## Rules -/

namespace Rule

open Dockerfile Instruction

/-- The findings of a rule are those on the statements it reads. -/
theorem findings_only (r : Rule) (d : Dockerfile) :
    r.findings (d.only r.kind.reads).view = r.findings d.view := by
  have bases : (d.only [.base]).view.bases = d.view.bases :=
    select_only picks_base (by decide) d
  have users : (d.only [.user]).view.users = d.view.users :=
    select_only picks_user (by decide) d
  cases r with
  | enforceRegistry allowed =>
    change registryFindings allowed (d.only [.base]).view = registryFindings allowed d.view
    rw [registryFindings, registryFindings, bases]
  | forbidTags tags =>
    change tagFindings tags (d.only [.base]).view = tagFindings tags d.view
    rw [tagFindings, tagFindings, bases]
  | forbidInsecureRegistries =>
    change insecureFindings (d.only [.base]).view = insecureFindings d.view
    rw [insecureFindings, insecureFindings, bases]
  | forbidRoot =>
    change rootFindings (d.only [.user]).view = rootFindings d.view
    rw [rootFindings, rootFindings, users]
  | forbidPrivilegedPorts =>
    change portFindings (d.only [.expose, .env]).view = portFindings d.view
    exact portFindings_congr (select_only picks_expose (by decide) d)
      (select_only picks_env (by decide) d)
  | forbidPackages packages =>
    change packageFindings packages (d.only [.base, .run, .cmd, .entrypoint]).view =
      packageFindings packages d.view
    exact packageFindings_congr (lastStageRuns_only (by decide) (by decide) d)
      (select_only picks_run (by decide) d) (select_only picks_cmd (by decide) d)
      (select_only picks_entrypoint (by decide) d) packages
  | forbidSecrets secrets allowed =>
    change secretFindings secrets allowed (d.only [.add, .copy]).view =
      secretFindings secrets allowed d.view
    exact secretFindings_congr (select_only picks_add (by decide) d)
      (select_only picks_copy (by decide) d) secrets allowed

/-- One more statement of a kind that a rule does not read, wherever it stands and whatever its line
and text, leaves the findings of the rule as they are. -/
theorem findings_insert (r : Rule) (path : Option Text) (before after : List Statement)
    {s : Statement} (unread : s.kind ∉ r.kind.reads) :
    r.findings (view ⟨path, before ++ s :: after⟩) = r.findings (view ⟨path, before ++ after⟩) := by
  have same : Dockerfile.only r.kind.reads ⟨path, before ++ s :: after⟩ =
      Dockerfile.only r.kind.reads ⟨path, before ++ after⟩ := by
    simp [Dockerfile.only, unread]
  rw [← findings_only, same, findings_only]

/-- A user that waits for a later build is none of the user rule's concern. -/
theorem findings_insert_onbuild :
    let root : Statement := ⟨.user ⟨"root".toList, none⟩, 2, "USER root".toList⟩
    let later : Statement :=
      ⟨.onbuild (.user ⟨"app".toList, none⟩), 3, "ONBUILD USER app".toList⟩
    forbidRoot.findings (view ⟨none, [root, later]⟩) = forbidRoot.findings (view ⟨none, [root]⟩) ∧
      forbidRoot.findings (view ⟨none, [root]⟩) = [rootFinding ⟨⟨"root".toList, none⟩, root⟩] := by
  intro root later
  exact ⟨findings_insert forbidRoot none [root] [] (s := later) (by decide), by decide⟩

end Rule

end ImageAudit
