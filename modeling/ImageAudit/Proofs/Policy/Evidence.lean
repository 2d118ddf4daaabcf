import ImageAudit.Policy.Basic
import ImageAudit.Proofs.Policy.Packages
import ImageAudit.Proofs.Policy.Registry

/-!
# What findings rest on

A finding points at a statement of the file that is judged, of a kind its rule is about; only a file
that never sets a user is blamed for what it does not say.

* `Rule.isEvident` says so of the findings of every rule.
* `Policy.evaluate_isEvident` gathers what an audit comes to.
-/

namespace ImageAudit

open Instruction

/-- The kinds of statements that findings of a kind may point at. -/
def RuleKind.cited : RuleKind → List Kind
  | enforceRegistry | forbidTags | forbidInsecureRegistries => [.base]
  | forbidRoot => [.user]
  | forbidPrivilegedPorts => [.expose]
  | forbidPackages => [.run, .cmd, .entrypoint]
  | forbidSecrets => [.add, .copy]

/-- Whether a finding rests on a file: it gives the text of one of its statements, or says rightly
that there is no user. -/
inductive Finding.IsEvident (ss : List Statement) (f : Finding) : Prop where
  | noUser (root : f.kind = .forbidRoot) (absent : f.statement = none)
      (never : ∀ s ∈ ss, s.kind ≠ .user)
  | cited {before after : List Statement} {s : Statement} (split : ss = before ++ s :: after)
      (text : f.statement = some s.text) (kind : s.kind ∈ f.kind.cited)
      (last : f.kind = .forbidRoot → ∀ later ∈ after, later.kind ≠ .user)

theorem Finding.IsEvident.of_mem {ss : List Statement} {f : Finding} {s : Statement}
    (inside : s ∈ ss) (text : f.statement = some s.text) (kind : s.kind ∈ f.kind.cited)
    (other : f.kind ≠ .forbidRoot) : f.IsEvident ss := by
  obtain ⟨before, after, split⟩ := List.append_of_mem inside
  exact .cited split text kind fun root => absurd root other

/-! ## What each rule builds its findings from -/

section

variable {v : View} {f : Finding}

theorem exists_of_mem_registryFindings {allowed : List Text}
    (reported : f ∈ registryFindings allowed v) :
    ∃ b ∈ v.bases, f = registryFinding allowed b := by
  rw [registryFindings_eq_reports, reports] at reported
  obtain ⟨⟨earlier, b⟩, kept, rfl⟩ := List.mem_map.1 reported
  obtain ⟨later, split⟩ := mem_withEarlier.1 (List.mem_filter.1 kept).1
  exact ⟨b, by simp [split], rfl⟩

theorem exists_of_mem_tagFindings {tags : List Text} (reported : f ∈ tagFindings tags v) :
    ∃ b ∈ v.bases, ∃ tag, f = tagFinding tags tag b := by
  obtain ⟨b, inside, found⟩ := List.mem_filterMap.1 reported
  refine ⟨b, inside, ?_⟩
  rw [tagFinding?] at found
  split at found
  · cases found
  · split at found
    · next tag _ =>
      split at found
      · exact ⟨tag, (Option.some.inj found).symm⟩
      · cases found
    · cases found

theorem exists_of_mem_insecureFindings (reported : f ∈ insecureFindings v) :
    ∃ b ∈ v.bases, f = insecureFinding b := by
  obtain ⟨b, kept, rfl⟩ := List.mem_map.1 reported
  exact ⟨b, (List.mem_filter.1 kept).1, rfl⟩

theorem exists_of_mem_portFindings (reported : f ∈ portFindings v) :
    ∃ e ∈ v.exposes, ∃ n, f = portFinding n e := by
  obtain ⟨e, inside, found⟩ := List.mem_flatMap.1 reported
  obtain ⟨p, -, found⟩ := List.mem_filterMap.1 found
  refine ⟨e, inside, ?_⟩
  rw [portFinding?] at found
  split at found
  · next n _ =>
    split at found
    · exact ⟨n, (Option.some.inj found).symm⟩
    · cases found
  · cases found

theorem exists_of_mem_packageFindings {packages : List Text}
    (reported : f ∈ packageFindings packages v) :
    (∃ run ∈ v.lastStageRuns, ∃ p, f = installFinding p run) ∨
      ∃ s ∈ commandStatements v, ∃ p, f = mentionFinding p s := by
  simp only [packageFindings] at reported
  split at reported
  · -- No call at all is found, so statements of the whole file are cited.
    obtain ⟨s, inside, found⟩ := List.mem_flatMap.1 reported
    obtain ⟨p, -, rfl⟩ := List.mem_map.1 found
    exact .inr ⟨s, inside, p, rfl⟩
  · obtain ⟨p, -, found⟩ := List.mem_filterMap.1 reported
    obtain ⟨run, installs, rfl⟩ := Option.map_eq_some_iff.1 found
    obtain ⟨before, after, runs, -⟩ := split_of_installer? installs
    exact .inl ⟨run, by simp [runs], p, rfl⟩

theorem exists_of_mem_secretFindings {secrets allowed : List SourcePattern}
    (reported : f ∈ secretFindings secrets allowed v) :
    ∃ t ∈ v.transfers, ∃ p, f = secretFinding p t := by
  obtain ⟨t, inside, found⟩ := List.mem_flatMap.1 reported
  obtain ⟨p, -, rfl⟩ := List.mem_map.1 found
  exact ⟨t, inside, p, rfl⟩

end

/-! ## Where this stands in a file -/

section

variable {d : Dockerfile}

theorem of_mem_map_statement {α : Type} {pick : Instruction → Option α} {k : Kind}
    (picks : Picks pick k) {ss : List Statement} {s : Statement}
    (inside : s ∈ (Located.select pick ss).map (·.statement)) : s ∈ ss ∧ s.kind = k := by
  obtain ⟨l, listed, rfl⟩ := List.mem_map.1 inside
  exact Located.of_mem_select picks listed

theorem of_mem_commandStatements {s : Statement} (inside : s ∈ commandStatements d.view) :
    s ∈ d.statements ∧ s.kind ∈ RuleKind.forbidPackages.cited := by
  rw [commandStatements, List.mem_mergeSort, List.mem_append, List.mem_append] at inside
  rcases inside with (run | cmd) | entrypoint
  · obtain ⟨member, kind⟩ := of_mem_map_statement picks_run run
    exact ⟨member, by simp [kind, RuleKind.cited]⟩
  · obtain ⟨member, kind⟩ := of_mem_map_statement picks_cmd cmd
    exact ⟨member, by simp [kind, RuleKind.cited]⟩
  · obtain ⟨member, kind⟩ := of_mem_map_statement picks_entrypoint entrypoint
    exact ⟨member, by simp [kind, RuleKind.cited]⟩

theorem of_mem_transfers {t : Located Transfer} (inside : t ∈ d.view.transfers) :
    t.statement ∈ d.statements ∧ t.statement.kind ∈ RuleKind.forbidSecrets.cited := by
  rw [View.transfers, List.mem_mergeSort, List.mem_append] at inside
  rcases inside with add | copy
  · obtain ⟨member, kind⟩ := Located.of_mem_select picks_add add
    exact ⟨member, by simp [kind, RuleKind.cited]⟩
  · obtain ⟨member, kind⟩ := Located.of_mem_select picks_copy copy
    exact ⟨member, by simp [kind, RuleKind.cited]⟩

theorem isEvident_of_mem_bases {f : Finding} {b : Located BaseImage} (listed : b ∈ d.view.bases)
    (text : f.statement = some b.text) (kind : .base ∈ f.kind.cited)
    (other : f.kind ≠ .forbidRoot) : f.IsEvident d.statements := by
  obtain ⟨member, same⟩ := Located.of_mem_select picks_base listed
  exact .of_mem member text (by rwa [same]) other

theorem isEvident_of_mem_rootFindings {f : Finding} (reported : f ∈ rootFindings d.view) :
    f.kind = .forbidRoot ∧ f.IsEvident d.statements := by
  rw [rootFindings] at reported
  split at reported
  · next no_user =>
    obtain rfl := List.mem_singleton.1 reported
    exact ⟨rfl, .noUser rfl rfl
      ((Located.select_eq_nil_iff picks_user).1 (List.getLast?_eq_none_iff.1 no_user))⟩
  · next u last =>
    split at reported
    · obtain rfl := List.mem_singleton.1 reported
      obtain ⟨before, after, split, kind, none_later⟩ := Located.split_of_getLast? picks_user last
      exact ⟨rfl, .cited split rfl (kind ▸ List.mem_cons_self) fun _ => none_later⟩
    · cases reported

/-- A finding of a rule has the kind of the rule, and rests on the file that is judged. -/
theorem Rule.isEvident {r : Rule} {f : Finding} (reported : f ∈ r.findings d.view) :
    f.kind = r.kind ∧ f.IsEvident d.statements := by
  cases r with
  | enforceRegistry allowed =>
    obtain ⟨b, listed, rfl⟩ := exists_of_mem_registryFindings reported
    exact ⟨rfl, isEvident_of_mem_bases listed rfl List.mem_cons_self nofun⟩
  | forbidTags tags =>
    obtain ⟨b, listed, tag, rfl⟩ := exists_of_mem_tagFindings reported
    exact ⟨rfl, isEvident_of_mem_bases listed rfl List.mem_cons_self nofun⟩
  | forbidInsecureRegistries =>
    obtain ⟨b, listed, rfl⟩ := exists_of_mem_insecureFindings reported
    exact ⟨rfl, isEvident_of_mem_bases listed rfl List.mem_cons_self nofun⟩
  | forbidRoot => exact isEvident_of_mem_rootFindings reported
  | forbidPrivilegedPorts =>
    obtain ⟨e, listed, n, rfl⟩ := exists_of_mem_portFindings reported
    obtain ⟨member, same⟩ := Located.of_mem_select picks_expose listed
    exact ⟨rfl, .of_mem member rfl (same ▸ List.mem_cons_self) nofun⟩
  | forbidPackages packages =>
    rcases exists_of_mem_packageFindings reported with ⟨run, listed, p, rfl⟩ | ⟨s, inside, p, rfl⟩
    · rw [Dockerfile.lastStageRuns_view (Dockerfile.isLastStage_afterLastBase _)] at listed
      obtain ⟨member, same⟩ := Located.of_mem_select picks_run listed
      exact ⟨rfl, .of_mem (Dockerfile.mem_of_mem_afterLastBase member) rfl
        (same ▸ List.mem_cons_self) nofun⟩
    · obtain ⟨member, kind⟩ := of_mem_commandStatements inside
      exact ⟨rfl, .of_mem member rfl kind nofun⟩
  | forbidSecrets secrets allowed =>
    obtain ⟨t, inside, p, rfl⟩ := exists_of_mem_secretFindings reported
    obtain ⟨member, kind⟩ := of_mem_transfers inside
    exact ⟨rfl, .of_mem member rfl kind nofun⟩

end

/-- An audit gives the findings of all rules in their order and fails if there is one; each finding
is of the kind of a rule that reports it and rests on the file. -/
theorem Policy.evaluate_isEvident (p : Policy) (d : Dockerfile) :
    (p.evaluate d).findings = (p.rules.map fun r => r.findings d.view).flatten ∧
      ((p.evaluate d).verdict = .fail ↔ (p.evaluate d).findings ≠ []) ∧
      ∀ f ∈ (p.evaluate d).findings,
        (∃ r ∈ p.rules, f ∈ r.findings d.view ∧ f.kind = r.kind) ∧ f.IsEvident d.statements := by
  refine ⟨List.flatMap_def, AuditResult.verdict_eq_fail_iff, fun f reported => ?_⟩
  obtain ⟨r, enabled, found⟩ := List.mem_flatMap.1 reported
  obtain ⟨kind, evident⟩ := Rule.isEvident found
  exact ⟨⟨r, enabled, found, kind⟩, evident⟩

/-- Of two users the last one is blamed, and a file without any is blamed for none. -/
theorem evaluate_isEvident_of_users :
    let base : Statement := ⟨.base ⟨⟨none, "a".toList, none, none⟩, none, none⟩, 1, "FROM a".toList⟩
    let app : Statement := ⟨.user ⟨"app".toList, none⟩, 2, "USER app".toList⟩
    let root : Statement := ⟨.user ⟨"root".toList, none⟩, 3, "USER root".toList⟩
    let policy : Policy := ⟨[.forbidTags ["latest".toList], .forbidRoot]⟩
    let tag := tagFinding ["latest".toList] "latest".toList
      ⟨⟨⟨none, "a".toList, none, none⟩, none, none⟩, base⟩
    let blamed := rootFinding ⟨⟨"root".toList, none⟩, root⟩
    (policy.evaluate ⟨none, [base, app, root]⟩).findings = [tag, blamed] ∧
      blamed.IsEvident [base, app, root] ∧ noUserFinding.IsEvident [base] := by
  intro base app root policy tag blamed
  have users : (policy.evaluate ⟨none, [base, app, root]⟩).findings = [tag, blamed] := rfl
  have reported : blamed ∈ (policy.evaluate ⟨none, [base, app, root]⟩).findings :=
    users ▸ List.mem_cons_of_mem tag List.mem_cons_self
  have no_user : noUserFinding ∈ (policy.evaluate ⟨none, [base]⟩).findings :=
    List.mem_cons_of_mem _ List.mem_cons_self
  exact ⟨users, ((Policy.evaluate_isEvident policy _).2.2 blamed reported).2,
    ((Policy.evaluate_isEvident policy _).2.2 noUserFinding no_user).2⟩

end ImageAudit
