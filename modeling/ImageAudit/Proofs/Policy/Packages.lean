import ImageAudit.Policy.Rule
import ImageAudit.Proofs.Dockerfile.View
import ImageAudit.Proofs.Instruction.Keyword
import ImageAudit.Proofs.Statement.Reading

/-!
# What the package rule reports

As soon as the last stage calls a package manager, the rule looks at its RUN statements alone. A
package is meant to count as installed unless it is removed later. The rule takes it for removed if
any call removes it, so a package that is installed again after its removal escapes.

* `findings_eq_of_stageRuns_eq`: the RUN statements of the last stage decide the findings, and each
  finding cites the first of them that installs the package.
* `isReported_iff` says what is reported in fact.
* `isReported_iff_isNetInstalled_iff` says for which packages this is what is meant.
-/

namespace ImageAudit

open Text Shell Dockerfile

/-! ## Calls of a stage -/

/-- Whether a command does this to a package. -/
def RunCommand.does (action : PackageAction) (package : Text) (c : RunCommand) : Bool :=
  c.calls.any (PackageCall.does action package)

/-- The commands of the RUN statements in a stage, each with the text of its statement. -/
def stageRuns (stage : List Statement) : List (RunCommand × Text) :=
  stage.filterMap fun s => s.instruction.run?.map fun c => (c, s.text)

/-- The calls of package managers in the RUN statements of a stage, each with the text of its
statement. -/
def citedCalls (stage : List Statement) : List (PackageCall × Text) :=
  (stageRuns stage).flatMap fun run => run.1.calls.map fun call => (call, run.2)

/-- The calls of package managers in the RUN statements of a stage, in order. -/
def stageCalls (stage : List Statement) : List PackageCall := (citedCalls stage).map (·.1)

theorem stageRuns_eq_map_select (stage : List Statement) :
    stageRuns stage =
      (Located.select Instruction.run? stage).map fun run => (run.item, run.text) := by
  rw [stageRuns, Located.select, List.map_filterMap]
  congr 1
  funext s
  rw [Option.map_map]
  rfl

theorem map_packageEvents (stage : List Statement) :
    (packageEvents (Located.select Instruction.run? stage)).map (fun e => (e.1, e.2.text)) =
      citedCalls stage := by
  rw [citedCalls, stageRuns_eq_map_select, packageEvents, List.map_flatMap, List.flatMap_map]
  congr 1
  funext run
  rw [List.map_map]
  rfl

theorem map_fst_packageEvents (stage : List Statement) :
    (packageEvents (Located.select Instruction.run? stage)).map (·.1) = stageCalls stage := by
  rw [stageCalls, ← map_packageEvents, List.map_map]
  rfl

/-! ## The statement that installs a package -/

section

variable {package : Text} {events : List PackageEvent} {runs : List (Located RunCommand)}

/-- The text that is cited for a package: that of the first call which installs it, unless some call
removes it. -/
def citation? (package : Text) (calls : List (PackageCall × Text)) : Option Text :=
  if calls.any fun c => c.1.does .remove package then none
  else (calls.find? fun c => c.1.does .install package).map (·.2)

theorem map_text_installer? (events : List PackageEvent) (package : Text) :
    (installer? events package).map Located.text =
      citation? package (events.map fun e => (e.1, e.2.text)) := by
  rw [citation?, List.any_map, List.find?_map, installer?]
  change _ = if events.any (fun e => e.1.does .remove package) then none else
    Option.map _ (Option.map _ (events.find? fun e => e.1.does .install package))
  split
  · rfl
  · rw [Option.map_map, Option.map_map]
    rfl

theorem isSome_installer?_iff :
    (installer? events package).isSome = true ↔
      (∃ call ∈ events.map (·.1), call.does .install package = true) ∧
        ∀ call ∈ events.map (·.1), call.does .remove package = false := by
  rw [installer?]
  split
  · next removed =>
    obtain ⟨e, inside, does⟩ := List.any_eq_true.1 removed
    refine iff_of_false (by simp) fun kept => ?_
    have : e.1.does .remove package = false := kept.2 e.1 (List.mem_map_of_mem inside)
    exact Bool.false_ne_true (this.symm.trans does)
  · next kept =>
    rw [Option.isSome_map, List.find?_isSome, and_iff_left]
    · simp only [List.mem_map, exists_exists_and_eq_and]
    · intro call inside
      obtain ⟨e, is_event, rfl⟩ := List.mem_map.1 inside
      exact Bool.eq_false_iff.2 fun does => kept (List.any_eq_true.2 ⟨e, is_event, does⟩)

/-- The installing statement is the first that installs the package. -/
theorem split_of_installer? {run : Located RunCommand}
    (found : installer? (packageEvents runs) package = some run) :
    ∃ before after, runs = before ++ run :: after ∧ run.item.does .install package = true ∧
      ∀ earlier ∈ before, earlier.item.does .install package = false := by
  rw [installer?] at found
  split at found
  · cases found
  · -- The first event is in the first statement that has one.
    rw [Option.map_eq_some_iff, packageEvents, List.find?_flatMap] at found
    obtain ⟨e, first, rfl⟩ := found
    obtain ⟨before, run, after, split, here, none_before⟩ := List.findSome?_eq_some_iff.1 first
    obtain ⟨call, inside, rfl⟩ := List.mem_map.1 (List.mem_of_find?_eq_some here)
    have installs : call.does .install package = true := by simpa using List.find?_some here
    refine ⟨before, after, split, List.any_eq_true.2 ⟨call, inside, installs⟩, ?_⟩
    intro earlier inside_before
    have none_here := none_before earlier inside_before
    rw [List.find?_map, Option.map_eq_none_iff, List.find?_eq_none] at none_here
    rw [RunCommand.does, List.any_eq_false]
    exact none_here

end

/-! ## Findings -/

/-- Whether a finding says that a package is installed. -/
def Finding.NamesInstalled (package : Text) (f : Finding) : Prop :=
  f.kind = .forbidPackages ∧
    f.details = "Forbidden package \x22".toList ++ package ++ "\x22 is installed.".toList

theorem namesInstalled_installFinding_iff {p q : Text} {run : Located RunCommand} :
    (installFinding q run).NamesInstalled p ↔ q = p := by
  rw [Finding.NamesInstalled, installFinding]
  simp only [true_and, List.append_cancel_right_eq, List.append_cancel_left_eq]

theorem map_installFinding_congr {a b : Option (Located RunCommand)} (package : Text)
    (same : a.map Located.text = b.map Located.text) :
    a.map (installFinding package) = b.map (installFinding package) := by
  cases a with
  | none =>
    rw [Option.map_none, eq_comm, Option.map_eq_none_iff] at same
    rw [same]
  | some run =>
    rw [Option.map_some, eq_comm, Option.map_eq_some_iff] at same
    obtain ⟨other, rfl, same⟩ := same
    rw [Option.map_some, Option.map_some, installFinding, installFinding, same]

section

variable {packages : List Text} {package : Text} {d d₁ d₂ : Dockerfile}
  {stage stage₁ stage₂ : List Statement}

/-- If the last stage calls a package manager, the findings are those on its calls. -/
theorem findings_forbidPackages (last : IsLastStage d.statements stage)
    (called : stageCalls stage ≠ []) :
    (Rule.forbidPackages packages).findings d.view = packages.filterMap fun p =>
      (installer? (packageEvents (Located.select Instruction.run? stage)) p).map
        (installFinding p) := by
  have some_event : packageEvents (Located.select Instruction.run? stage) ≠ [] := by
    rw [← map_fst_packageEvents] at called
    exact fun none => called (by rw [none, List.map_nil])
  change packageFindings packages d.view = _
  rw [packageFindings, lastStageRuns_view last]
  exact if_neg fun empty => some_event (List.isEmpty_iff.1 empty)

/-- The RUN statements of the last stage alone decide the findings as soon as one of them calls a
package manager; a finding cites the first of them that installs its package. -/
theorem findings_eq_of_stageRuns_eq (packages : List Text)
    (last₁ : IsLastStage d₁.statements stage₁) (last₂ : IsLastStage d₂.statements stage₂)
    (same : stageRuns stage₁ = stageRuns stage₂) (called : stageCalls stage₁ ≠ []) :
    (Rule.forbidPackages packages).findings d₁.view =
        (Rule.forbidPackages packages).findings d₂.view ∧
      ∀ f ∈ (Rule.forbidPackages packages).findings d₁.view, ∃ p ∈ packages,
        f.NamesInstalled p ∧ ∃ before command text after,
          stageRuns stage₁ = before ++ (command, text) :: after ∧
            command.does .install p = true ∧
            (∀ earlier ∈ before, earlier.1.does .install p = false) ∧ f.statement = some text := by
  have called₂ : stageCalls stage₂ ≠ [] := by rwa [stageCalls, citedCalls, ← same]
  rw [findings_forbidPackages last₁ called, findings_forbidPackages last₂ called₂]
  constructor
  · -- Findings show no more of a statement than its text.
    congr 1
    funext p
    refine map_installFinding_congr p ?_
    rw [map_text_installer?, map_text_installer?, map_packageEvents, map_packageEvents, citedCalls,
      citedCalls, same]
  · intro f reported
    obtain ⟨p, forbidden, found⟩ := List.mem_filterMap.1 reported
    obtain ⟨run, installs, rfl⟩ := Option.map_eq_some_iff.1 found
    obtain ⟨before, after, split, here, none_before⟩ := split_of_installer? installs
    refine ⟨p, forbidden, namesInstalled_installFinding_iff.2 rfl,
      before.map fun r => (r.item, r.text), run.item, run.text,
      after.map fun r => (r.item, r.text), ?_, here, ?_, rfl⟩
    · rw [stageRuns_eq_map_select, split, List.map_append, List.map_cons]
    · intro earlier inside
      obtain ⟨r, inside_before, rfl⟩ := List.mem_map.1 inside
      exact none_before r inside_before

end

/-- The statements before the last stage, and those in it that run nothing, do not matter; neither
does a line whose quotation marks are not closed. -/
theorem findings_eq_of_other_stage :
    let quote : Statement := ⟨.run ⟨.shell "echo \x22".toList, []⟩, 2, "RUN echo \x22".toList⟩
    let add : Statement := ⟨.run ⟨.shell "apk add curl".toList, []⟩, 5, "RUN apk add curl".toList⟩
    let build : Statement :=
      ⟨.run ⟨.shell "apk add wget".toList, []⟩, 1, "RUN apk add wget".toList⟩
    let base : Statement := ⟨.base ⟨⟨none, "a".toList, none, none⟩, none, none⟩, 3, "FROM a".toList⟩
    let user : Statement := ⟨.user ⟨"app".toList, none⟩, 4, "USER app".toList⟩
    let staged : Dockerfile := ⟨none, [build, base, quote, user, add]⟩
    let bare : Dockerfile := ⟨none, [quote, add]⟩
    let rule := Rule.forbidPackages ["wget".toList, "curl".toList]
    rule.findings staged.view = rule.findings bare.view ∧ rule.findings bare.view =
      [installFinding "curl".toList ⟨⟨.shell "apk add curl".toList, []⟩, add⟩] := by
  intro quote add build base user staged bare rule
  have last₁ : IsLastStage staged.statements [quote, user, add] :=
    ⟨by decide, .inr ⟨[build], base, rfl, rfl⟩⟩
  have last₂ : IsLastStage bare.statements [quote, add] := ⟨by decide, .inl rfl⟩
  exact ⟨(findings_eq_of_stageRuns_eq _ last₁ last₂ rfl (by decide)).1, by decide⟩

/-! ## What is meant to be reported -/

/-- Whether calls leave a package installed: one installs it, and none after that removes it. -/
def IsNetInstalled (package : Text) (calls : List PackageCall) : Prop :=
  ∃ before call after, calls = before ++ call :: after ∧ call.does .install package = true ∧
    ∀ later ∈ after, later.does .remove package = false

/-- Whether calls leave a package installed that one of them has removed before. -/
def IsReinstalled (package : Text) (calls : List PackageCall) : Prop :=
  ∃ before removal rest, calls = before ++ removal :: rest ∧
    removal.does .remove package = true ∧ IsNetInstalled package rest

section

variable {package : Text} {call : PackageCall} {calls : List PackageCall}

theorem isNetInstalled_cons :
    IsNetInstalled package (call :: calls) ↔
      (call.does .install package = true ∧
        ∀ later ∈ calls, later.does .remove package = false) ∨ IsNetInstalled package calls := by
  constructor
  · rintro ⟨before, c, after, split, installs, kept⟩
    cases before with
    | nil =>
      obtain ⟨rfl, rfl⟩ := List.cons.inj split
      exact .inl ⟨installs, kept⟩
    | cons first before =>
      obtain ⟨rfl, rfl⟩ := List.cons.inj split
      exact .inr ⟨before, c, after, rfl, installs, kept⟩
  · rintro (⟨installs, kept⟩ | ⟨before, c, after, rfl, installs, kept⟩)
    · exact ⟨[], call, calls, rfl, installs, kept⟩
    · exact ⟨call :: before, c, after, rfl, installs, kept⟩

theorem Shell.PackageCall.does_remove_eq_false (installs : call.does .install package = true) :
    call.does .remove package = false := by
  simp only [PackageCall.does, Bool.and_eq_true, beq_iff_eq] at installs
  simp [PackageCall.does, installs.1]

/-- What calls leave installed is never removed, or is reinstalled. -/
theorem isNetInstalled_iff :
    IsNetInstalled package calls ↔
      ((∃ call ∈ calls, call.does .install package = true) ∧
        ∀ call ∈ calls, call.does .remove package = false) ∨ IsReinstalled package calls := by
  constructor
  · -- A removal can only stand before the call that installs for good.
    rintro ⟨before, call, after, rfl, installs, kept⟩
    cases removed : before.any (PackageCall.does .remove package) with
    | false =>
      refine .inl ⟨⟨call, by simp, installs⟩, fun c inside => ?_⟩
      rcases List.mem_append.1 inside with earlier | here
      · simpa using List.any_eq_false.1 removed c earlier
      · rcases List.mem_cons.1 here with rfl | later
        · exact PackageCall.does_remove_eq_false installs
        · exact kept c later
    | true =>
      obtain ⟨removal, inside, removes⟩ := List.any_eq_true.1 removed
      obtain ⟨first, rest, rfl⟩ := List.append_of_mem inside
      exact .inr ⟨first, removal, rest ++ call :: after, by simp, removes,
        rest, call, after, rfl, installs, kept⟩
  · rintro (⟨⟨call, inside, installs⟩, kept⟩ | ⟨first, removal, rest, rfl, -, net⟩)
    · obtain ⟨before, after, rfl⟩ := List.append_of_mem inside
      exact ⟨before, call, after, rfl, installs, fun c later => kept c (by simp [later])⟩
    · obtain ⟨before, call, after, rfl, installs, kept⟩ := net
      exact ⟨first ++ removal :: before, call, after, by simp, installs, kept⟩

end

instance decidableIsNetInstalled (package : Text) :
    (calls : List PackageCall) → Decidable (IsNetInstalled package calls)
  | [] => isFalse fun ⟨before, _, _, split, _⟩ => by cases before <;> cases split
  | _ :: calls =>
    have := decidableIsNetInstalled package calls
    decidable_of_iff' _ isNetInstalled_cons

/-! ## What is reported -/

/-- Whether the package rule says of a file that a package is installed. -/
def IsReported (packages : List Text) (package : Text) (d : Dockerfile) : Prop :=
  ∃ f ∈ (Rule.forbidPackages packages).findings d.view, f.NamesInstalled package

section

variable {packages : List Text} {package : Text} {d : Dockerfile} {stage : List Statement}

/-- A package is reported if some call installs it and none removes it, be it before or after. -/
theorem isReported_iff (forbidden : package ∈ packages) (last : IsLastStage d.statements stage)
    (called : stageCalls stage ≠ []) :
    IsReported packages package d ↔
      (∃ call ∈ stageCalls stage, call.does .install package = true) ∧
        ∀ call ∈ stageCalls stage, call.does .remove package = false := by
  rw [← map_fst_packageEvents, ← isSome_installer?_iff, IsReported,
    findings_forbidPackages last called]
  constructor
  · rintro ⟨f, reported, names⟩
    obtain ⟨p, -, found⟩ := List.mem_filterMap.1 reported
    obtain ⟨run, installs, rfl⟩ := Option.map_eq_some_iff.1 found
    obtain rfl := namesInstalled_installFinding_iff.1 names
    rw [installs, Option.isSome_some]
  · intro installs
    obtain ⟨run, installs⟩ := Option.isSome_iff_exists.1 installs
    refine ⟨installFinding package run, List.mem_filterMap.2 ⟨package, forbidden, ?_⟩,
      namesInstalled_installFinding_iff.2 rfl⟩
    rw [installs, Option.map_some]

/-- Whatever the rule reports is left installed; it reports everything that is left installed
exactly if nothing of this is reinstalled. -/
theorem isReported_iff_isNetInstalled_iff (forbidden : package ∈ packages)
    (last : IsLastStage d.statements stage) (called : stageCalls stage ≠ []) :
    (IsReported packages package d → IsNetInstalled package (stageCalls stage)) ∧
      ((IsReported packages package d ↔ IsNetInstalled package (stageCalls stage)) ↔
        ¬ IsReinstalled package (stageCalls stage)) := by
  rw [isReported_iff forbidden last called, isNetInstalled_iff]
  refine ⟨.inl, fun agree reinstalled => ?_, fun never => (or_iff_left never).symm⟩
  -- A removal of what is reinstalled keeps it from being reported.
  obtain ⟨-, kept⟩ := agree.2 (.inr reinstalled)
  obtain ⟨before, removal, rest, split, removes, -⟩ := reinstalled
  have removal_kept := kept removal (by rw [split]; simp)
  exact Bool.false_ne_true (removal_kept.symm.trans removes)

end

theorem isReported_of_installed :
    let run : Statement := ⟨.run ⟨.shell "apt-get remove wget; apt-get install curl".toList, []⟩, 1,
      "RUN apt-get remove wget; apt-get install curl".toList⟩
    IsReported ["curl".toList] "curl".toList ⟨none, [run]⟩ := by
  intro run
  have last : IsLastStage [run] [run] := ⟨by decide, .inl rfl⟩
  have never : ¬ IsReinstalled "curl".toList (stageCalls [run]) := by
    rintro ⟨before, removal, rest, split, removes, -⟩
    have kept : ∀ call ∈ stageCalls [run], call.does .remove "curl".toList = false := by decide
    have removal_kept := kept removal (by rw [split]; simp)
    exact Bool.false_ne_true (removal_kept.symm.trans removes)
  exact ((isReported_iff_isNetInstalled_iff (d := ⟨none, [run]⟩) List.mem_cons_self last
    (by decide)).2.2 never).2 (by decide)

/-! ## A package that escapes -/

theorem Statement.read_run {n : Nat} {line body : Text} {arguments : Arguments}
    (h : Kind.run.body? line = some body) (unflagged : Instruction.runFlag? body = none)
    (read : Arguments.read? body = some arguments) :
    Statement.read ⟨n, line⟩ = .ok ⟨.run ⟨arguments, []⟩, n, line⟩ := by
  refine read_eq (Instruction.readLine?_eq h ?_)
  exact congrArg (Option.map _) (Instruction.readRun?_eq unflagged read)

/-- A package that is removed and then installed is not reported. -/
theorem reinstalled_unreported :
    ∃ d stage, ofText "FROM a\nRUN apt-get remove curl && apt-get install curl".toList = .ok d ∧
      IsLastStage d.statements stage ∧
      stageCalls stage = [⟨.aptGet, some .remove, ["curl".toList]⟩,
        ⟨.aptGet, some .install, ["curl".toList]⟩] ∧
      IsNetInstalled "curl".toList (stageCalls stage) ∧
      (Rule.forbidPackages ["curl".toList]).findings d.view = [] := by
  have lines : logicalLines (Layout.normalize
      "FROM a\nRUN apt-get remove curl && apt-get install curl".toList) =
      [⟨1, "FROM a".toList⟩, ⟨2, "RUN apt-get remove curl && apt-get install curl".toList⟩] := by
    decide
  have base : Statement.read ⟨1, "FROM a".toList⟩ =
      .ok ⟨.base ⟨⟨none, "a".toList, none, none⟩, none, none⟩, 1, "FROM a".toList⟩ := by decide
  have run : Statement.read ⟨2, "RUN apt-get remove curl && apt-get install curl".toList⟩ =
      .ok ⟨.run ⟨.shell "apt-get remove curl && apt-get install curl".toList, []⟩, 2,
        "RUN apt-get remove curl && apt-get install curl".toList⟩ :=
    Statement.read_run (by rfl) (by rfl) (by rfl)
  have nothing : Statement.readLines [] = .ok [] := rfl
  have read := Statement.readLines_cons base (Statement.readLines_cons run nothing)
  rw [← lines] at read
  exact ⟨_, _, (ofText_eq_ok_iff (d := ⟨none, _⟩)).2 ⟨rfl, read⟩, isLastStage_afterLastBase _,
    by decide, by decide, by decide⟩

end ImageAudit
