import ImageAudit.Proofs.Dockerfile.Order
import ImageAudit.Proofs.Pattern.Occurrence
import ImageAudit.Proofs.Policy.Packages

/-!
# Mentions of packages

Where the last stage calls no package manager, the package rule looks at all commands of the file
and reports each name that one of them has as a whole word.

* `InLineOrder.unique`: the order of lines, and of kinds on one line, leaves no choice.
* `forbidPackages_matches_whole_words`: names are matched as they stand, whatever is in them, and
  what matches is reported command by command.
-/

namespace ImageAudit

open Text Shell Dockerfile

/-! ## The order of lines -/

/-- Whether statements are those of some kinds in the order of their lines: on one line kind by
kind, and of one kind as they come. -/
structure InLineOrder (kinds : List Kind) (ss ordered : List Statement) : Prop where
  ascending : ordered.Pairwise fun a b => a.line ≤ b.line
  on_line : ∀ n, ordered.filter (fun s => s.line == n) =
    kinds.flatMap fun k => ss.filter fun s => s.kind == k && s.line == n

/-- Sorting by line leaves the statements of one line as they are. -/
theorem filter_mergeSort_line (xs : List Statement) (n : Nat) :
    (xs.mergeSort fun a b => a.line ≤ b.line).filter (fun s => s.line == n) =
      xs.filter fun s => s.line == n := by
  have same_line : (xs.filter fun s => s.line == n).Pairwise
      fun a b => decide (a.line ≤ b.line) := by
    refine List.pairwise_of_forall_mem_list fun a left b right => ?_
    simp only [List.mem_filter, beq_iff_eq] at left right
    simp [left.2, right.2]
  -- Sorting is stable: what is in order before stays a sublist.
  have kept := (List.sublist_mergeSort (fun a b c => by simpa using Nat.le_trans)
    (fun a b => by simpa using Nat.le_total _ _) same_line List.filter_sublist).filter
      fun s => s.line == n
  rw [List.filter_filter] at kept
  simp only [Bool.and_self] at kept
  have perm := (List.mergeSort_perm xs fun a b => a.line ≤ b.line).filter fun s => s.line == n
  exact (kept.eq_of_length perm.length_eq.symm).symm

theorem inLineOrder_mergeSort (kinds : List Kind) (ss : List Statement) :
    InLineOrder kinds ss ((kinds.flatMap fun k => ss.filter fun s => s.kind == k).mergeSort
      fun a b => a.line ≤ b.line) where
  ascending := pairwise_mergeSort_line _
  on_line n := by
    rw [filter_mergeSort_line, List.filter_flatMap]
    simp only [List.filter_filter, Bool.and_comm]

/-- The first statement of a list in ascending order stands at the line where others begin. -/
theorem line_le_of_filter_line_eq {x y : Statement} {xs ys : List Statement}
    (ascending : (y :: ys).Pairwise fun a b => a.line ≤ b.line)
    (same : ∀ n, (x :: xs).filter (fun s => s.line == n) =
      (y :: ys).filter fun s => s.line == n) : y.line ≤ x.line := by
  have inside : x ∈ (y :: ys).filter fun s => s.line == x.line := by
    rw [← same]
    simp
  rcases List.mem_cons.1 (List.mem_filter.1 inside).1 with rfl | later
  · exact Nat.le_refl _
  · exact List.rel_of_pairwise_cons ascending later

/-- Lists in ascending order are the same if they have the same statements on each line. -/
theorem eq_of_filter_line_eq {xs ys : List Statement}
    (left : xs.Pairwise fun a b => a.line ≤ b.line) (right : ys.Pairwise fun a b => a.line ≤ b.line)
    (same : ∀ n, xs.filter (fun s => s.line == n) = ys.filter fun s => s.line == n) : xs = ys := by
  induction xs generalizing ys with
  | nil =>
    cases ys with
    | nil => rfl
    | cons y ys => simpa using same y.line
  | cons x xs ih =>
    cases ys with
    | nil => simpa using same x.line
    | cons y ys =>
      have line_eq : x.line = y.line := Nat.le_antisymm
        (line_le_of_filter_line_eq left fun n => (same n).symm)
        (line_le_of_filter_line_eq right same)
      have first := same x.line
      rw [List.filter_cons_of_pos (by simp), List.filter_cons_of_pos (by simp [line_eq])] at first
      obtain ⟨rfl, -⟩ := List.cons.inj first
      rw [ih left.of_cons right.of_cons fun n => ?_]
      have here := same n
      rw [List.filter_cons, List.filter_cons] at here
      split at here
      · exact (List.cons.inj here).2
      · exact here

theorem InLineOrder.unique {kinds : List Kind} {ss xs ys : List Statement}
    (left : InLineOrder kinds ss xs) (right : InLineOrder kinds ss ys) : xs = ys :=
  eq_of_filter_line_eq left.ascending right.ascending fun n =>
    (left.on_line n).trans (right.on_line n).symm

/-! ## Mentions -/

namespace Dockerfile

variable {d : Dockerfile} {stage : List Statement}

theorem inLineOrder_commandStatements (d : Dockerfile) :
    InLineOrder [.run, .cmd, .entrypoint] d.statements (commandStatements d.view) := by
  have runs := (shows_view d).runs.map_statement
  have cmds := (shows_view d).cmds.map_statement
  have entrypoints := (shows_view d).entrypoints.map_statement
  rw [group_eq_filter] at runs cmds entrypoints
  have ordered := inLineOrder_mergeSort [.run, .cmd, .entrypoint] d.statements
  rw [commandStatements, runs, cmds, entrypoints]
  simpa using ordered

/-- If the last stage calls no package manager, the findings are those on all commands. -/
theorem findings_forbidPackages_of_uncalled (packages : List Text)
    (last : IsLastStage d.statements stage) (uncalled : stageCalls stage = []) :
    (Rule.forbidPackages packages).findings d.view =
      (commandStatements d.view).flatMap fun s =>
        (packages.filter fun p => Pattern.IsWholeWord p s.text).map fun p =>
          mentionFinding p s := by
  have no_event : packageEvents (Located.select Instruction.run? stage) = [] := by
    rw [← map_fst_packageEvents] at uncalled
    exact List.map_eq_nil_iff.1 uncalled
  have matched (p s : Text) :
      (Pattern.wholeWord p).occursIn s = decide (Pattern.IsWholeWord p s) := by
    rw [Bool.eq_iff_iff, decide_eq_true_iff]
    exact Pattern.occursIn_wholeWord_iff
  change packageFindings packages d.view = _
  rw [packageFindings, lastStageRuns_view last, no_event]
  simp only [mentionFindings, matched]
  rfl

end Dockerfile

/-- Whatever is in the name of a package, its pattern is matched by the texts that have the name as
a whole word, and these alone. If the last stage calls no package manager, each command of the file
is reported for each forbidden package that it has so, by line and then in the order of the list. -/
theorem forbidPackages_matches_whole_words :
    (∀ p, (∃ pattern, Pattern.read? (Pattern.wholeWordText p) = some pattern ∧
        ∀ s, pattern.occursIn s = true ↔ Pattern.IsWholeWord p s) ∧
      ∀ q, SourcePattern.ofText? (Pattern.wholeWordText p) = some q →
        ∀ s, q.pattern.occursIn s = true ↔ Pattern.IsWholeWord p s) ∧
    ∀ packages (d : Dockerfile) stage, IsLastStage d.statements stage → stageCalls stage = [] →
      (∃ commands, InLineOrder [.run, .cmd, .entrypoint] d.statements commands) ∧
        ∀ commands, InLineOrder [.run, .cmd, .entrypoint] d.statements commands →
          (Rule.forbidPackages packages).findings d.view = commands.flatMap fun s =>
            (packages.filter fun p => Pattern.IsWholeWord p s.text).map fun p =>
              mentionFinding p s := by
  refine ⟨fun p => ⟨Pattern.exists_read?_wholeWordText p, fun q compiled s =>
    SourcePattern.occursIn_iff_of_wholeWordText compiled⟩, fun packages d stage last uncalled => ?_⟩
  have ordered := inLineOrder_commandStatements d
  refine ⟨⟨_, ordered⟩, fun commands others => ?_⟩
  rw [others.unique ordered]
  exact findings_forbidPackages_of_uncalled packages last uncalled

/-- Names of characters that mean something in patterns, and commands whose lines do not ascend. -/
theorem forbidPackages_matches_symbols :
    let cmd : Statement := ⟨.cmd (.shell "c++x".toList), 2, "CMD c++x".toList⟩
    let run : Statement := ⟨.run ⟨.shell "c+++ a.b".toList, []⟩, 2, "RUN c+++ a.b".toList⟩
    let entrypoint : Statement :=
      ⟨.entrypoint (.shell "aab a.b".toList), 1, "ENTRYPOINT aab a.b".toList⟩
    let d : Dockerfile := ⟨none, [cmd, run, entrypoint]⟩
    (∃ q, SourcePattern.ofText? (Pattern.wholeWordText "c++".toList) = some q ∧
        q.pattern.occursIn run.text = true ∧ q.pattern.occursIn cmd.text = false) ∧
      IsLastStage d.statements d.statements ∧ stageCalls d.statements = [] ∧
      InLineOrder [.run, .cmd, .entrypoint] d.statements [entrypoint, run, cmd] ∧
      (Rule.forbidPackages ["c++".toList, "a.b".toList]).findings d.view =
        [mentionFinding "a.b".toList entrypoint, mentionFinding "c++".toList run,
          mentionFinding "a.b".toList run] := by
  intro cmd run entrypoint d
  obtain ⟨matchers, mentions⟩ := forbidPackages_matches_whole_words
  have last : IsLastStage d.statements d.statements := ⟨by decide, .inl rfl⟩
  have uncalled : stageCalls d.statements = [] := by decide
  have ordered : InLineOrder [.run, .cmd, .entrypoint] d.statements [entrypoint, run, cmd] := by
    refine ⟨by decide, fun n => ?_⟩
    by_cases first : 1 = n
    · subst first
      rfl
    · by_cases second : 2 = n
      · subst second
        rfl
      · simp [d, cmd, run, entrypoint, first, second]
  obtain ⟨q, compiled, -⟩ := SourcePattern.exists_of_wholeWordText (t := "c++".toList) (by decide)
  have whole := (matchers "c++".toList).2 q compiled
  refine ⟨⟨q, compiled, (whole _).2 (by decide), ?_⟩, last, uncalled, ordered, ?_⟩
  · rw [Bool.eq_false_iff, ne_eq, whole]
    decide
  · rw [(mentions _ d _ last uncalled).2 _ ordered]
    decide

end ImageAudit
