import ImageAudit.Policy.Rule
import ImageAudit.Proofs.Dockerfile.Groups

/-!
# Source order

A view keeps the statements of each kind apart. Where statements of several kinds are wanted in
their order, they are sorted by line, and this is the order they have in the file: reading counts
the lines of a text and never takes one twice.

* `isAscending_logicalLinesFrom`: what the lines of logical lines are.
* `Dockerfile.readAll_source_order`: transfers and commands come in the order of the file.
-/

namespace ImageAudit

open Text

/-! ## The lines of logical lines -/

/-- Whether lines ascend, from `lo` on and below `hi`. -/
structure IsAscending (lo hi : Nat) (lines : List Nat) : Prop where
  pairwise : lines.Pairwise (· < ·)
  bounds : ∀ n ∈ lines, lo ≤ n ∧ n < hi

namespace IsAscending

variable {lo mid hi : Nat} {ms ns : List Nat}

theorem append (first : IsAscending lo mid ms) (second : IsAscending mid hi ns) (le : lo ≤ mid)
    (le_hi : mid ≤ hi) : IsAscending lo hi (ms ++ ns) := by
  constructor
  · refine List.pairwise_append.2 ⟨first.pairwise, second.pairwise, fun m left n right => ?_⟩
    exact Nat.lt_of_lt_of_le (first.bounds m left).2 (second.bounds n right).1
  · intro n inside
    rcases List.mem_append.1 inside with left | right
    · have := first.bounds n left
      omega
    · have := second.bounds n right
      omega

end IsAscending

theorem isAscending_finish {p : LogicalLine} {n : Nat} (earlier : p.line < n) :
    IsAscending p.line n (p.finish.map LogicalLine.line) := by
  rw [LogicalLine.finish_eq]
  split
  · exact ⟨.nil, List.forall_mem_nil _⟩
  · exact ⟨List.pairwise_singleton _ _, by simpa using earlier⟩

/-- From line `n` on, logical lines begin at lines that ascend; one that is pending began before. -/
theorem isAscending_logicalLinesFrom (ls : List Text) (n : Nat) (s : Option LogicalLine)
    (earlier : ∀ p ∈ s, p.line < n) :
    IsAscending ((s.map LogicalLine.line).getD n) (n + ls.length)
      ((logicalLinesFrom n s ls).map LogicalLine.line) := by
  induction ls generalizing n s with
  | nil =>
    cases s with
    | none => exact ⟨.nil, List.forall_mem_nil _⟩
    | some p => exact isAscending_finish (earlier p rfl)
  | cons l ls ih =>
    have shifted : n + (l :: ls).length = n + 1 + ls.length := by
      rw [List.length_cons]
      omega
    -- Each step takes one physical line. It leaves a line pending that has begun by now, or none;
    -- then what is complete lies below the lines to come.
    have open_line (m : Nat) (text : Text) (begun : m < n + 1) :=
      ih (n + 1) (some ⟨m, text⟩) (by rintro p ⟨⟩; exact begun)
    have next := ih (n + 1) none nofun
    have complete (p : LogicalLine) (begun : p.line < n + 1) :
        IsAscending p.line (n + 1 + ls.length)
          ((p.finish ++ logicalLinesFrom (n + 1) none ls).map LogicalLine.line) := by
      rw [List.map_append]
      exact (isAscending_finish begun).append next (Nat.le_of_lt begun) (Nat.le_add_right _ _)
    rw [shifted]
    cases s with
    | none =>
      rw [logicalLinesFrom]
      split
      · have here : IsAscending n (n + 1) [n] := ⟨List.pairwise_singleton _ _, by simp⟩
        exact here.append next (Nat.le_succ n) (Nat.le_add_right _ _)
      · split
        · next head _ => exact open_line n (head ++ [' ']) (Nat.lt_succ_self n)
        · exact complete ⟨n, trim l⟩ (Nat.lt_succ_self n)
    | some p =>
      have begun : p.line < n + 1 := Nat.lt_succ_of_lt (earlier p rfl)
      rw [logicalLinesFrom]
      split
      · exact open_line p.line p.text begun
      · split
        · next head _ => exact open_line p.line (p.text ++ (head ++ [' '])) begun
        · exact complete ⟨p.line, p.text ++ trim l⟩ begun

/-- Statements that have been read stand at ascending lines of the text. -/
theorem Statement.isAscending_readAll {t : Text} {ss : List Statement} (read : readAll t = .ok ss) :
    IsAscending 1 ((lines t).length + 1) (ss.map line) := by
  rw [map_line_of_readLines read, Nat.add_comm]
  exact isAscending_logicalLinesFrom (lines t) 1 none nofun

section

variable {t : Text} {ss : List Statement} {s : Statement}

theorem Statement.line_mem_bounds (read : readAll t = .ok ss) (inside : s ∈ ss) :
    1 ≤ s.line ∧ s.line ≤ (lines t).length := by
  have := (isAscending_readAll read).bounds s.line (List.mem_map_of_mem inside)
  omega

/-- No line number is cut off at 32 bits, unless the number of all lines is. -/
theorem Statement.toNat_toUInt32_line (read : readAll t = .ok ss)
    (short : (lines t).length < UInt32.size) (inside : s ∈ ss) : s.line.toUInt32.toNat = s.line :=
  UInt32.toNat_ofNat_of_lt' (Nat.lt_of_le_of_lt (line_mem_bounds read inside).2 short)

end

/-! ## Sorting by line -/

theorem pairwise_mergeSort_line (xs : List Statement) :
    (xs.mergeSort fun a b => a.line ≤ b.line).Pairwise fun a b => a.line ≤ b.line := by
  have sorted : (xs.mergeSort fun a b => decide (a.line ≤ b.line)).Pairwise
      fun a b => decide (a.line ≤ b.line) :=
    List.pairwise_mergeSort (fun a b c => by simpa using Nat.le_trans)
      (fun a b => by simpa using Nat.le_total _ _) xs
  simpa using sorted

/-- Where all lines are different, sorting by line gives the order of the lines. -/
theorem mergeSort_line_eq {xs ss : List Statement} (perm : xs.Perm ss)
    (ascending : (ss.map (·.line)).Pairwise (· < ·)) :
    xs.mergeSort (fun a b => a.line ≤ b.line) = ss := by
  have same := (List.mergeSort_perm xs fun a b => a.line ≤ b.line).trans perm
  have distinct : (ss.map (·.line)).Nodup := ascending.imp Nat.ne_of_lt
  refine List.Perm.eq_of_pairwise ?_ (pairwise_mergeSort_line xs)
    ((List.pairwise_map.1 ascending).imp Nat.le_of_lt) same
  intro a b left right le ge
  exact List.inj_on_of_nodup_map distinct (same.subset left) right (Nat.le_antisymm le ge)

/-- Statements of several kinds, kind by kind, are sorted into the order they have among all. -/
theorem mergeSort_flatMap_filter_kind (kinds : List Kind) (distinct : kinds.Nodup)
    {ss : List Statement} (ascending : (ss.map (·.line)).Pairwise (· < ·)) :
    (kinds.flatMap fun k => ss.filter fun s => s.kind == k).mergeSort (fun a b => a.line ≤ b.line) =
      ss.filter fun s => kinds.contains s.kind :=
  mergeSort_line_eq (flatMap_filter_kind_perm distinct ss)
    (ascending.sublist (List.filter_sublist.map _))

namespace Dockerfile

variable {d : Dockerfile}

theorem map_statement_transfers (ascending : (d.statements.map (·.line)).Pairwise (· < ·)) :
    d.view.transfers.map (·.statement) =
      d.statements.filter fun s => [Kind.add, .copy].contains s.kind := by
  have adds := (shows_view d).adds.map_statement
  have copies := (shows_view d).copies.map_statement
  rw [group_eq_filter] at adds copies
  have sorted := mergeSort_flatMap_filter_kind [.add, .copy] (by decide) ascending
  have mapped := List.map_mergeSort (f := fun t : Located Transfer => t.statement)
    (r := fun a b => decide (a.line ≤ b.line)) (s := fun a b => decide (a.line ≤ b.line))
    (l := d.view.adds ++ d.view.copies) fun _ _ _ _ => rfl
  rw [View.transfers, mapped, List.map_append, adds, copies]
  simpa using sorted

theorem instruction_of_mem_transfers {t : Located Transfer} (inside : t ∈ d.view.transfers) :
    t.statement.instruction = .add t.item ∨ t.statement.instruction = .copy t.item := by
  rw [View.transfers, List.mem_mergeSort, List.mem_append] at inside
  exact inside.imp (shows_view d).adds.instruction_eq (shows_view d).copies.instruction_eq

theorem commandStatements_view (ascending : (d.statements.map (·.line)).Pairwise (· < ·)) :
    commandStatements d.view =
      d.statements.filter fun s => [Kind.run, .cmd, .entrypoint].contains s.kind := by
  have runs := (shows_view d).runs.map_statement
  have cmds := (shows_view d).cmds.map_statement
  have entrypoints := (shows_view d).entrypoints.map_statement
  rw [group_eq_filter] at runs cmds entrypoints
  have sorted :=
    mergeSort_flatMap_filter_kind [.run, .cmd, .entrypoint] (by decide) ascending
  rw [commandStatements, runs, cmds, entrypoints]
  simpa using sorted

/-- Whether what is sorted by line comes in the order of the file: transfers, and the statements
that findings on packages point at where no call of a package manager is found. -/
structure KeepsOrder (d : Dockerfile) : Prop where
  transfers : d.view.transfers.map (·.statement) =
    d.statements.filter fun s => [Kind.add, .copy].contains s.kind
  carried : ∀ t ∈ d.view.transfers,
    t.statement.instruction = .add t.item ∨ t.statement.instruction = .copy t.item
  mentions : ∀ packages, packageEvents d.view.lastStageRuns = [] →
    (Rule.forbidPackages packages).findings d.view =
      (d.statements.filter fun s => [Kind.run, .cmd, .entrypoint].contains s.kind).flatMap fun s =>
        (packages.filter fun p => (Pattern.wholeWord p).occursIn s.text).map fun p =>
          mentionFinding p s

theorem keepsOrder_of_ascending (ascending : (d.statements.map (·.line)).Pairwise (· < ·)) :
    d.KeepsOrder where
  transfers := map_statement_transfers ascending
  carried _ inside := instruction_of_mem_transfers inside
  mentions packages uncalled := by
    change packageFindings packages d.view = _
    rw [packageFindings, uncalled, ← commandStatements_view ascending]
    rfl

theorem keepsOrder_of_readAll {t : Text} (read : Statement.readAll t = .ok d.statements) :
    d.KeepsOrder :=
  keepsOrder_of_ascending (Statement.isAscending_readAll read).pairwise

/-- The statements that are read from a text stand at ascending lines, counted from one up to the
number of its lines, and so does what is sorted by these lines in every Dockerfile that is read. A
line number fits into 32 bits where the number of all lines does. -/
theorem readAll_source_order :
    (∀ t ss, Statement.readAll t = .ok ss →
        (ss.map (·.line)).Pairwise (· < ·) ∧
          (∀ s ∈ ss, 1 ≤ s.line ∧ s.line ≤ (lines t).length) ∧
          ((lines t).length < UInt32.size → ∀ s ∈ ss, s.line.toUInt32.toNat = s.line)) ∧
      (∀ t d, ofText t = .ok d → d.KeepsOrder) ∧
      ∀ path t d, ofFile path t = .ok d → d.KeepsOrder := by
  refine ⟨fun t ss read => ?_, fun t d accepted => ?_, fun path t d accepted => ?_⟩
  · exact ⟨(Statement.isAscending_readAll read).pairwise,
      fun s => Statement.line_mem_bounds read,
      fun short s => Statement.toNat_toUInt32_line read short⟩
  · exact keepsOrder_of_readAll (ofText_eq_ok_iff.1 accepted).2
  · exact keepsOrder_of_readAll (readAll_of_ofFile accepted)

/-- Kinds that come the other way round than they are put together, and in the text that is read
directly a comment within a continued line. -/
theorem readAll_source_order_of_mixed_kinds :
    let continued := "COPY a \\\n#\n b\nCMD c\nRUN c".toList
    let plain := "COPY a b\nCMD c\nADD d e\nRUN c".toList
    let copy : Statement := ⟨.copy ⟨["a".toList], "b".toList, .empty⟩, 1, "COPY a b".toList⟩
    let cmd : Statement := ⟨.cmd (.shell "c".toList), 2, "CMD c".toList⟩
    let add : Statement := ⟨.add ⟨["d".toList], "e".toList, .empty⟩, 3, "ADD d e".toList⟩
    let run : Statement := ⟨.run ⟨.shell "c".toList, []⟩, 4, "RUN c".toList⟩
    let d : Dockerfile := ⟨none, [copy, cmd, add, run]⟩
    (∃ ss, Statement.readAll continued = .ok ss ∧ ss.map (·.line) = [1, 4, 5] ∧
        (∀ s ∈ ss, s.line ≤ (lines continued).length) ∧
        ∀ s ∈ ss, s.line.toUInt32.toNat = s.line) ∧
      ofText plain = .ok d ∧ d.view.transfers.map (·.statement) = [copy, add] ∧
      (Rule.forbidPackages ["c".toList]).findings d.view =
        [mentionFinding "c".toList cmd, mentionFinding "c".toList run] ∧
      ∃ filed, ofFile "f".toList plain = .ok filed ∧ filed.KeepsOrder := by
  intro continued plain copy cmd add run d
  have read : Statement.readAll continued =
      .ok [copy, { cmd with line := 4 }, { run with line := 5 }] := by decide +kernel
  have accepted : ofText plain = .ok d := by decide +kernel
  have filed : ofFile "f".toList plain = .ok { d with path := some "f".toList } := by
    decide +kernel
  obtain ⟨ofReading, ofText, ofFile⟩ := readAll_source_order
  obtain ⟨-, bounds, fits⟩ := ofReading continued _ read
  have keeps := ofText plain d accepted
  exact ⟨⟨_, read, rfl, fun s inside => (bounds s inside).2, fits (by decide)⟩, accepted,
    keeps.transfers, keeps.mentions ["c".toList] (by decide), _, filed, ofFile _ _ _ filed⟩

end Dockerfile

end ImageAudit
