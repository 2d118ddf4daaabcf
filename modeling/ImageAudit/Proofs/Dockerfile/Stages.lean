import ImageAudit.Proofs.Dockerfile.View

/-!
# Stages

A FROM begins a stage, which runs up to the next FROM; what stands before the first one belongs to
none. The stages are found from the front, the statements of the last stage from the end.

* `Dockerfile.stages_eq_iff` says what the stages are.
* `Dockerfile.stages_eq_slices`: they are the slices between the places where a stage begins.
* `Dockerfile.stages_partition` adds that both ways lead to the same last stage.
-/

namespace ImageAudit.Dockerfile

variable {ss : List Statement}

/-- Whether a stretch of statements begins with a FROM and holds no other one. -/
def IsStage (stage : List Statement) : Prop :=
  ∃ b rest, stage = b :: rest ∧ b.kind = .base ∧ ∀ s ∈ rest, s.kind ≠ .base

/-- Whether stages make up all statements from the first FROM on. -/
structure AreStages (ss : List Statement) (stages : List (List Statement)) : Prop where
  flatten : stages.flatten = ss.dropWhile fun s => s.kind != .base
  each : ∀ stage ∈ stages, IsStage stage

/-! ## Splitting from the front -/

theorem splitStages_base {b : Statement} (begins : b.kind = .base) (ss : List Statement) :
    splitStages (b :: ss) = ([], (b :: (splitStages ss).1) :: (splitStages ss).2) := by
  simp [splitStages, beginsStage, begins]

theorem splitStages_other {s : Statement} (other : s.kind ≠ .base) (ss : List Statement) :
    splitStages (s :: ss) = (s :: (splitStages ss).1, (splitStages ss).2) := by
  simp [splitStages, beginsStage, other]

theorem splitStages_append {before : List Statement} (others : ∀ s ∈ before, s.kind ≠ .base)
    (ss : List Statement) :
    splitStages (before ++ ss) = (before ++ (splitStages ss).1, (splitStages ss).2) := by
  induction before with
  | nil => rfl
  | cons s before ih =>
    obtain ⟨other, others⟩ := List.forall_mem_cons.1 others
    rw [List.cons_append, splitStages_other other, ih others]
    rfl

theorem forall_mem_fst_splitStages (ss : List Statement) :
    ∀ s ∈ (splitStages ss).1, s.kind ≠ .base := by
  induction ss with
  | nil => exact List.forall_mem_nil _
  | cons s ss ih =>
    by_cases begins : s.kind = .base
    · rw [splitStages_base begins]
      exact List.forall_mem_nil _
    · rw [splitStages_other begins]
      exact List.forall_mem_cons.2 ⟨begins, ih⟩

theorem append_flatten_splitStages (ss : List Statement) :
    (splitStages ss).1 ++ (splitStages ss).2.flatten = ss := by
  induction ss with
  | nil => rfl
  | cons s ss ih =>
    by_cases begins : s.kind = .base
    · rw [splitStages_base begins, List.nil_append, List.flatten_cons, List.cons_append, ih]
    · rw [splitStages_other begins, List.cons_append, ih]

theorem areStages_splitStages (ss : List Statement) : AreStages ss (splitStages ss).2 := by
  induction ss with
  | nil => exact ⟨rfl, List.forall_mem_nil _⟩
  | cons s ss ih =>
    by_cases begins : s.kind = .base
    · -- Everything is kept: the new stage takes what stood before the first FROM of the rest.
      rw [splitStages_base begins]
      constructor
      · rw [List.flatten_cons, List.cons_append, append_flatten_splitStages,
          List.dropWhile_cons_of_neg (by simp [begins])]
      · exact List.forall_mem_cons.2
          ⟨⟨s, _, rfl, begins, forall_mem_fst_splitStages ss⟩, ih.each⟩
    · rw [splitStages_other begins]
      exact ⟨by rw [List.dropWhile_cons_of_pos (by simp [begins]), ih.flatten], ih.each⟩

theorem splitStages_flatten {stages : List (List Statement)}
    (each : ∀ stage ∈ stages, IsStage stage) : splitStages stages.flatten = ([], stages) := by
  induction stages with
  | nil => rfl
  | cons stage stages ih =>
    obtain ⟨⟨b, rest, rfl, begins, others⟩, later⟩ := List.forall_mem_cons.1 each
    rw [List.flatten_cons, List.cons_append, splitStages_base begins, splitStages_append others,
      ih later, List.append_nil]

theorem AreStages.splitStages_eq {stages : List (List Statement)} (parts : AreStages ss stages) :
    (splitStages ss).2 = stages := by
  have others : ∀ s ∈ ss.takeWhile fun s => s.kind != .base, s.kind ≠ .base := by
    intro s inside
    simpa using List.mem_takeWhile_imp inside
  have whole := List.takeWhile_append_dropWhile (p := fun s => s.kind != .base) (l := ss)
  rw [← parts.flatten] at whole
  rw [← whole, splitStages_append others, splitStages_flatten parts.each]

variable {d : Dockerfile}

/-- There is one way to part statements into stages. -/
theorem stages_eq_iff {stages : List (List Statement)} :
    d.stages = stages ↔ AreStages d.statements stages := by
  constructor
  · rintro rfl
    exact areStages_splitStages d.statements
  · exact AreStages.splitStages_eq

/-! ## Slices -/

/-- The places of the statements that begin a stage, numbered from `n` on. -/
def starts (n : Nat) (ss : List Statement) : List Nat :=
  ((ss.zipIdx n).filter fun p => beginsStage p.1).map (·.2)

/-- The slices of statements from each place up to the next one or to the end. -/
def slices (ss : List Statement) : List Nat → List (List Statement)
  | [] => []
  | start :: later => (ss.take (later.head?.getD ss.length)).drop start :: slices ss later

theorem starts_base {b : Statement} (begins : b.kind = .base) (n : Nat) (ss : List Statement) :
    starts n (b :: ss) = n :: starts (n + 1) ss := by
  simp [starts, beginsStage, begins]

theorem starts_other {s : Statement} (other : s.kind ≠ .base) (n : Nat) (ss : List Statement) :
    starts n (s :: ss) = starts (n + 1) ss := by
  simp [starts, beginsStage, other]

theorem head?_starts (n : Nat) (ss : List Statement) :
    (starts n ss).head?.getD (n + ss.length) = n + (splitStages ss).1.length := by
  induction ss generalizing n with
  | nil => rfl
  | cons s ss ih =>
    by_cases begins : s.kind = .base
    · rw [starts_base begins, splitStages_base begins]
      rfl
    · have next : n + (s :: ss).length = n + 1 + ss.length := by rw [List.length_cons]; omega
      rw [starts_other begins, splitStages_other begins, next, ih, List.length_cons]
      omega

theorem slices_starts (before ss : List Statement) :
    slices (before ++ ss) (starts before.length ss) = (splitStages ss).2 := by
  induction ss generalizing before with
  | nil => rfl
  | cons s ss ih =>
    have rest := ih (before ++ [s])
    rw [List.length_append, List.length_singleton, List.append_assoc, List.singleton_append] at rest
    by_cases begins : s.kind = .base
    · -- The slice from `s` on ends where what stands before the next stage ends.
      have stop := head?_starts (before.length + 1) ss
      have total : (before ++ s :: ss).length = before.length + 1 + ss.length := by
        rw [List.length_append, List.length_cons]
        omega
      have whole : before ++ s :: ss =
          (before ++ s :: (splitStages ss).1) ++ (splitStages ss).2.flatten := by
        rw [List.append_assoc, List.cons_append, append_flatten_splitStages]
      have sliced : (before ++ s :: ss).take (before.length + 1 + (splitStages ss).1.length) =
          before ++ s :: (splitStages ss).1 := by
        rw [whole]
        refine List.take_left' ?_
        rw [List.length_append, List.length_cons]
        omega
      rw [starts_base begins, splitStages_base begins, slices, rest, total, stop, sliced,
        List.drop_left]
    · rw [starts_other begins, splitStages_other begins, rest]

/-- The stages are the slices between the places where a stage begins. -/
theorem stages_eq_slices (d : Dockerfile) :
    d.stages = slices d.statements (starts 0 d.statements) :=
  (slices_starts [] d.statements).symm

/-! ## The last stage -/

theorem stages_eq_nil_iff : d.stages = [] ↔ ∀ s ∈ d.statements, s.kind ≠ .base := by
  rw [stages_eq_iff]
  constructor
  · intro none s inside
    have dropped := List.dropWhile_eq_nil_iff.1 none.flatten.symm s inside
    simpa using dropped
  · intro others
    refine ⟨(List.dropWhile_eq_nil_iff.2 fun s inside => ?_).symm, List.forall_mem_nil _⟩
    simpa using others s inside

/-- What follows the FROM of the last stage is what is found from the end. -/
theorem isLastStage_of_getLast? {stage : List Statement} (last : d.stages.getLast? = some stage) :
    ∃ b rest, stage = b :: rest ∧ b.kind = .base ∧ IsLastStage d.statements rest := by
  obtain ⟨earlier, whole⟩ := List.getLast?_eq_some_iff.1 last
  have parts : AreStages d.statements d.stages := stages_eq_iff.1 rfl
  obtain ⟨b, rest, rfl, begins, others⟩ := parts.each stage (by simp [whole])
  refine ⟨b, rest, rfl, begins, others,
    .inr ⟨(splitStages d.statements).1 ++ earlier.flatten, b, begins, ?_⟩⟩
  calc
    d.statements = (splitStages d.statements).1 ++ d.stages.flatten :=
      (append_flatten_splitStages d.statements).symm
    _ = (splitStages d.statements).1 ++ earlier.flatten ++ b :: rest := by simp [whole]

theorem lastStageRuns_eq (d : Dockerfile) :
    d.lastStageRuns = (d.stages.getLast?.getD d.statements).filter fun s => s.kind == .run := by
  rw [lastStageRuns]
  cases last : d.stages.getLast? with
  | none =>
    have others := stages_eq_nil_iff.1 (List.getLast?_eq_none_iff.1 last)
    rw [afterLastBase_eq_of_isLastStage ⟨others, .inl rfl⟩]
    rfl
  | some stage =>
    obtain ⟨b, rest, rfl, begins, found⟩ := isLastStage_of_getLast? last
    rw [afterLastBase_eq_of_isLastStage found]
    -- The FROM itself is no RUN.
    simp [begins]

theorem shows_lastStageRuns (d : Dockerfile) :
    Located.Shows .run d.view.lastStageRuns d.lastStageRuns := by
  have runs_only : (d.lastStageRuns.filter fun s => s.kind == .run) = d.lastStageRuns := by
    simp [lastStageRuns]
  have shows := Located.shows_select Instruction.carries_run d.lastStageRuns
  rwa [runs_only] at shows

/-- The stages part the statements from the first FROM on, in one way only. The RUN statements of
the last stage are those that are found from the end; without any FROM they are those of the whole
file. The view lists them with their commands. -/
theorem stages_partition (d : Dockerfile) :
    (∀ stages, d.stages = stages ↔ AreStages d.statements stages) ∧
      (d.stages = [] ↔ ∀ s ∈ d.statements, s.kind ≠ .base) ∧
      d.lastStageRuns = (d.stages.getLast?.getD d.statements).filter (fun s => s.kind == .run) ∧
      Located.Shows .run d.view.lastStageRuns d.lastStageRuns :=
  ⟨fun _ => stages_eq_iff, stages_eq_nil_iff, lastStageRuns_eq d, shows_lastStageRuns d⟩

/-- An ARG before the first stage, and a last stage that holds nothing but its FROM. -/
theorem stages_partition_of_bare_stage :
    let arg : Statement := ⟨.arg "V".toList none, 1, "ARG V".toList⟩
    let first : Statement :=
      ⟨.base ⟨⟨none, "a".toList, none, none⟩, none, none⟩, 2, "FROM a".toList⟩
    let run : Statement := ⟨.run ⟨.shell "x".toList, []⟩, 3, "RUN x".toList⟩
    let second : Statement :=
      ⟨.base ⟨⟨none, "b".toList, none, none⟩, none, none⟩, 4, "FROM b".toList⟩
    let d : Dockerfile := ⟨none, [arg, first, run, second]⟩
    AreStages d.statements [[first, run], [second]] ∧ d.lastStageRuns = [] := by
  intro arg first run second d
  obtain ⟨parts, -, last, -⟩ := stages_partition d
  have stages : d.stages = [[first, run], [second]] := rfl
  refine ⟨(parts _).1 stages, ?_⟩
  rw [last, stages]
  rfl

end ImageAudit.Dockerfile
