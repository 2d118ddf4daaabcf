import ImageAudit.Dockerfile.View
import Mathlib.Data.List.Forall2
import Mathlib.Data.List.TakeWhile

/-!
# Parts of a view

What a view lists of one kind depends on the statements of this kind alone, and the RUN statements
of the last stage on those after the last FROM.

* `Located.select_filter`: statements of other kinds may be left out.
* `Located.shows_select`: what is listed of one kind are its statements with what they carry.
* `Dockerfile.IsLastStage` says what the last stage is, `Dockerfile.afterLastBase_eq_iff` that it is
  found.
-/

namespace ImageAudit

variable {ss stage : List Statement} {keep : Statement → Bool}

/-! ## One kind -/

/-- Whether `pick` picks what the instructions of a kind carry. -/
def Instruction.Picks {α : Type} (pick : Instruction → Option α) (k : Kind) : Prop :=
  ∀ i, (pick i).isSome = (i.kind == k)

namespace Instruction

theorem picks_base : Picks base? .base := by
  intro i
  cases i <;> rfl

theorem picks_user : Picks user? .user := by
  intro i
  cases i <;> rfl

theorem picks_run : Picks run? .run := by
  intro i
  cases i <;> rfl

theorem picks_cmd : Picks cmd? .cmd := by
  intro i
  cases i <;> rfl

theorem picks_entrypoint : Picks entrypoint? .entrypoint := by
  intro i
  cases i <;> rfl

theorem picks_env : Picks env? .env := by
  intro i
  cases i <;> rfl

theorem picks_expose : Picks expose? .expose := by
  intro i
  cases i <;> rfl

theorem picks_add : Picks add? .add := by
  intro i
  cases i <;> rfl

theorem picks_copy : Picks copy? .copy := by
  intro i
  cases i <;> rfl

end Instruction

/-- Statements of other kinds may be left out. -/
theorem Located.select_filter {α : Type} {pick : Instruction → Option α} {k : Kind}
    (picks : Instruction.Picks pick k) (kept : ∀ s : Statement, s.kind = k → keep s = true)
    (ss : List Statement) : select pick (ss.filter keep) = select pick ss := by
  rw [select, select, List.filterMap_filter]
  congr 1
  funext s
  split
  · rfl
  · next left =>
    have other : (pick s.instruction).isSome = false := by
      rw [picks]
      exact beq_false_of_ne fun same => left (kept s same)
    rw [Option.isSome_eq_false_iff, Option.isNone_iff_eq_none] at other
    rw [other, Option.map_none]

section

variable {α : Type} {pick : Instruction → Option α} {k : Kind} {l : Located α}

theorem Instruction.Picks.kind_eq (picks : Picks pick k) {i : Instruction} {x : α}
    (picked : pick i = some x) : i.kind = k := by
  have := picks i
  rw [picked, Option.isSome_some] at this
  exact (beq_iff_eq.1 this.symm)

/-- What is listed stands in a statement of the kind. -/
theorem Located.of_mem_select (picks : Instruction.Picks pick k) (inside : l ∈ select pick ss) :
    l.statement ∈ ss ∧ l.statement.kind = k := by
  obtain ⟨s, member, here⟩ := List.mem_filterMap.1 inside
  obtain ⟨x, picked, rfl⟩ := Option.map_eq_some_iff.1 here
  exact ⟨member, picks.kind_eq picked⟩

theorem Located.select_eq_nil_iff (picks : Instruction.Picks pick k) :
    select pick ss = [] ↔ ∀ s ∈ ss, s.kind ≠ k := by
  rw [select, List.filterMap_eq_nil_iff]
  refine forall₂_congr fun s _ => ?_
  rw [Option.map_eq_none_iff, ← Option.isNone_iff_eq_none, ← Option.isSome_eq_false_iff, picks]
  exact beq_eq_false_iff_ne

/-- What is listed last stands in the last statement of the kind. -/
theorem Located.split_of_getLast? (picks : Instruction.Picks pick k)
    (last : (select pick ss).getLast? = some l) :
    ∃ before after, ss = before ++ l.statement :: after ∧ l.statement.kind = k ∧
      ∀ later ∈ after, later.kind ≠ k := by
  obtain ⟨others, whole⟩ := List.getLast?_eq_some_iff.1 last
  obtain ⟨before, rest, rfl, -, here⟩ := List.filterMap_eq_append_iff.1 whole
  obtain ⟨passed, s, after, rfl, -, found, none_after⟩ := List.filterMap_eq_cons_iff.1 here
  obtain ⟨x, picked, rfl⟩ := Option.map_eq_some_iff.1 found
  exact ⟨before ++ passed, after, by simp, picks.kind_eq picked,
    (select_eq_nil_iff picks).1 none_after⟩

end

/-- Whether instructions of a kind are made of what `pick` picks, and nothing else. -/
structure Instruction.Carries {α : Type} (pick : Instruction → Option α) (make : α → Instruction)
    (k : Kind) : Prop where
  picks : Picks pick k
  made : ∀ i x, pick i = some x → i = make x

/-- Whether a list shows statements one by one, each with what it carries. -/
def Located.Shows {α : Type} (make : α → Instruction) (ls : List (Located α))
    (ss : List Statement) : Prop :=
  List.Forall₂ (fun l s => l.statement = s ∧ s.instruction = make l.item) ls ss

section

variable {α : Type} {pick : Instruction → Option α} {make : α → Instruction} {k : Kind}

theorem Located.shows_select (carries : Instruction.Carries pick make k) (ss : List Statement) :
    Shows make (select pick ss) (ss.filter fun s => s.kind == k) := by
  induction ss with
  | nil => exact .nil
  | cons s ss ih =>
    have same : (pick s.instruction).isSome = (s.kind == k) := carries.picks s.instruction
    cases picked : pick s.instruction with
    | none =>
      rw [picked, Option.isSome_none] at same
      rw [select, List.filterMap_cons_none (by rw [picked]; rfl),
        List.filter_cons, ← same, if_neg Bool.false_ne_true]
      exact ih
    | some x =>
      rw [picked, Option.isSome_some] at same
      rw [select, List.filterMap_cons_some (b := ⟨x, s⟩) (by rw [picked]; rfl),
        List.filter_cons, ← same, if_pos rfl]
      exact .cons ⟨rfl, carries.made _ x picked⟩ ih

theorem Located.Shows.map_statement {ls : List (Located α)} (shows : Shows make ls ss) :
    ls.map (·.statement) = ss := by
  induction shows with
  | nil => rfl
  | cons here _ ih => rw [List.map_cons, ih, here.1]

theorem Located.Shows.instruction_eq {ls : List (Located α)} (shows : Shows make ls ss)
    {l : Located α} (inside : l ∈ ls) : l.statement.instruction = make l.item := by
  induction shows with
  | nil => cases inside
  | cons here _ ih =>
    rcases List.mem_cons.1 inside with rfl | inside
    · rw [here.1, here.2]
    · exact ih inside

end

namespace Instruction

theorem carries_base : Carries base? base .base := by
  refine ⟨picks_base, fun i x picked => ?_⟩
  cases i <;> cases picked
  rfl

theorem carries_user : Carries user? user .user := by
  refine ⟨picks_user, fun i x picked => ?_⟩
  cases i <;> cases picked
  rfl

theorem carries_run : Carries run? run .run := by
  refine ⟨picks_run, fun i x picked => ?_⟩
  cases i <;> cases picked
  rfl

theorem carries_cmd : Carries cmd? cmd .cmd := by
  refine ⟨picks_cmd, fun i x picked => ?_⟩
  cases i <;> cases picked
  rfl

theorem carries_entrypoint : Carries entrypoint? entrypoint .entrypoint := by
  refine ⟨picks_entrypoint, fun i x picked => ?_⟩
  cases i <;> cases picked
  rfl

theorem carries_label : Carries label? label .label := by
  refine ⟨fun i => by cases i <;> rfl, fun i x picked => ?_⟩
  cases i <;> cases picked
  rfl

theorem carries_env : Carries env? env .env := by
  refine ⟨picks_env, fun i x picked => ?_⟩
  cases i <;> cases picked
  rfl

theorem carries_expose : Carries expose? expose .expose := by
  refine ⟨picks_expose, fun i x picked => ?_⟩
  cases i <;> cases picked
  rfl

theorem carries_maintainer : Carries maintainer? maintainer .maintainer := by
  refine ⟨fun i => by cases i <;> rfl, fun i x picked => ?_⟩
  cases i <;> cases picked
  rfl

theorem carries_add : Carries add? add .add := by
  refine ⟨picks_add, fun i x picked => ?_⟩
  cases i <;> cases picked
  rfl

theorem carries_copy : Carries copy? copy .copy := by
  refine ⟨picks_copy, fun i x picked => ?_⟩
  cases i <;> cases picked
  rfl

theorem carries_workdir : Carries workdir? workdir .workdir := by
  refine ⟨fun i => by cases i <;> rfl, fun i x picked => ?_⟩
  cases i <;> cases picked
  rfl

theorem carries_volume : Carries volume? volume .volume := by
  refine ⟨fun i => by cases i <;> rfl, fun i x picked => ?_⟩
  cases i <;> cases picked
  rfl

theorem carries_shell : Carries shell? shell .shell := by
  refine ⟨fun i => by cases i <;> rfl, fun i x picked => ?_⟩
  cases i <;> cases picked
  rfl

theorem carries_stopSignal : Carries stopSignal? stopSignal .stopSignal := by
  refine ⟨fun i => by cases i <;> rfl, fun i x picked => ?_⟩
  cases i <;> cases picked
  rfl

end Instruction

/-! ## The last stage -/

namespace Dockerfile

theorem mem_of_mem_afterLastBase {s : Statement} (inside : s ∈ afterLastBase ss) : s ∈ ss :=
  List.mem_reverse.1 ((List.takeWhile_sublist _).subset (List.mem_reverse.1 inside))

/-- Whether a stretch of statements is the last stage: no stage begins in it, and it follows the
beginning of a stage or is all there is. -/
def IsLastStage (ss stage : List Statement) : Prop :=
  (∀ s ∈ stage, s.kind ≠ .base) ∧
    (ss = stage ∨ ∃ before b, b.kind = .base ∧ ss = before ++ b :: stage)

theorem isLastStage_afterLastBase (ss : List Statement) : IsLastStage ss (afterLastBase ss) := by
  constructor
  · intro s inside
    have := List.mem_takeWhile_imp (List.mem_reverse.1 inside)
    simpa [beginsStage] using this
  · -- What is left of the statements in reverse begins with the last FROM.
    have whole := List.takeWhile_append_dropWhile (p := fun s => !beginsStage s) (l := ss.reverse)
    rw [← List.reverse_inj, List.reverse_append, List.reverse_reverse] at whole
    cases before : ss.reverse.dropWhile fun s => !beginsStage s with
    | nil =>
      rw [before] at whole
      exact .inl whole.symm
    | cons b rest =>
      have begins := List.head?_dropWhile_not (fun s => !beginsStage s) ss.reverse
      rw [before] at begins whole
      refine .inr ⟨rest.reverse, b, by simpa [beginsStage] using begins, whole.symm.trans ?_⟩
      rw [List.reverse_cons, List.append_assoc]
      rfl

theorem afterLastBase_eq_of_isLastStage (h : IsLastStage ss stage) : afterLastBase ss = stage := by
  have taken : stage.reverse.takeWhile (fun s => !beginsStage s) = stage.reverse := by
    rw [List.takeWhile_eq_self_iff]
    intro s inside
    simpa [beginsStage] using h.1 s (List.mem_reverse.1 inside)
  rcases h.2 with rfl | ⟨before, b, begins, rfl⟩
  · rw [afterLastBase, taken, List.reverse_reverse]
  · have stop : (fun s => !beginsStage s) b = false := by simp [beginsStage, begins]
    rw [afterLastBase, List.reverse_append, List.reverse_cons, List.append_assoc,
      List.takeWhile_append_of_pos, List.singleton_append, List.takeWhile_cons_of_neg]
    · simp
    · simp [stop]
    · exact List.takeWhile_eq_self_iff.1 taken

theorem afterLastBase_eq_iff : afterLastBase ss = stage ↔ IsLastStage ss stage := by
  constructor
  · rintro rfl
    exact isLastStage_afterLastBase ss
  · exact afterLastBase_eq_of_isLastStage

theorem lastStageRuns_view {d : Dockerfile} (h : IsLastStage d.statements stage) :
    d.view.lastStageRuns = Located.select Instruction.run? stage := by
  rw [← afterLastBase_eq_of_isLastStage h]
  exact Located.select_filter Instruction.picks_run (fun s same => by simp [same]) _

theorem takeWhile_filter {α : Type} {p keep : α → Bool} (kept : ∀ x, p x = false → keep x = true)
    (xs : List α) : (xs.filter keep).takeWhile p = (xs.takeWhile p).filter keep := by
  induction xs with
  | nil => rfl
  | cons x xs ih =>
    -- Only an element that goes on may be left out; the first that stops is kept.
    cases going : p x with
    | true =>
      rw [List.takeWhile_cons_of_pos going, List.filter_cons, List.filter_cons]
      split
      · rw [List.takeWhile_cons_of_pos going, ih]
      · exact ih
    | false => simp [going, kept x going]

/-- Statements that begin no stage may be left out before the last stage is looked for. -/
theorem afterLastBase_filter (kept : ∀ s : Statement, s.kind = .base → keep s = true)
    (ss : List Statement) : afterLastBase (ss.filter keep) = (afterLastBase ss).filter keep := by
  rw [afterLastBase, afterLastBase, ← List.filter_reverse, takeWhile_filter, List.filter_reverse]
  intro s begins
  exact kept s (by simpa [beginsStage] using begins)

end Dockerfile

end ImageAudit
