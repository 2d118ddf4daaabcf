import ImageAudit.Dockerfile.Attempt
import ImageAudit.Proofs.Instruction.Attempt

/-!
# Where reading a Dockerfile breaks off

Reading a text breaks off if it does so at the first line that is no instruction; whether it would
at a later line does not matter.

* `Statement.BreaksOff`: the texts at which reading breaks off.
* `Statement.attemptAll_eq`, `Dockerfile.attemptFile_eq`: what comes of reading any text.
-/

namespace ImageAudit

open Text

namespace Statement

/-- Reading breaks off at one of these lines, and all lines before that are instructions. -/
def BreaksOffIn (ls : List LogicalLine) : Prop :=
  ∃ before l after, ls = before ++ l :: after ∧
    (∀ m ∈ before, (Instruction.readLine? m.text).isSome) ∧ Instruction.BreaksOff l.text

/-- Reading breaks off at one of the lines of a text, and all lines before that are instructions. -/
def BreaksOff (t : Text) : Prop := BreaksOffIn (logicalLines t)

variable {l : LogicalLine} {ls : List LogicalLine}

theorem attempt_of_breaksOff (broken : Instruction.BreaksOff l.text) : attempt l = none := by
  rcases Instruction.attemptLine_eq l.text with ⟨-, attempted⟩ | ⟨whole, -⟩
  · rw [attempt, attempted]
  · exact absurd broken whole

theorem attempt_of_not_breaksOff (whole : ¬ Instruction.BreaksOff l.text) :
    attempt l = some (read l) := by
  rcases Instruction.attemptLine_eq l.text with ⟨broken, -⟩ | ⟨-, attempted⟩
  · exact absurd broken whole
  · rw [attempt, attempted, read, readLine]
    cases Instruction.readLine? l.text <;> rfl

theorem breaksOffIn_cons_iff :
    BreaksOffIn (l :: ls) ↔
      Instruction.BreaksOff l.text ∨ (Instruction.readLine? l.text).isSome ∧ BreaksOffIn ls := by
  constructor
  · rintro ⟨before, m, after, split, readable, broken⟩
    cases before with
    | nil =>
      cases split
      exact .inl broken
    | cons n before =>
      cases split
      rw [List.forall_mem_cons] at readable
      exact .inr ⟨readable.1, before, m, after, rfl, readable.2, broken⟩
  · rintro (broken | ⟨first, before, m, after, rfl, readable, broken⟩)
    · exact ⟨[], l, ls, rfl, nofun, broken⟩
    · exact ⟨l :: before, m, after, rfl, List.forall_mem_cons.2 ⟨first, readable⟩, broken⟩

theorem attemptLines_eq (ls : List LogicalLine) :
    BreaksOffIn ls ∧ attemptLines ls = none ∨
      ¬ BreaksOffIn ls ∧ attemptLines ls = some (readLines ls) := by
  induction ls with
  | nil =>
    refine .inr ⟨?_, rfl⟩
    rintro ⟨before, l, after, split, -⟩
    exact absurd split.symm (by simp)
  | cons l ls ih =>
    rw [breaksOffIn_cons_iff]
    by_cases broken : Instruction.BreaksOff l.text
    · exact .inl ⟨.inl broken, by rw [attemptLines, attempt_of_breaksOff broken]⟩
    · rw [attemptLines, readLines, attempt_of_not_breaksOff broken]
      cases first : read l with
      | error e =>
        have unread : Instruction.readLine? l.text = none := by
          cases found : Instruction.readLine? l.text with
          | none => rfl
          | some i =>
            rw [read_eq found] at first
            cases first
        refine .inr ⟨?_, rfl⟩
        rintro (here | ⟨readable, -⟩)
        · exact broken here
        · rw [unread] at readable
          cases readable
      | ok s =>
        have readable : (Instruction.readLine? l.text).isSome := by
          rw [readLine?_of_read first]
          rfl
        rcases ih with ⟨later, attempted⟩ | ⟨whole, attempted⟩
        · exact .inl ⟨.inr ⟨readable, later⟩, by simp only [attempted, Option.map_none]⟩
        · refine .inr ⟨?_, ?_⟩
          · rintro (here | ⟨-, later⟩)
            · exact broken here
            · exact whole later
          · simp only [attempted, Option.map_some]
            cases readLines ls <;> rfl

/-- Reading a text breaks off, or comes to its statements or to its error. -/
theorem attemptAll_eq (t : Text) :
    BreaksOff t ∧ attemptAll t = none ∨ ¬ BreaksOff t ∧ attemptAll t = some (readAll t) :=
  attemptLines_eq (logicalLines t)

end Statement

namespace Dockerfile

theorem attemptText_eq (t : Text) :
    Statement.BreaksOff (Layout.normalize t) ∧ attemptText t = none ∨
      ¬ Statement.BreaksOff (Layout.normalize t) ∧ attemptText t = some (ofText t) := by
  rw [attemptText, ofText]
  rcases Statement.attemptAll_eq (Layout.normalize t) with ⟨broken, read⟩ | ⟨whole, read⟩
  · exact .inl ⟨broken, by rw [read]; rfl⟩
  · rw [read]
    refine .inr ⟨whole, ?_⟩
    cases Statement.readAll (Layout.normalize t) <;> rfl

theorem attemptFile_eq (path t : Text) :
    Statement.BreaksOff (Layout.normalize t) ∧ attemptFile path t = none ∨
      ¬ Statement.BreaksOff (Layout.normalize t) ∧ attemptFile path t = some (ofFile path t) := by
  rw [attemptFile, ofFile]
  rcases Statement.attemptAll_eq (Layout.normalize t) with ⟨broken, read⟩ | ⟨whole, read⟩
  · have filled : (Layout.normalize t).isEmpty = false := by
      cases laid : Layout.normalize t with
      | nil =>
        rw [laid] at read
        cases read
      | cons c r => rfl
    exact .inl ⟨broken, by rw [filled, read]; rfl⟩
  · refine .inr ⟨whole, ?_⟩
    rw [read]
    split
    · rfl
    · cases Statement.readAll (Layout.normalize t) <;> rfl

end Dockerfile

end ImageAudit
