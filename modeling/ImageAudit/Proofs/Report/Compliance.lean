import ImageAudit.Report.Statistics
import Mathlib.Algebra.Order.Round
import Mathlib.Data.Rat.Floor

/-!
# The grade of a batch

A batch is graded by the share of its files that pass, rounded to hundredths of a percent. Rounding
hides one failing file in twenty thousand, which the grade then passes over.

* `share_eq_round`: shares are rounded to the nearest hundredth, halves upwards.
* `Compliance.ofShare_share_eq_perfect_iff`: what the best grade comes to in numbers of files.
* `Summary.perfect_iff_all_pass_iff`: when the best grade says that all files pass.
-/

namespace ImageAudit

/-! ## Shares -/

theorem le_share_iff {part total n : Nat} (filled : 0 < total) :
    n ≤ share part total ↔ n * (2 * total) ≤ 2 * (10000 * part) + total := by
  rw [share, if_neg (Nat.ne_of_gt filled), Nat.le_div_iff_mul_le (by omega)]

/-- A share is the exact one, rounded to the nearest hundredth of a percent and halves upwards. -/
theorem share_eq_round (part total : Nat) :
    (share part total : Int) = round ((10000 * part : Rat) / total) := by
  rcases Nat.eq_zero_or_pos total with rfl | filled
  · simp [share]
  · have half : (10000 * part : Rat) / total + 1 / 2 =
        ((2 * (10000 * part) + total : Nat) : Rat) / ((2 * total : Nat) : Rat) := by
      have : (total : Rat) ≠ 0 := by exact_mod_cast Nat.ne_of_gt filled
      push_cast
      field_simp
    rw [round_eq, half, Rat.floor_natCast_div_natCast, share, if_neg (Nat.ne_of_gt filled),
      Int.natCast_div]

/-! ## Grades -/

namespace Compliance

theorem ofShare_eq_perfect_iff {n : Nat} : ofShare n = perfect ↔ 10000 ≤ n := by
  rw [ofShare]
  split_ifs <;> simp <;> omega

/-- The best grade is given if at most one file in twenty thousand fails. -/
theorem ofShare_share_eq_perfect_iff {passed failed : Nat} (audited : 0 < passed + failed) :
    ofShare (share passed (passed + failed)) = perfect ↔ 20000 * failed ≤ passed + failed := by
  rw [ofShare_eq_perfect_iff, le_share_iff audited]
  omega

end Compliance

namespace BatchReport

/-- Every file that is audited passes or fails. -/
theorem passedCount_add_failedCount (b : BatchReport) :
    b.passedCount + b.failedCount = b.results.length := by
  rw [passedCount, failedCount, List.length_eq_countP_add_countP AuditResult.passed]
  simp only [Bool.not_eq_true, Bool.decide_eq_false]

theorem failedCount_eq_zero_iff {b : BatchReport} :
    b.failedCount = 0 ↔ ∀ r ∈ b.results, r.verdict = .pass := by
  rw [failedCount, List.countP_eq_zero]
  refine forall₂_congr fun r _ => ?_
  rw [AuditResult.verdict]
  cases r.passed <;> decide

end BatchReport

namespace Summary

theorem failed_ofBatch (b : BatchReport) : (ofBatch b).failed = b.failedCount := by
  have := b.passedCount_add_failedCount
  change b.results.length - b.passedCount = b.failedCount
  omega

theorem passed_add_failed (b : BatchReport) :
    (ofBatch b).passed + (ofBatch b).failed = (ofBatch b).total := by
  rw [failed_ofBatch]
  exact b.passedCount_add_failedCount

theorem successShare_ofBatch (b : BatchReport) :
    (ofBatch b).successShare = share (ofBatch b).passed (ofBatch b).total := rfl

theorem failedShare_ofBatch (b : BatchReport) :
    (ofBatch b).failedShare = share (ofBatch b).failed (ofBatch b).total := rfl

theorem compliance_eq_perfect_iff {b : BatchReport} (audited : b.results ≠ []) :
    (ofBatch b).compliance = .perfect ↔ 20000 * (ofBatch b).failed ≤ (ofBatch b).total := by
  have whole := passed_add_failed b
  have filled : 0 < (ofBatch b).total := List.length_pos_of_ne_nil audited
  rw [← whole] at filled ⊢
  rw [← Compliance.ofShare_share_eq_perfect_iff filled, whole]
  rfl

/-- Files that pass and files that fail make up all that are audited, and the share of those that
pass is rounded to hundredths of a percent. The best grade says that all files pass exactly if none
fails or more than one in twenty thousand does; below that, rounding makes up for the failing
ones. -/
theorem perfect_iff_all_pass_iff {b : BatchReport} (audited : b.results ≠ []) :
    (ofBatch b).passed + (ofBatch b).failed = (ofBatch b).total ∧
      ((ofBatch b).successShare : Int) =
        round ((10000 * (ofBatch b).passed : Rat) / (ofBatch b).total) ∧
      (((ofBatch b).compliance = .perfect ↔ ∀ r ∈ b.results, r.verdict = .pass) ↔
        (ofBatch b).failed = 0 ∨ (ofBatch b).total < 20000 * (ofBatch b).failed) := by
  refine ⟨passed_add_failed b, share_eq_round _ _, ?_⟩
  -- What is left compares the number of failing files with two bounds.
  rw [compliance_eq_perfect_iff audited, ← BatchReport.failedCount_eq_zero_iff, ← failed_ofBatch]
  omega

/-- Two files of three pass, and the grade does not hide the third. -/
theorem perfect_iff_all_pass_iff_of_three_files :
    let pass : AuditResult := ⟨"a".toList, none, []⟩
    let fail : AuditResult := ⟨"b".toList, none, [noUserFinding]⟩
    let b : BatchReport := ⟨[pass, fail, pass], []⟩
    b.results ≠ [] ∧ (ofBatch b).successShare = 6667 ∧
      ((ofBatch b).compliance = .perfect ↔ ∀ r ∈ b.results, r.verdict = .pass) := by
  intro pass fail b
  have audited : b.results ≠ [] := List.cons_ne_nil _ _
  exact ⟨audited, by decide +kernel, (perfect_iff_all_pass_iff audited).2.2.2 (.inr (by decide))⟩

/-- One file fails and `n` pass. -/
theorem counts_of_one_failure (n : Nat) {pass fail : AuditResult} (passes : pass.passed = true)
    (fails : fail.passed = false) :
    (ofBatch ⟨fail :: List.replicate n pass, []⟩).passed = n ∧
      (ofBatch ⟨fail :: List.replicate n pass, []⟩).failed = 1 ∧
      (ofBatch ⟨fail :: List.replicate n pass, []⟩).total = n + 1 := by
  have passed : (ofBatch ⟨fail :: List.replicate n pass, []⟩).passed = n := by
    change BatchReport.passedCount _ = n
    simp [BatchReport.passedCount, List.countP_replicate, passes, fails]
  have total : (ofBatch ⟨fail :: List.replicate n pass, []⟩).total = n + 1 := by
    simp [ofBatch]
  have whole := passed_add_failed ⟨fail :: List.replicate n pass, []⟩
  exact ⟨passed, by omega, total⟩

/-- Of twenty thousand files one fails, and the batch still gets the best grade: all of it is said
to pass, and a hundredth of a percent to fail. -/
theorem perfect_despite_failure :
    let pass : AuditResult := ⟨"a".toList, none, []⟩
    let fail : AuditResult := ⟨"b".toList, none, [noUserFinding]⟩
    let b : BatchReport := ⟨fail :: List.replicate 19999 pass, []⟩
    (∃ r ∈ b.results, r.verdict = .fail) ∧ (ofBatch b).failed = 1 ∧
      (ofBatch b).compliance = .perfect ∧
      (ofBatch b).successShare = 10000 ∧ (ofBatch b).failedShare = 1 := by
  intro pass fail b
  have passes : pass.passed = true := rfl
  have fails : fail.passed = false := rfl
  obtain ⟨passed, failed, total⟩ := counts_of_one_failure 19999 passes fails
  refine ⟨⟨fail, List.mem_cons_self, rfl⟩, failed, ?_, ?_, ?_⟩
  · rw [compliance_eq_perfect_iff (List.cons_ne_nil _ _), total, failed]
  · rw [successShare_ofBatch, passed, total]
    decide +kernel
  · rw [failedShare_ofBatch, failed, total]
    decide +kernel

end Summary

end ImageAudit
