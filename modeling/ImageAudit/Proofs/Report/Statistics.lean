import ImageAudit.Proofs.Audit.Batch
import ImageAudit.Proofs.Policy.Configuration
import ImageAudit.Proofs.Policy.Evidence
import ImageAudit.Report.Content
import Mathlib.Algebra.BigOperators.Group.Finset.Basic
import Mathlib.Algebra.GroupWithZero.Nat

/-!
# Findings in numbers

Every finding of a batch is counted in one row of the table of rules, and in no other.

* `Policy.kind_mem_kinds`: no finding is of a kind that the policy has no rule of.
* `sum_countP_kind`: what is counted for each kind by itself adds up to all.
* `RuleShare.ofBatch_conserves`: what the table of rules says.
-/

namespace ImageAudit

open Report

/-! ## The findings of a batch -/

namespace BatchReport

/-- The findings on all files that are audited. -/
def findings (b : BatchReport) : List Finding := b.results.flatMap (·.findings)

/-- Whether a policy has judged all files that are audited. -/
def IsJudgedBy (p : Policy) (b : BatchReport) : Prop := ∀ r ∈ b.results, ∃ d, r = p.evaluate d

theorem isJudgedBy_ofFiles {σ : Type} {p : Policy} {fs : Files σ} {t : σ} {paths : List Text}
    {b : BatchReport} (audited : ofFiles p fs t paths = some b) : b.IsJudgedBy p := by
  intro r judged
  rw [(parts_of_ofFiles audited).1] at judged
  obtain ⟨path, -, result⟩ := List.mem_filterMap.1 judged
  rw [result?, auditFile] at result
  rcases loaded : Dockerfile.load fs t path with _ | _ | d <;>
    simp [loaded, Except.map] at result
  exact ⟨d, result.symm⟩

end BatchReport

theorem Policy.kind_mem_kinds {p : Policy} {d : Dockerfile} {f : Finding}
    (reported : f ∈ (p.evaluate d).findings) : f.kind ∈ p.kinds := by
  obtain ⟨r, enabled, found⟩ := List.mem_flatMap.1 reported
  rw [(Rule.isEvident found).1]
  exact List.mem_map_of_mem enabled

theorem BatchReport.IsJudgedBy.kind_mem_kinds {p : Policy} {b : BatchReport}
    (judged : b.IsJudgedBy p) {f : Finding} (reported : f ∈ b.findings) : f.kind ∈ p.kinds := by
  obtain ⟨r, audited, found⟩ := List.mem_flatMap.1 reported
  obtain ⟨d, rfl⟩ := judged r audited
  exact Policy.kind_mem_kinds found

/-! ## Counting -/

theorem foldl_add_eq_sum {α : Type} (f : α → Nat) (as : List α) :
    as.foldl (fun n a => n + f a) 0 = (as.map f).sum := by
  rw [List.sum_eq_foldl, List.foldl_map]

theorem sum_countP_kind {ks : List RuleKind} (once : ks.Nodup) {fs : List Finding}
    (known : ∀ f ∈ fs, f.kind ∈ ks) :
    (ks.map fun k => fs.countP fun f => f.kind == k).sum = fs.length := by
  have inside : ∀ k ∈ (fs.map Finding.kind : Multiset RuleKind), k ∈ ks.toFinset := by
    simpa using known
  calc
    (ks.map fun k => fs.countP fun f => f.kind == k).sum
      = (ks.map fun k => (fs.map Finding.kind).count k).sum := by
        simp only [List.count, List.countP_map, Function.comp_def]
    _ = ∑ k ∈ ks.toFinset, (fs.map Finding.kind).count k := (List.sum_toFinset _ once).symm
    _ = fs.length := by simpa using Multiset.sum_count_eq_card inside

/-! ## The table of rules -/

namespace RuleShare

theorem countIn_eq (b : BatchReport) (k : RuleKind) :
    countIn b k = b.findings.countP fun f => f.kind == k := by
  rw [countIn, foldl_add_eq_sum, BatchReport.findings, List.countP_flatMap]
  rfl

theorem map_kind_ofBatch (p : Policy) (b : BatchReport) : (ofBatch p b).map kind = p.kinds := by
  rw [ofBatch, List.map_map]
  exact List.map_id p.kinds

/-- The table of the findings has one row for each rule that the configuration enables, in the order
of the rules. A row counts the findings of its kind on all files, and its share is that of all
findings; the rows add up to these. In a report, too, each rule has one row of its own. -/
theorem ofBatch_conserves (read : Text → Option SourcePattern) {c : PolicyConfig} {p : Policy}
    (built : Policy.ofConfigWith read c = .ok p) {b : BatchReport} (judged : b.IsJudgedBy p) :
    (ofBatch p b).map kind = p.rules.map Rule.kind ∧
      (ofBatch p b).map kind = RuleKind.all.filter c.asks ∧
      (∀ row ∈ ofBatch p b,
        row.count = b.findings.countP (fun f => f.kind == row.kind) ∧
        row.share = ImageAudit.share row.count b.findings.length) ∧
      ((ofBatch p b).map count).sum = b.findings.length ∧
      ∀ date,
        (Content.ofBatch date p b).shares =
          (ofBatch p b).map (fun row => ⟨cell row.kind.name, row.count, row.share⟩) ∧
        ((Content.ofBatch date p b).shares.map ShareRow.kind).Nodup := by
  rw [Policy.ofConfigWith_eq] at built
  obtain rfl := eq_of_unlessInvalid built
  set p := Policy.ofReadable read c
  have kinds : p.kinds = RuleKind.all.filter c.asks := Policy.kinds_ofReadable read c
  have once : p.kinds.Nodup := kinds ▸ List.Nodup.filter _ (by decide)
  have total : (p.kinds.map (countIn b)).sum = b.findings.length := by
    simp only [funext (countIn_eq b), sum_countP_kind once fun f => judged.kind_mem_kinds]
  refine ⟨map_kind_ofBatch p b, (map_kind_ofBatch p b).trans kinds, fun row listed => ?_, ?_,
    fun date => ⟨rfl, ?_⟩⟩
  · obtain ⟨k, -, rfl⟩ := List.mem_map.1 listed
    refine ⟨countIn_eq b k, ?_⟩
    rw [← total, ← foldl_add_eq_sum]
  · rw [ofBatch, List.map_map]
    exact total
  · have apart : (RuleKind.all.map fun k => cell k.name).Nodup := by decide +kernel
    have names : (Content.ofBatch date p b).shares.map ShareRow.kind =
        p.kinds.map fun k => cell k.name := by
      simp only [Content.ofBatch, ofBatch, List.map_map]
      rfl
    rw [names, kinds]
    exact apart.sublist (List.filter_sublist.map _)

/-- Two files run as root, one of them after naming a tag twice; a third file is none. -/
theorem ofBatch_conserves_of_three_files :
    let c : PolicyConfig :=
      { PolicyConfig.empty with tags := some ⟨true, some ["dev".toList]⟩, root := some ⟨true⟩ }
    let p : Policy := ⟨[.forbidTags ["dev".toList], .forbidRoot]⟩
    let t := FileTree.directory [
      ("a".toList, .file (some "FROM x:dev\nFROM y:dev".toList)),
      ("b".toList, .file (some "USER root".toList)), ("c".toList, .file none)]
    ∃ b, BatchReport.ofFiles p FileTree.files t ["a".toList, "b".toList, "c".toList] = some b ∧
      Policy.ofConfig c = .ok p ∧
      (ofBatch p b).map (fun row => (row.kind, row.count)) = [(.forbidTags, 2), (.forbidRoot, 2)] ∧
      ((ofBatch p b).map count).sum = b.findings.length ∧ b.findings.length = 4 := by
  intro c p t
  have built : Policy.ofConfig c = .ok p := rfl
  have counted : (BatchReport.ofFiles p FileTree.files t ["a".toList, "b".toList, "c".toList]).map
      (fun b => ((ofBatch p b).map (fun row => (row.kind, row.count)), b.findings.length)) =
        some ([(.forbidTags, 2), (.forbidRoot, 2)], 4) := by
    decide +kernel
  obtain ⟨b, audited, counts⟩ := Option.map_eq_some_iff.1 counted
  obtain ⟨rows, all⟩ := Prod.mk.inj counts
  obtain ⟨-, -, -, total, -⟩ :=
    ofBatch_conserves SourcePattern.ofText? built (BatchReport.isJudgedBy_ofFiles audited)
  exact ⟨b, audited, built, rows, total, all⟩

end RuleShare

end ImageAudit
