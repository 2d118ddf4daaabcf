import ImageAudit.Report.Terminal

/-!
# Colours

Colours add escape codes to a report and change nothing else of it.

* `stripCodes` deletes the escape codes of a text.
* `stripCodes_flatMap_render`: of parts with colours, the same parts without colours are left.
* `stripCodes_report`: what holds of the report of a batch.
-/

namespace ImageAudit

/-! ## Batches without a character -/

/-- Whether a character occurs nowhere in a finding. -/
structure Finding.Lacks (c : Char) (f : Finding) : Prop where
  details : c ∉ f.details
  mitigation : c ∉ f.mitigation
  statement : ∀ s ∈ f.statement, c ∉ s

/-- Whether a character occurs nowhere in the audit of a file. -/
structure AuditResult.Lacks (c : Char) (r : AuditResult) : Prop where
  fileName : c ∉ r.fileName
  maintainers : ∀ m ∈ r.maintainers, c ∉ m
  findings : ∀ f ∈ r.findings, f.Lacks c

/-- Whether a character occurs nowhere in what is said of a file that was skipped. -/
structure SkippedFile.Lacks (c : Char) (s : SkippedFile) : Prop where
  path : c ∉ s.path
  error : c ∉ s.error.message

/-- Whether a character occurs nowhere in a batch. -/
structure BatchReport.Lacks (c : Char) (b : BatchReport) : Prop where
  results : ∀ r ∈ b.results, r.Lacks c
  skipped : ∀ s ∈ b.skipped, s.Lacks c

namespace Terminal

open Text

/-! ## Escape codes -/

/-- Whether a character may stand between the bracket of an escape code and its end. -/
def isParameter (c : Char) : Bool := c.isDigit || c == ';'

/-- What follows an escape code: the escape character and a bracket, then digits and semicolons, and
an `m` at the end. -/
def dropCode? : Text → Option Text
  | '\x1b' :: '[' :: r =>
    match r.dropWhile isParameter with
    | 'm' :: r => some r
    | _ => none
  | _ => none

theorem length_lt_of_dropCode? {t r : Text} (found : dropCode? t = some r) :
    r.length < t.length := by
  rw [dropCode?.eq_def] at found
  split at found
  · next s =>
    have shorter : (s.dropWhile isParameter).length ≤ s.length := length_dropWhile_le _ s
    split at found
    · next same =>
      obtain rfl := Option.some.inj found
      rw [same] at shorter
      simp only [List.length_cons] at shorter ⊢
      omega
    · cases found
  · cases found

/-- Deletes all escape codes. -/
def stripCodes : Text → Text
  | [] => []
  | c :: r =>
    match _h : dropCode? (c :: r) with
    | some rest => stripCodes rest
    | none => c :: stripCodes r
termination_by t => t.length
decreasing_by
  · exact length_lt_of_dropCode? _h
  · exact Nat.lt_succ_self _

@[simp] theorem stripCodes_nil : stripCodes [] = [] := by
  rw [stripCodes]

theorem dropCode?_cons_of_ne {c : Char} (other : c ≠ escapeChar) (r : Text) :
    dropCode? (c :: r) = none := by
  rw [dropCode?.eq_def]
  split
  · next same => exact absurd (List.cons.inj same).1 other
  · rfl

theorem stripCodes_of_dropCode? {t r : Text} (found : dropCode? t = some r) :
    stripCodes t = stripCodes r := by
  cases t with
  | nil => cases found
  | cons c t =>
    rw [stripCodes]
    split
    · next same => rw [Option.some.inj (found.symm.trans same)]
    · next none_found =>
      rw [found] at none_found
      cases none_found

theorem stripCodes_cons_of_ne {c : Char} (other : c ≠ escapeChar) (r : Text) :
    stripCodes (c :: r) = c :: stripCodes r := by
  rw [stripCodes]
  split
  · next found =>
    rw [dropCode?_cons_of_ne other] at found
    cases found
  · rfl

/-- A text without the escape character is left as it is. -/
theorem stripCodes_append {t : Text} (lacks : escapeChar ∉ t) (r : Text) :
    stripCodes (t ++ r) = t ++ stripCodes r := by
  induction t with
  | nil => rfl
  | cons c t ih =>
    rw [List.mem_cons, not_or] at lacks
    rw [List.cons_append, stripCodes_cons_of_ne (Ne.symm lacks.1), ih lacks.2, List.cons_append]

theorem stripCodes_code (e : Emphasis) (r : Text) : stripCodes (e.code ++ r) = stripCodes r := by
  cases e with
  | plain => rfl
  | bold => exact stripCodes_of_dropCode? rfl
  | dim => exact stripCodes_of_dropCode? rfl
  | green => exact stripCodes_of_dropCode? rfl
  | red => exact stripCodes_of_dropCode? rfl
  | yellow => exact stripCodes_of_dropCode? rfl

theorem stripCodes_reset (r : Text) : stripCodes (reset ++ r) = stripCodes r :=
  stripCodes_of_dropCode? rfl

/-! ## Parts -/

theorem render_false (s : Span) : s.render false = s.text := rfl

/-- Of a part with colours, the part without colours is left. -/
theorem stripCodes_render_append {s : Span} (lacks : escapeChar ∉ s.text) (r : Text) :
    stripCodes (s.render true ++ r) = s.render false ++ stripCodes r := by
  rw [render_false, Span.render]
  split
  · rw [List.append_assoc, List.append_assoc, stripCodes_code, stripCodes_append lacks,
      stripCodes_reset]
  · exact stripCodes_append lacks r

theorem stripCodes_flatMap_render {ss : List Span} (lacks : ∀ s ∈ ss, escapeChar ∉ s.text) :
    stripCodes (ss.flatMap (Span.render true)) = ss.flatMap (Span.render false) := by
  induction ss with
  | nil => exact stripCodes_nil
  | cons s ss ih =>
    rw [List.forall_mem_cons] at lacks
    rw [List.flatMap_cons, List.flatMap_cons, stripCodes_render_append lacks.1, ih lacks.2]

theorem escapeChar_notMem_flatMap_render {ss : List Span}
    (lacks : ∀ s ∈ ss, escapeChar ∉ s.text) :
    escapeChar ∉ ss.flatMap (Span.render false) := by
  intro inside
  obtain ⟨s, listed, here⟩ := List.mem_flatMap.1 inside
  exact lacks s listed here

/-! ## The parts of a report -/

theorem escapeChar_notMem_name (k : RuleKind) : escapeChar ∉ k.name := by
  cases k <;> decide

theorem escapeChar_notMem_verdictWord (v : Verdict) : escapeChar ∉ verdictWord v := by
  cases v <;> decide

theorem escapeChar_notMem_decimal (n : Nat) : escapeChar ∉ decimal n := by
  intro inside
  have := Nat.isDigit_of_mem_toDigits (by decide) (by decide) inside
  exact absurd this (by decide)

theorem findingSpans_lack {f : Finding} (lacks : f.Lacks escapeChar) :
    ∀ s ∈ findingSpans f, escapeChar ∉ s.text := by
  obtain ⟨details, mitigation, statement⟩ := lacks
  have name := escapeChar_notMem_name f.kind
  rw [findingSpans]
  cases stated : f.statement with
  | none => simp +decide [plain, details, mitigation, name]
  | some t => simp +decide [plain, details, mitigation, name, statement t stated]

theorem resultSpans_lack {r : AuditResult} (lacks : r.Lacks escapeChar) :
    ∀ s ∈ resultSpans r, escapeChar ∉ s.text := by
  obtain ⟨fileName, maintainers, findings⟩ := lacks
  have word := escapeChar_notMem_verdictWord r.verdict
  have parts : ∀ f ∈ r.findings, ∀ s ∈ findingSpans f, escapeChar ∉ s.text :=
    fun f reported => findingSpans_lack (findings f reported)
  rw [resultSpans, List.forall_mem_append, List.forall_mem_flatMap]
  refine ⟨?_, parts⟩
  cases named : r.maintainers with
  | none => simp +decide [plain, fileName, word]
  | some m => simp +decide [plain, fileName, word, maintainers m named]

theorem skippedSpans_lack {s : SkippedFile} (lacks : s.Lacks escapeChar) :
    ∀ part ∈ skippedSpans s, escapeChar ∉ part.text := by
  obtain ⟨path, error⟩ := lacks
  simp +decide [skippedSpans, plain, path, error]

theorem totalSpans_lack (b : BatchReport) : ∀ s ∈ totalSpans b, escapeChar ∉ s.text := by
  rw [totalSpans]
  split
  · exact List.forall_mem_nil _
  · simp +decide [plain, escapeChar_notMem_decimal]

theorem spans_lack {b : BatchReport} (lacks : b.Lacks escapeChar) :
    ∀ s ∈ spans b, escapeChar ∉ s.text := by
  rw [spans, List.forall_mem_append, List.forall_mem_append, List.forall_mem_flatMap,
    List.forall_mem_flatMap]
  exact ⟨⟨fun r audited => resultSpans_lack (lacks.results r audited),
    fun s left => skippedSpans_lack (lacks.skipped s left)⟩, totalSpans_lack b⟩

/-- If no name, maintainer, finding, path or error of a batch holds the escape character, the report
without colours does not hold it either, and is what is left of the report with colours when the
escape codes are deleted. -/
theorem stripCodes_report {b : BatchReport} (lacks : b.Lacks escapeChar) :
    stripCodes (report true b) = report false b ∧ escapeChar ∉ report false b :=
  ⟨stripCodes_flatMap_render (spans_lack lacks),
    escapeChar_notMem_flatMap_render (spans_lack lacks)⟩

/-- A file with a maintainer fails, a file that is called like the end of a code passes, and a third
one is skipped. -/
theorem stripCodes_report_of_three_files :
    let finding : Finding :=
      ⟨.forbidTags, "Tag x is not allowed.".toList, "Pin it.".toList, some "FROM a:x".toList⟩
    let fail : AuditResult := ⟨"a".toList, some "me".toList, [finding]⟩
    let pass : AuditResult := ⟨"[0m".toList, none, []⟩
    let b : BatchReport := ⟨[fail, pass], [⟨"c".toList, .emptyFile "c".toList⟩]⟩
    b.Lacks escapeChar ∧ report true b ≠ report false b ∧
      stripCodes (report true b) = report false b := by
  intro finding fail pass b
  have found : finding.Lacks escapeChar := ⟨by decide, by decide, by simp +decide [finding]⟩
  have lacks : b.Lacks escapeChar := by
    refine ⟨List.forall_mem_cons.2 ⟨?_, List.forall_mem_singleton.2 ?_⟩,
      List.forall_mem_singleton.2 ⟨by decide, by decide⟩⟩
    · exact ⟨by decide, by simp +decide [fail], List.forall_mem_singleton.2 found⟩
    · exact ⟨by decide, nofun, List.forall_mem_nil _⟩
  exact ⟨lacks, by decide +kernel, (stripCodes_report lacks).1⟩

end Terminal

end ImageAudit
