import ImageAudit.Proofs.Statement.Reading
import ImageAudit.Proofs.Text.Words

/-!
# Texts of one line

A single line is its own logical line, also as a comment.

* `logicalLinesFrom_single`: single lines are the logical lines.
* `Statement.readAll_eq_ok_iff_of_isSingleLine`: a single line is read exactly if it is an
  instruction.
-/

namespace ImageAudit

open Text

/-- A text of one line, without white space at its ends and not continued. -/
structure IsSingleLine (l : Text) : Prop where
  filled : l ≠ []
  oneLine : '\n' ∉ l
  trimmed : trim l = l
  closed : l.getLast? ≠ some '\\'

namespace IsSingleLine

variable {l : Text}

theorem of_ends {c d : Char} (first : l.head? = some c) (last : l.getLast? = some d)
    (solid : isSpace c = false ∧ isSpace d = false) (closed : d ≠ '\\') (oneLine : '\n' ∉ l) :
    IsSingleLine l where
  filled := by
    rintro rfl
    cases first
  oneLine := oneLine
  trimmed := by
    refine stripWhile_eq_self ?_ ?_
    · rw [first]
      rintro e ⟨⟩
      exact solid.1
    · rw [last]
      rintro e ⟨⟩
      exact solid.2
  closed := by
    rw [last]
    simpa using closed

theorem logicalLinesFrom_cons (h : IsSingleLine l) (n : Nat) (ls : List Text) :
    logicalLinesFrom n none (l :: ls) = ⟨n, l⟩ :: logicalLinesFrom (n + 1) none ls := by
  rw [logicalLinesFrom, h.trimmed, continued?_eq_none_iff.2 h.closed]
  split
  · rfl
  · rw [LogicalLine.finish_eq, h.trimmed, if_neg h.filled, List.singleton_append]

theorem logicalLines_eq (h : IsSingleLine l) : logicalLines l = [⟨1, l⟩] := by
  rw [logicalLines, lines_of_notMem h.oneLine h.filled, h.logicalLinesFrom_cons, logicalLinesFrom]

theorem isSpace_of_head? (h : IsSingleLine l) {c : Char} (first : l.head? = some c) :
    isSpace c = false := by
  rw [← h.trimmed] at first
  exact head?_stripWhile first

theorem skipBlanks_eq (h : IsSingleLine l) : skipBlanks l = l := by
  obtain ⟨c, r, rfl⟩ := List.exists_cons_of_ne_nil h.filled
  have solid := isBlank_eq_false_of_isSpace (h.isSpace_of_head? rfl)
  exact List.dropWhile_cons_of_neg (by simp [solid])

/-- Words before the line leave it one line. -/
theorem append (h : IsSingleLine l) {front : Text} (oneLine : '\n' ∉ front)
    (solid : ∀ c, front.head? = some c → isSpace c = false) : IsSingleLine (front ++ l) where
  filled := by simp [h.filled]
  oneLine := by simp [oneLine, h.oneLine]
  trimmed := by
    refine stripWhile_eq_self (fun c first => ?_) fun c last => ?_
    · rw [List.head?_append] at first
      cases start : front.head? with
      | some d =>
        rw [start] at first
        exact solid c (start.trans first)
      | none =>
        rw [start] at first
        exact h.isSpace_of_head? first
    · rw [List.getLast?_append_of_ne_nil _ h.filled, ← h.trimmed] at last
      exact getLast?_stripWhile last
  closed := by
    rw [List.getLast?_append_of_ne_nil _ h.filled]
    exact h.closed

end IsSingleLine

/-- Single lines are the logical lines. -/
theorem logicalLinesFrom_single {ls : List Text} (single : ∀ l ∈ ls, IsSingleLine l) (n : Nat) :
    logicalLinesFrom n none ls = (ls.zipIdx n).map fun p => ⟨p.2, p.1⟩ := by
  induction ls generalizing n with
  | nil => rfl
  | cons l ls ih =>
    rw [(single l List.mem_cons_self).logicalLinesFrom_cons,
      ih fun m member => single m (List.mem_cons_of_mem l member)]
    rfl

namespace Statement

theorem readAll_of_isSingleLine {l : Text} (h : IsSingleLine l) :
    readAll l = (read ⟨1, l⟩).map fun s => [s] := by
  rw [readAll, h.logicalLines_eq, readLines]
  cases read ⟨1, l⟩ <;> rfl

theorem readAll_eq_ok_iff_of_isSingleLine {l : Text} (h : IsSingleLine l) {ss : List Statement} :
    readAll l = .ok ss ↔ ∃ i, Instruction.readLine? l = some i ∧ ss = [⟨i, 1, l⟩] := by
  rw [readAll_of_isSingleLine h, read, readLine]
  cases Instruction.readLine? l <;> simp [Except.map, eq_comm]

theorem outline?_of_isSingleLine {l : Text} (h : IsSingleLine l) :
    outline? l = (Instruction.readLine? l).map fun i => [(i, 1)] := by
  rw [outline?_eq, h.logicalLines_eq]
  cases read : Instruction.readLine? l <;> simp [read]

end Statement

end ImageAudit
