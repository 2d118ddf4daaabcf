import ImageAudit.Proofs.Layout.Stability
import ImageAudit.Proofs.Statement.Reading
import ImageAudit.Proofs.Text.Words

/-!
# Reading the text of a statement again

The text of a statement is one logical line. Laying it out squeezes its spaces, and a backslash at
its end is taken for a continuation, so that the statement read from it can be another one.

* `reread`: what reading takes the text of a statement for.
* `logicalLines_normalize_text`: the text has this one logical line, or none if it is empty.
* `reread_eq_self_of_mem`: lines that are continued solidly leave a text that stays as it is.
* `Dockerfile.rereads_iff`: when the same instruction is read again.
-/

namespace ImageAudit

open Text Layout

/-- What the text of a statement is taken for when it is read again: runs of spaces are one space,
and a backslash at the end is lost with the white space before it. -/
def reread (r : Text) : Text := (continued? (squeezeSpaces r)).getD (squeezeSpaces r)

variable {r : Text}

/-! ## Laying out the text of a statement -/

namespace IsLogicalText

theorem newline_notMem_squeezeSpaces (h : IsLogicalText r) : '\n' ∉ squeezeSpaces r :=
  fun inside => h.oneLine ((squeezeSpaces_sublist r).subset inside)

theorem squeezeSpaces_ne_nil (h : IsLogicalText r) : squeezeSpaces r ≠ [] :=
  mt squeezeSpaces_eq_nil_iff.1 h.filled

theorem isSpace_of_head? (h : IsLogicalText r) {c : Char} (hc : r.head? = some c) :
    isSpace c = false := by
  rw [← h.trimmed] at hc
  exact head?_stripWhile hc

theorem isSpace_of_getLast? (h : IsLogicalText r) {c : Char} (hc : r.getLast? = some c) :
    isSpace c = false := by
  rw [← h.trimmed] at hc
  exact getLast?_stripWhile hc

theorem trim_squeezeSpaces (h : IsLogicalText r) : trim (squeezeSpaces r) = squeezeSpaces r := by
  refine stripWhile_eq_self (fun c hc => ?_) fun c hc => ?_
  · exact h.isSpace_of_head? (by rwa [head?_squeezeSpaces] at hc)
  · exact h.isSpace_of_getLast? (by rwa [getLast?_squeezeSpaces] at hc)

theorem trimBlanks_eq (h : IsLogicalText r) : trimBlanks r = r :=
  stripWhile_eq_self (fun _ hc => isBlank_eq_false_of_isSpace (h.isSpace_of_head? hc))
    fun _ hc => isBlank_eq_false_of_isSpace (h.isSpace_of_getLast? hc)

/-- What is left of a line that is continued has no white space at its ends. -/
theorem trim_of_continued? (h : IsLogicalText r) {head : Text} (found : continued? r = some head) :
    trim head = head := by
  obtain ⟨b, split, -⟩ := exists_of_continued? found
  refine stripWhile_eq_self (fun c hc => h.isSpace_of_head? ?_) fun c => isSpace_of_continued? found
  rw [split, List.head?_append, hc]
  rfl

protected theorem squeezeSpaces (h : IsLogicalText r) : IsLogicalText (squeezeSpaces r) where
  filled := h.squeezeSpaces_ne_nil
  oneLine := h.newline_notMem_squeezeSpaces
  trimmed := h.trim_squeezeSpaces
  code := by rw [isComment_squeezeSpaces, h.code]

theorem arrangedLines_eq (h : IsLogicalText r) : arrangedLines r = [squeezeSpaces r] := by
  -- Of all passes only the squeezing of spaces has something to do.
  have breaks : unifyBreaks r = r := by
    rw [unifyBreaks_eq, pieces_of_notMem h.oneLine, dropReturns, unlines_singleton]
  have joined : joinContinuations r = r :=
    joinContinuations_eq_self (hasContinuation_of_notMem h.oneLine)
  have code : codeLines r = [r] := by
    rw [codeLines, lines_of_notMem h.oneLine h.filled, List.filter_singleton, h.code]
    rfl
  have finished : finishLines [r] = [r] := by simp [finishLines, h.filled]
  rw [arrangedLines, breaks, joined, code, finished]
  simp [polishLines, h.trimBlanks_eq, h.filled]

theorem normalLines_eq (h : IsLogicalText r) : normalLines r = [squeezeSpaces r] := by
  rw [normalLines, h.arrangedLines_eq, List.map_singleton]
  cases env : isEnvLine (squeezeSpaces r) with
  | true => rw [substituteIn, if_pos env]
  | false =>
    have noEnv : ∀ l ∈ arrangedLines r, isEnvLine l = false := by
      rw [h.arrangedLines_eq]
      simpa using env
    rw [variablesOf_arrange_eq_nil noEnv, substituteIn_nil]

/-- The text is one logical line again, unless nothing is left of it. -/
theorem logicalLines_normalize_text (h : IsLogicalText r) :
    logicalLines (normalize r) = if reread r = [] then [] else [⟨1, reread r⟩] := by
  have notComment : startsComment (trim (squeezeSpaces r)) = false := by
    rw [startsComment_trim, isComment_squeezeSpaces, h.code]
  rw [logicalLines_normalize, h.normalLines_eq, logicalLinesFrom, notComment,
    if_neg Bool.false_ne_true, h.trim_squeezeSpaces, reread]
  cases found : continued? (squeezeSpaces r) with
  | none =>
    rw [Option.getD_none]
    dsimp only
    rw [LogicalLine.finish_eq, h.trim_squeezeSpaces, logicalLinesFrom, List.append_nil]
  | some head =>
    have trimmed : trim (head ++ [' ']) = head := by
      rw [trim, stripWhile_append _ (by decide)]
      exact h.squeezeSpaces.trim_of_continued? found
    rw [Option.getD_some]
    dsimp only
    rw [logicalLinesFrom, LogicalLine.finish_eq, trimmed]

end IsLogicalText

/-- The text is taken for itself exactly if it has no two spaces side by side and does not end in a
backslash. -/
theorem reread_eq_self_iff :
    reread r = r ↔ hasDoubleSpace r = false ∧ r.getLast? ≠ some '\\' := by
  rw [reread]
  constructor
  · intro same
    cases found : continued? (squeezeSpaces r) with
    | none =>
      rw [found, Option.getD_none] at same
      have single := hasDoubleSpace_squeezeSpaces r
      rw [continued?_eq_none_iff] at found
      rw [same] at single found
      exact ⟨single, found⟩
    | some head =>
      -- A text from which a backslash is taken off is shorter.
      rw [found, Option.getD_some] at same
      obtain ⟨b, split, -⟩ := exists_of_continued? found
      have shorter := (squeezeSpaces_sublist r).length_le
      rw [split, same] at shorter
      simp only [List.length_append, List.length_singleton] at shorter
      omega
  · rintro ⟨single, last⟩
    rw [squeezeSpaces_eq_self single, continued?_eq_none_iff.2 last, Option.getD_none]

/-! ## Lines that leave no superfluous spaces behind -/

theorem hasDoubleSpace_stripWhile {p : Char → Bool} {t : Text} (h : hasDoubleSpace t = false) :
    hasDoubleSpace (stripWhile p t) = false := by
  obtain ⟨a, b, -, -, split⟩ := exists_append_of_stripWhile p t
  rw [split, hasDoubleSpace_append, hasDoubleSpace_append] at h
  simp only [Bool.or_eq_false_iff] at h
  exact h.1.1.1.2

theorem hasDoubleSpace_append_eq_false {a b : Text} (ha : hasDoubleSpace a = false)
    (hb : hasDoubleSpace b = false) (first : b.head? ≠ some ' ') :
    hasDoubleSpace (a ++ b) = false := by
  rw [hasDoubleSpace_append, ha, hb, beq_eq_false_iff_ne.2 first]
  simp

theorem head?_trim_ne_space (l : Text) : (trim l).head? ≠ some ' ' := by
  intro h
  exact absurd (head?_stripWhile h) (by decide)

theorem hasDoubleSpace_concat_space {a : Text} (ha : hasDoubleSpace a = false)
    (last : a.getLast? ≠ some ' ') : hasDoubleSpace (a ++ [' ']) = false := by
  rw [hasDoubleSpace_append, ha, beq_eq_false_iff_ne.2 last]
  rfl

theorem getLast?_trim_append (q : Text) {x : Text} {c : Char} (last : x.getLast? = some c)
    (other : isSpace c = false) : (trim (q ++ x)).getLast? = some c := by
  have ends : (q ++ x).getLast? = some c := by
    rw [List.getLast?_append, last]
    rfl
  exact getLast?_stripWhile_of_getLast? ends other

/-- A backslash continues a line that holds something else before it, and no other backslash
directly before it. -/
def ContinuesSolidly (l : Text) : Prop :=
  ∀ head, continued? (trim l) = some head → head ≠ [] ∧ head.getLast? ≠ some '\\'

/-- What a line that is continued leaves behind is joined with one space. -/
theorem hasDoubleSpace_of_continued? {l head : Text} (single : hasDoubleSpace l = false)
    (found : continued? (trim l) = some head) (filled : head ≠ []) :
    hasDoubleSpace (head ++ [' ']) = false ∧ (head ++ [' ']).head? ≠ some ' ' := by
  obtain ⟨b, whole, -⟩ := exists_of_continued? found
  have trimmed : hasDoubleSpace (trim l) = false := hasDoubleSpace_stripWhile single
  rw [whole, hasDoubleSpace_append] at trimmed
  simp only [Bool.or_eq_false_iff] at trimmed
  refine ⟨hasDoubleSpace_concat_space trimmed.1.1 fun last => ?_, fun first => ?_⟩
  · exact absurd (isSpace_of_continued? found last) (by decide)
  · refine head?_trim_ne_space l ?_
    rw [List.head?_append_of_ne_nil _ filled] at first
    rw [whole, List.head?_append_of_ne_nil _ filled, first]

/-- Where backslashes continue lines solidly, no logical line has superfluous spaces or ends in a
backslash. -/
theorem reread_eq_self_of_mem {ls : List Text} (neat : ∀ l ∈ ls, IsNeat l)
    (solid : ∀ l ∈ ls, ContinuesSolidly l) (n : Nat) :
    ∀ r ∈ logicalLinesFrom n none ls, reread r.text = r.text := by
  intro r member
  rw [reread_eq_self_iff]
  -- A line that waits for its next part ends in a space, so that its last word is looked at.
  refine (forall_mem_logicalLinesFrom
    (Q := fun q => hasDoubleSpace q = false ∧ (trim q).getLast? ≠ some '\\')
    (R := fun q => hasDoubleSpace q = false ∧ q.getLast? ≠ some '\\') (s := none)
    (fun l line => (neat l line).code) ?_ ?_ ?_ ⟨rfl, by decide⟩ n ⟨rfl, by decide⟩ r member).2.2
  · rintro q ⟨single, -⟩ l line head found
    obtain ⟨filled, noBackslash⟩ := solid l line head found
    obtain ⟨inner, first⟩ := hasDoubleSpace_of_continued? (neat l line).single found filled
    refine ⟨hasDoubleSpace_append_eq_false single inner first, ?_⟩
    obtain ⟨c, hc⟩ := Option.ne_none_iff_exists'.1 (mt List.getLast?_eq_none_iff.1 filled)
    have trimmed : trim (q ++ (head ++ [' '])) = trim (q ++ head) := by
      rw [← List.append_assoc, trim, stripWhile_append _ (by decide), trim]
    rw [trimmed, getLast?_trim_append q hc (isSpace_of_continued? found hc), ← hc]
    exact noBackslash
  · rintro q ⟨single, last⟩ l line found
    have inner : hasDoubleSpace (trim l) = false := hasDoubleSpace_stripWhile (neat l line).single
    refine ⟨hasDoubleSpace_stripWhile
      (hasDoubleSpace_append_eq_false single inner (head?_trim_ne_space l)), ?_⟩
    rw [continued?_eq_none_iff] at found
    cases hc : (trim l).getLast? with
    | none => rwa [List.getLast?_eq_none_iff.1 hc, List.append_nil]
    | some c =>
      rw [getLast?_trim_append q hc (getLast?_stripWhile hc), ← hc]
      exact found
  · rintro q ⟨single, last⟩
    exact ⟨hasDoubleSpace_stripWhile single, last⟩

/-! ## The statements of a Dockerfile -/

/-- The text of the statement is read as one statement, of the same instruction. -/
def Statement.Rereads (s : Statement) : Prop :=
  ∃ d, Dockerfile.ofText s.text = .ok d ∧ d.statements.map instruction = [s.instruction]

theorem Statement.rereads_iff_readLines {s : Statement} :
    s.Rereads ↔ ∃ ss, readLines (logicalLines (normalize s.text)) = .ok ss ∧
      ss.map instruction = [s.instruction] := by
  constructor
  · rintro ⟨d, accepted, same⟩
    exact ⟨d.statements, (Dockerfile.ofText_eq_ok_iff.1 accepted).2, same⟩
  · rintro ⟨ss, read, same⟩
    exact ⟨⟨none, ss⟩, Dockerfile.ofText_eq_ok_iff.2 ⟨rfl, read⟩, same⟩

theorem Statement.rereads_iff_readLine? {s : Statement} (h : IsLogicalText s.text) :
    s.Rereads ↔ Instruction.readLine? (reread s.text) = some s.instruction := by
  rw [rereads_iff_readLines, h.logicalLines_normalize_text]
  by_cases empty : reread s.text = []
  · rw [if_pos empty, empty]
    constructor
    · rintro ⟨ss, read, same⟩
      cases read
      cases same
    · intro none
      cases none
  · rw [if_neg empty]
    constructor
    · rintro ⟨ss, read, same⟩
      have one := forall₂_of_readLines read
      cases one with
      | cons first rest =>
        cases rest
        rw [readLine?_of_read first]
        exact congrArg List.head? same
    · intro read
      exact ⟨_, readLines_cons (read_eq read) rfl, rfl⟩

namespace Dockerfile

variable {t : Text} {d : Dockerfile} {s : Statement}

theorem exists_logicalLine (accepted : ofText t = .ok d) (member : s ∈ d.statements) :
    ∃ l ∈ logicalLinesFrom 1 none (normalLines t), Statement.read l = .ok s := by
  rw [← logicalLines_normalize]
  exact Statement.exists_of_mem_statements (ofText_eq_ok_iff.1 accepted).2 member

theorem isLogicalText (accepted : ofText t = .ok d) (member : s ∈ d.statements) :
    IsLogicalText s.text := by
  obtain ⟨l, line, read⟩ := exists_logicalLine accepted member
  have neat := (isLayout_normalLines t).neat
  rw [Statement.text_of_read read]
  exact isLogicalText_of_mem (fun m inside => (neat m inside).oneLine)
    (fun m inside => (neat m inside).code) 1 l line

theorem readLine?_of_mem (accepted : ofText t = .ok d) (member : s ∈ d.statements) :
    Instruction.readLine? s.text = some s.instruction := by
  obtain ⟨l, -, read⟩ := exists_logicalLine accepted member
  rw [Statement.text_of_read read]
  exact Statement.readLine?_of_read read

/-- The text of a statement is read as the same instruction exactly if the instruction is read from
what the text is taken for. It is if the text has no two spaces side by side and does not end in a
backslash, and if all lines of the laid out recipe are continued solidly. -/
theorem rereads_iff (accepted : ofText t = .ok d) (member : s ∈ d.statements) :
    (s.Rereads ↔ Instruction.readLine? (reread s.text) = some s.instruction) ∧
      (hasDoubleSpace s.text = false → s.text.getLast? ≠ some '\\' → s.Rereads) ∧
      ((∀ l ∈ pieces '\n' (normalize t), ContinuesSolidly l) → s.Rereads) := by
  have exact_iff := Statement.rereads_iff_readLine? (isLogicalText accepted member)
  have kept (same : reread s.text = s.text) : s.Rereads := by
    rw [exact_iff, same]
    exact readLine?_of_mem accepted member
  refine ⟨exact_iff, fun single last => kept (reread_eq_self_iff.2 ⟨single, last⟩), fun solid => ?_⟩
  obtain ⟨l, line, read⟩ := exists_logicalLine accepted member
  refine kept ?_
  rw [Statement.text_of_read read]
  refine reread_eq_self_of_mem (isLayout_normalLines t).neat (fun m inside => solid m ?_) 1 l line
  rwa [pieces_normalize (List.ne_nil_of_mem inside)]

theorem rereads_continued_path :
    ∃ d, ofText "WORKDIR  /a \\\n\n  b \\".toList = .ok d ∧
      ∃ s ∈ d.statements, s.text = "WORKDIR /a b".toList ∧ s.Rereads := by
  have accepted : ofText "WORKDIR  /a \\\n\n  b \\".toList =
      .ok ⟨none, [⟨.workdir "/a b".toList, 1, "WORKDIR /a b".toList⟩]⟩ := by decide
  have lines : pieces '\n' (normalize "WORKDIR  /a \\\n\n  b \\".toList) =
      ["WORKDIR /a b \\".toList] := by decide
  refine ⟨_, accepted, _, List.mem_singleton_self _, rfl,
    (rereads_iff accepted (List.mem_singleton_self _)).2.2 fun l line head found => ?_⟩
  rw [lines] at line
  obtain rfl := List.mem_singleton.1 line
  obtain rfl : "WORKDIR /a b".toList = head := Option.some.inj found
  decide

/-- Of two backslashes at the end of a recipe one is taken for a continuation, and the other one
when the text that is left is read again. -/
theorem not_rereads_backslash :
    ofText "USER root\\\\".toList =
        .ok ⟨none, [⟨.user ⟨"root\\".toList, none⟩, 1, "USER root\\".toList⟩]⟩ ∧
      ofText "USER root\\".toList =
        .ok ⟨none, [⟨.user ⟨"root".toList, none⟩, 1, "USER root".toList⟩]⟩ ∧
      ¬ Statement.Rereads ⟨.user ⟨"root\\".toList, none⟩, 1, "USER root\\".toList⟩ := by
  have again : ofText "USER root\\".toList =
      .ok ⟨none, [⟨.user ⟨"root".toList, none⟩, 1, "USER root".toList⟩]⟩ := by decide
  refine ⟨by decide, again, ?_⟩
  rintro ⟨d, accepted, same⟩
  rw [again] at accepted
  cases accepted
  exact absurd same (by decide)

end Dockerfile

end ImageAudit
