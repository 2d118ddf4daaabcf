import ImageAudit.Proofs.Layout.References
import ImageAudit.Proofs.Statement.InertLine
import ImageAudit.Proofs.Statement.SingleLine

/-!
# One statement a line

Where all lines are single lines, each of them is one statement under its own number.

* `isSingleLine_of_mem_normalLines`: what laying out gives are single lines, unless the last one
  ends in a backslash or the text has unusual white space.
* `Statement.readAll_normalize_lines`: how a text is read once it has been laid out.
-/

namespace ImageAudit

open Text Layout

/-! ## Laid out texts -/

variable {t : Text}

theorem lines_normalize (clean : ∀ l ∈ (normalLines t).dropLast, l.getLast? ≠ some '\r') :
    lines (normalize t) = normalLines t := by
  by_cases h : normalLines t = []
  · rw [normalize_eq, h]
    rfl
  · have filled := fun l member => ((isLayout_normalLines t).neat l member).filled
    rw [lines, pieces_normalize h, finishLines_eq_dropReturns filled, dropReturns_eq_self clean]

theorem getLast?_ne_of_endsInBackslash {l : Text} (h : endsInBackslash l = false) :
    l.getLast? ≠ some '\\' := by
  intro last
  obtain ⟨head, rfl⟩ := List.getLast?_eq_some_iff.1 last
  rw [endsInBackslash_eq_true_iff.2 ⟨head, [], rfl, rfl⟩] at h
  cases h

theorem getLast?_ne_of_mem_normalLines (closed : (normalize t).getLast? ≠ some '\\') {l : Text}
    (member : l ∈ normalLines t) : l.getLast? ≠ some '\\' := by
  have layout := isLayout_normalLines t
  have filled := (layout.neat l member).filled
  obtain ⟨ls, last, split⟩ :=
    (List.eq_nil_or_concat' (normalLines t)).resolve_left (List.ne_nil_of_mem member)
  rw [split, List.mem_append, List.mem_singleton] at member
  rcases member with earlier | rfl
  · refine getLast?_ne_of_endsInBackslash (layout.closed l ?_)
    rwa [split, List.dropLast_concat]
  · rwa [normalize_eq, split, getLast?_unlines_concat ls filled] at closed

/-- No line of a laid out text has white space at its ends or is continued. -/
theorem isSingleLine_of_mem_normalLines
    (spaces : ∀ c ∈ t, isSpace c = true → isBlank c = true ∨ c = '\n')
    (closed : (normalize t).getLast? ≠ some '\\') {l : Text} (member : l ∈ normalLines t) :
    IsSingleLine l := by
  have neat := (isLayout_normalLines t).neat l member
  -- The white space on a line comes from the text, or it is a space.
  have blank : ∀ c ∈ l, isSpace c = true → isBlank c = true := by
    intro c inside space
    by_cases same : c = ' '
    · rw [same]
      rfl
    · have source := (unifyBreaks_sublist t).subset (mem_of_mem_normalLines member inside same)
      refine (spaces c source space).resolve_right ?_
      rintro rfl
      exact neat.oneLine inside
  have solid {c : Char} (inside : c ∈ l) (end_ : isBlank c = false) : isSpace c = false := by
    by_contra space
    rw [blank c inside (by simpa using space)] at end_
    cases end_
  have trimmed : trim l = l := stripWhile_eq_self
    (fun c first => solid (List.mem_of_mem_head? first) (neat.first c first))
    fun c last => solid (List.mem_of_getLast? last) (neat.last c last)
  exact ⟨neat.filled, neat.oneLine, trimmed, getLast?_ne_of_mem_normalLines closed member⟩

namespace Statement

theorem exists_of_readLines_single {ls : List Text} (single : ∀ l ∈ ls, IsSingleLine l) {n : Nat}
    {e : ReadError} (h : readLines ((ls.zipIdx n).map fun p => ⟨p.2, p.1⟩) = .error e) :
    ∃ before l after message, ls = before ++ l :: after ∧
      e = .malformed (before.length + n) message ∧ readAll l = .error (.malformed 1 message) ∧
      ∀ m ∈ before, ∃ s, readAll m = .ok [s] := by
  -- By the lines: the first one is the faulty one, or it joins those before the faulty one.
  induction ls generalizing n with
  | nil => cases h
  | cons l ls ih =>
    have alone := readAll_of_isSingleLine (single l List.mem_cons_self)
    rw [List.zipIdx_cons, List.map_cons] at h
    rcases readLines_cons_eq_error_iff.1 h with first | ⟨s, first, later⟩
    · obtain ⟨fault, found, rfl⟩ := read_eq_error_iff.1 first
      have malformed : read ⟨1, l⟩ = .error (.malformed 1 fault.message) :=
        read_eq_error_iff.2 ⟨fault, found, rfl⟩
      refine ⟨[], l, ls, fault.message, rfl, by simp, ?_, by simp⟩
      rw [alone, malformed]
      rfl
    · have readable : readAll l = .ok [⟨s.instruction, 1, l⟩] := by
        have found : Instruction.readLine? l = some s.instruction := readLine?_of_read first
        rw [alone, read_eq found]
        rfl
      obtain ⟨before, m, after, message, rfl, rfl, malformed, earlier⟩ :=
        ih (fun m member => single m (List.mem_cons_of_mem l member)) later
      refine ⟨l :: before, m, after, message, rfl, ?_, malformed, ?_⟩
      · rw [List.length_cons, Nat.add_right_comm, Nat.add_assoc]
      · rw [List.forall_mem_cons]
        exact ⟨⟨_, readable⟩, earlier⟩

/-- A text that has been laid out is read line by line, if its last line does not end in a backslash
and the text had no white space but spaces, tabs and line feeds: each line is one statement with the
number of that line, and none is a comment. An error names the first line that cannot be read
alone. -/
theorem readAll_normalize_lines {t : Text}
    (spaces : ∀ c ∈ t, isSpace c = true → isBlank c = true ∨ c = '\n')
    (closed : (normalize t).getLast? ≠ some '\\') :
    (∀ ss, readAll (normalize t) = .ok ss →
      List.Forall₂ (fun l s => s.line = l.2 ∧ s.text = l.1 ∧ s.kind ≠ .comment)
        ((lines (normalize t)).zipIdx 1) ss) ∧
    ∀ e, readAll (normalize t) = .error e →
      ∃ before l after message, lines (normalize t) = before ++ l :: after ∧
        e = .malformed (before.length + 1) message ∧ readAll l = .error (.malformed 1 message) ∧
        ∀ m ∈ before, ∃ s, readAll m = .ok [s] := by
  have single : ∀ l ∈ normalLines t, IsSingleLine l := fun l =>
    isSingleLine_of_mem_normalLines spaces closed
  have clean : ∀ l ∈ (normalLines t).dropLast, l.getLast? ≠ some '\r' := by
    intro l member last
    have trimmed := (single l (List.mem_of_mem_dropLast member)).trimmed
    rw [← trimmed] at last
    exact absurd (getLast?_stripWhile last) (by decide)
  rw [lines_normalize clean, readAll, logicalLines_normalize, logicalLinesFrom_single single]
  refine ⟨fun ss read => ?_, fun e => exists_of_readLines_single single⟩
  have each := List.forall₂_map_left_iff.1 (forall₂_of_readLines read)
  have code : ∀ l ∈ (normalLines t).zipIdx 1, startsComment l.1 = false := by
    intro l member
    have inside := List.fst_mem_of_mem_zipIdx member
    rw [← (single l.1 inside).trimmed, startsComment_trim]
    exact ((isLayout_normalLines t).neat l.1 inside).code
  refine ((List.forall₂_and_left _ _).2 ⟨code, each⟩).imp ?_
  rintro l s ⟨code, read⟩
  refine ⟨line_of_read read, text_of_read read, ?_⟩
  have := isCode_of_read read
  simpa [LogicalLine.isCode, code, isCode] using this

/-- A text that can be read, and one whose third line cannot. -/
theorem readAll_normalize_lines_of_split :
    let good := "# x\nWORKDIR  /a\\\n\n b\n# y\n\tUSER c".toList
    let bad := "WORKDIR /a\n\nUSER \\\n c\nBAD d\nBAD".toList
    (∃ ss, readAll (normalize good) = .ok ss ∧ List.Forall₂
        (fun l s => s.line = l.2 ∧ s.text = l.1 ∧ s.kind ≠ .comment)
        [("WORKDIR /a b".toList, 1), ("USER c".toList, 2)] ss) ∧
      ∃ before l after, before.length = 2 ∧ lines (normalize bad) = before ++ l :: after ∧
        readAll l = .error (.malformed 1 "unknown instruction: BAD".toList) ∧
        ∀ m ∈ before, ∃ s, readAll m = .ok [s] := by
  intro good bad
  constructor
  · have read : readAll (normalize good) =
        .ok [⟨.workdir "/a b".toList, 1, "WORKDIR /a b".toList⟩,
          ⟨.user ⟨"c".toList, none⟩, 2, "USER c".toList⟩] := by decide +kernel
    have split : (lines (normalize good)).zipIdx 1 =
        [("WORKDIR /a b".toList, 1), ("USER c".toList, 2)] := by decide +kernel
    rw [← split]
    exact ⟨_, read, (readAll_normalize_lines (by decide) (by decide +kernel)).1 _ read⟩
  · have failed : readAll (normalize bad) =
        .error (.malformed 3 "unknown instruction: BAD".toList) := by decide +kernel
    obtain ⟨before, l, after, message, split, error, malformed, earlier⟩ :=
      (readAll_normalize_lines (by decide) (by decide +kernel)).2 _ failed
    obtain ⟨line, rfl⟩ := ReadError.malformed.inj error
    exact ⟨before, l, after, by omega, split, malformed, earlier⟩

end Statement

end ImageAudit
