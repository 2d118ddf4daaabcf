import ImageAudit.Dockerfile.Basic
import ImageAudit.Proofs.Statement.LogicalLine
import Mathlib.Data.List.Forall2

/-!
# Reading statements

A text is read logical line by logical line, so that texts that meet at the end of a logical line
are read apart from each other.

* `Statement.read_eq_ok_iff` and `Statement.readLines_cons_eq_ok_iff`, with their counterparts on
  errors, say what one step of reading does.
* `Statement.forall₂_of_readLines`: each logical line gives one statement.
* `Statement.outline?` is what is read, without its text.
* `Statement.readAll_append`: what reading two texts as one gives, from what reading each of them
  gives.
-/

namespace ImageAudit

open Text

theorem exists_mem_of_forall₂ {α β : Type} {R : α → β → Prop} {xs : List α} {ys : List β}
    (h : List.Forall₂ R xs ys) {x : α} (member : x ∈ xs) : ∃ y ∈ ys, R x y := by
  induction h with
  | nil => cases member
  | cons first _ ih =>
    rcases List.mem_cons.1 member with rfl | member
    · exact ⟨_, List.mem_cons_self, first⟩
    · obtain ⟨y, inside, hy⟩ := ih member
      exact ⟨y, List.mem_cons_of_mem _ inside, hy⟩

/-- The same error where lines have other numbers. -/
def ReadError.renumber (f : Nat → Nat) : ReadError → ReadError
  | malformed line message => malformed (f line) message
  | e => e

/-- The same error `k` lines further down. -/
def ReadError.shift (k : Nat) : ReadError → ReadError := renumber (· + k)

namespace Statement

/-- The same statement where lines have other numbers. -/
def renumber (f : Nat → Nat) (s : Statement) : Statement := { s with line := f s.line }

/-- The same statement `k` lines further down. -/
def shift (k : Nat) : Statement → Statement := renumber (· + k)

/-! ## Reading line by line -/

theorem read_eq_ok_iff {l : LogicalLine} {s : Statement} :
    read l = .ok s ↔
      ∃ i, Instruction.readLine? l.text = some i ∧ s = ⟨i, l.line, l.text⟩ := by
  rw [read, readLine]
  cases Instruction.readLine? l.text with
  | none => simp
  | some i => simp [eq_comm]

theorem read_eq_error_iff {l : LogicalLine} {e : ReadError} :
    read l = .error e ↔
      ∃ fault, readLine l.text = .error fault ∧ e = .malformed l.line fault.message := by
  rw [read]
  cases readLine l.text with
  | error fault => simp [eq_comm]
  | ok i => simp

theorem readLine?_of_read {l : LogicalLine} {s : Statement} (h : read l = .ok s) :
    Instruction.readLine? l.text = some s.instruction := by
  obtain ⟨i, found, rfl⟩ := read_eq_ok_iff.1 h
  exact found

theorem text_of_read {l : LogicalLine} {s : Statement} (h : read l = .ok s) : s.text = l.text := by
  obtain ⟨i, -, rfl⟩ := read_eq_ok_iff.1 h
  rfl

theorem line_of_read {l : LogicalLine} {s : Statement} (h : read l = .ok s) : s.line = l.line := by
  obtain ⟨i, -, rfl⟩ := read_eq_ok_iff.1 h
  rfl

theorem read_eq {l : LogicalLine} {i : Instruction}
    (h : Instruction.readLine? l.text = some i) : read l = .ok ⟨i, l.line, l.text⟩ :=
  read_eq_ok_iff.2 ⟨i, h, rfl⟩

theorem read_renumber (f : Nat → Nat) (l : LogicalLine) :
    read (l.renumber f) =
      match read l with
      | .error e => .error (e.renumber f)
      | .ok s => .ok (s.renumber f) := by
  rw [read, read, LogicalLine.renumber]
  cases readLine l.text <;> rfl

theorem readLines_cons_eq_ok_iff {l : LogicalLine} {ls : List LogicalLine}
    {ss : List Statement} :
    readLines (l :: ls) = .ok ss ↔
      ∃ s rest, read l = .ok s ∧ readLines ls = .ok rest ∧ ss = s :: rest := by
  rw [readLines]
  cases read l with
  | error e => simp
  | ok s => cases readLines ls <;> simp [eq_comm]

theorem readLines_cons_eq_error_iff {l : LogicalLine} {ls : List LogicalLine} {e : ReadError} :
    readLines (l :: ls) = .error e ↔
      read l = .error e ∨ ∃ s, read l = .ok s ∧ readLines ls = .error e := by
  rw [readLines]
  cases read l with
  | error e' => simp
  | ok s => cases readLines ls <;> simp

theorem readLines_cons {l : LogicalLine} {ls : List LogicalLine} {s : Statement}
    {ss : List Statement} (first : read l = .ok s) (rest : readLines ls = .ok ss) :
    readLines (l :: ls) = .ok (s :: ss) :=
  readLines_cons_eq_ok_iff.2 ⟨s, ss, first, rest, rfl⟩

/-- The statements of a text are read from its logical lines one by one. -/
theorem forall₂_of_readLines {ls : List LogicalLine} {ss : List Statement}
    (h : readLines ls = .ok ss) : List.Forall₂ (fun l s => read l = .ok s) ls ss := by
  induction ls generalizing ss with
  | nil =>
    cases h
    exact .nil
  | cons l ls ih =>
    obtain ⟨s, rest, first, later, rfl⟩ := readLines_cons_eq_ok_iff.1 h
    exact .cons first (ih later)

theorem exists_of_mem_readLines {ls : List LogicalLine} {ss : List Statement}
    (h : readLines ls = .ok ss) {l : LogicalLine} (member : l ∈ ls) : ∃ s ∈ ss, read l = .ok s :=
  exists_mem_of_forall₂ (forall₂_of_readLines h) member

theorem exists_of_mem_statements {ls : List LogicalLine} {ss : List Statement}
    (h : readLines ls = .ok ss) {s : Statement} (member : s ∈ ss) : ∃ l ∈ ls, read l = .ok s :=
  exists_mem_of_forall₂ (R := fun s l => read l = .ok s) (forall₂_of_readLines h).flip member

theorem map_text_of_readLines {ls : List LogicalLine} {ss : List Statement}
    (h : readLines ls = .ok ss) : ss.map text = ls.map LogicalLine.text := by
  have read := forall₂_of_readLines h
  clear h
  induction read with
  | nil => rfl
  | cons first _ ih => rw [List.map_cons, List.map_cons, ih, text_of_read first]

theorem map_line_of_readLines {ls : List LogicalLine} {ss : List Statement}
    (h : readLines ls = .ok ss) : ss.map line = ls.map LogicalLine.line := by
  have read := forall₂_of_readLines h
  clear h
  induction read with
  | nil => rfl
  | cons first _ ih => rw [List.map_cons, List.map_cons, ih, line_of_read first]

/-! ## Reading two texts as one -/

theorem readLines_append (ls ms : List LogicalLine) :
    readLines (ls ++ ms) =
      match readLines ls, readLines ms with
      | .error e, _ => .error e
      | .ok _, .error e => .error e
      | .ok ss, .ok ts => .ok (ss ++ ts) := by
  induction ls with
  | nil => cases h : readLines ms <;> simp [readLines, h]
  | cons l ls ih =>
    rw [List.cons_append, readLines, readLines, ih]
    cases read l with
    | error e => rfl
    | ok s => cases readLines ls <;> cases readLines ms <;> rfl

theorem readLines_renumber (f : Nat → Nat) (ls : List LogicalLine) :
    readLines (ls.map (LogicalLine.renumber f)) =
      match readLines ls with
      | .error e => .error (e.renumber f)
      | .ok ss => .ok (ss.map (renumber f)) := by
  induction ls with
  | nil => rfl
  | cons l ls ih =>
    rw [List.map_cons, readLines, readLines, read_renumber, ih]
    cases read l with
    | error e => rfl
    | ok s => cases readLines ls <;> rfl

/-! ## Outlines -/

/-- The instructions of statements with their lines. -/
def outline (ss : List Statement) : List (Instruction × Nat) :=
  ss.map fun s => (s.instruction, s.line)

/-- The instructions of a text with their lines, if it can be read. -/
def outline? (t : Text) : Option (List (Instruction × Nat)) := (readAll t).toOption.map outline

theorem map_outline_readLines (ls : List LogicalLine) :
    (readLines ls).toOption.map outline =
      ls.mapM fun l => (Instruction.readLine? l.text).map (·, l.line) := by
  induction ls with
  | nil => rfl
  | cons l ls ih =>
    rw [List.mapM_cons, ← ih, readLines, read, readLine]
    cases Instruction.readLine? l.text with
    | none => rfl
    | some i => cases readLines ls <;> rfl

theorem outline?_eq (t : Text) :
    outline? t = (logicalLines t).mapM fun l => (Instruction.readLine? l.text).map (·, l.line) :=
  map_outline_readLines (logicalLines t)

/-! ## Errors -/

/-- An error names the first line of a logical line that is no instruction. -/
theorem exists_mem_of_readLines_error {ls : List LogicalLine} {e : ReadError}
    (h : readLines ls = .error e) :
    ∃ l ∈ ls, ∃ fault, readLine l.text = .error fault ∧ e = .malformed l.line fault.message := by
  induction ls with
  | nil => cases h
  | cons l ls ih =>
    rcases readLines_cons_eq_error_iff.1 h with first | ⟨s, -, later⟩
    · exact ⟨l, List.mem_cons_self, read_eq_error_iff.1 first⟩
    · obtain ⟨r, member, found⟩ := ih later
      exact ⟨r, List.mem_cons_of_mem l member, found⟩

theorem exists_of_readLines_error {ls : List LogicalLine} {e : ReadError}
    (h : readLines ls = .error e) : ∃ line message, e = .malformed line message := by
  obtain ⟨l, -, fault, -, rfl⟩ := exists_mem_of_readLines_error h
  exact ⟨l.line, fault.message, rfl⟩

/-! ## Texts that meet -/

variable {a l : Text}

theorem length_lines (last : (pieces '\n' a).getLast? = some l) (filled : l ≠ []) :
    (lines a).length = (pieces '\n' a).length := by
  obtain ⟨ps, split⟩ := List.getLast?_eq_some_iff.1 last
  have kept : finishLines [l] = [l] := by simp [finishLines, filled]
  rw [lines, split, finishLines_append ps (List.cons_ne_nil l []), kept]
  simp

/-- If the last line of a text ends a logical line, then reading the text with another one after it
fails where reading it alone fails, and otherwise reads the other text as many lines further down
as the text has: its statements follow, or its error arises. An error always names a line. -/
theorem readAll_append (last : (pieces '\n' a).getLast? = some l) (ends : EndsLogicalLine l)
    (b : Text) :
    (readAll (a ++ '\n' :: b) =
      match readAll a, readAll b with
      | .error e, _ => .error e
      | .ok _, .error e => .error (e.shift (lines a).length)
      | .ok ss, .ok ts => .ok (ss ++ ts.map (shift (lines a).length))) ∧
    ∀ e, readAll b = .error e → ∃ line message, e = .malformed line message := by
  refine ⟨?_, fun e => exists_of_readLines_error⟩
  have filled : l ≠ [] := by
    rintro rfl
    exact ends.filled rfl
  obtain ⟨ps, split⟩ := List.getLast?_eq_some_iff.1 last
  have count : (lines a).length = ps.length + 1 := by
    rw [length_lines last filled, split]
    simp
  -- The logical lines of both texts are those of the first, and then those of the second.
  have parts : logicalLines (a ++ '\n' :: b) =
      logicalLines a ++ (logicalLines b).map (LogicalLine.renumber (· + (lines a).length)) := by
    have apart := logicalLinesFrom_append ends ps (pieces '\n' b) 1 none
    have further := logicalLinesFrom_renumber (f := (· + (lines a).length)) (n := 1)
      (fun m _ => Nat.add_right_comm m 1 _) none (pieces '\n' b)
    rw [logicalLines_eq, logicalLines_eq, logicalLines_eq, pieces_append, split, List.append_assoc,
      List.singleton_append, apart, ← further, count, Nat.add_assoc 1]
    rfl
  rw [readAll, parts, readLines_append, readLines_renumber]
  change _ = match readLines (logicalLines a), readLines (logicalLines b) with
    | .error e, _ => _
    | .ok _, .error e => _
    | .ok ss, .ok ts => _
  cases readLines (logicalLines a) <;> cases readLines (logicalLines b) <;> rfl

theorem readAll_append_malformed :
    EndsLogicalLine " b".toList ∧
      readAll ("WORKDIR /a \\\n\n b".toList ++ '\n' :: "USER c\nBAD".toList) =
        .error (.malformed 5 "unknown instruction: BAD".toList) := by
  have last : (pieces '\n' "WORKDIR /a \\\n\n b".toList).getLast? = some " b".toList := by decide
  have ends : EndsLogicalLine " b".toList := ⟨by decide, by decide, by decide⟩
  refine ⟨ends, ?_⟩
  rw [(readAll_append last ends "USER c\nBAD".toList).1]
  rfl

end Statement

/-! ## Dockerfiles -/

theorem Dockerfile.readAll_of_ofFile {path t : Text} {d : Dockerfile}
    (accepted : ofFile path t = .ok d) :
    Statement.readAll (Layout.normalize t) = .ok d.statements := by
  rw [ofFile] at accepted
  split at accepted
  · cases accepted
  · split at accepted
    · next ss read =>
      cases accepted
      exact read
    · cases accepted

theorem Dockerfile.ofText_eq_ok_iff {t : Text} {d : Dockerfile} :
    ofText t = .ok d ↔
      d.path = none ∧
        Statement.readLines (logicalLines (Layout.normalize t)) = .ok d.statements := by
  rw [ofText, Statement.readAll]
  cases Statement.readLines (logicalLines (Layout.normalize t)) with
  | error e => simp
  | ok ss =>
    cases d
    simp [eq_comm]

end ImageAudit
