import ImageAudit.Proofs.Instruction.Keyword
import ImageAudit.Proofs.Statement.Reading

/-!
# Blank lines and comment lines

A blank line or a comment line may be put into a text anywhere, also between the parts of a
continued line. All statements but comments stay what they are, and so does the line that cannot be
read; what stands below the new line moves down by one.

* `logicalLinesFrom_insert`: the logical lines but comments are the same.
* `Statement.readLines_filter_isCode`: comments can always be read, so they may be left out first.
* `Statement.readAll_insert_inert`: what reading gives.
-/

namespace ImageAudit

open Text Layout

/-! ## Putting a line in -/

/-- The number of line `n` once a line has been put in that gets the number `m`. -/
def displaced (m n : Nat) : Nat := if m ≤ n then n + 1 else n

theorem displaced_of_lt {m n : Nat} (h : n < m) : displaced m n = n := if_neg (Nat.not_le_of_lt h)

theorem displaced_of_le {m n : Nat} (h : m ≤ n) : displaced m n = n + 1 := if_pos h

/-- The text `t'` is `t` with the line `c` put in, which gets the number `m`: in front of another
line, at the end of a text that ends with a line feed, or after a last line that has none. -/
inductive InsertsLine (c : Text) : (m : Nat) → (t t' : Text) → Prop where
  | before {a : Text} (ended : a = [] ∨ a.getLast? = some '\n') (b : Text) :
      InsertsLine c ((lines a).length + 1) (a ++ b) (a ++ (c ++ '\n' :: b))
  | last {a : Text} (ended : a = [] ∨ a.getLast? = some '\n') (filled : c ≠ []) :
      InsertsLine c ((lines a).length + 1) a (a ++ c)
  | after {a : Text} (unfinished : a ≠ [] ∧ a.getLast? ≠ some '\n') (filled : c ≠ []) :
      InsertsLine c ((lines a).length + 1) a (a ++ '\n' :: c)

theorem lines_append_of_ended {a : Text} (ended : a = [] ∨ a.getLast? = some '\n') (b : Text) :
    lines (a ++ b) = lines a ++ lines b := by
  rcases ended with rfl | ended
  · rfl
  · obtain ⟨p, rfl⟩ := List.getLast?_eq_some_iff.1 ended
    have none : lines [] = [] := rfl
    rw [List.append_assoc, List.singleton_append, lines_append, lines_append, none,
      List.append_nil]

theorem exists_getLast?_pieces {a : Text} (unfinished : a ≠ [] ∧ a.getLast? ≠ some '\n') :
    ∃ l, (pieces '\n' a).getLast? = some l ∧ l ≠ [] := by
  obtain ⟨filled, open_end⟩ := unfinished
  obtain empty | ⟨ps, l, split⟩ := List.eq_nil_or_concat' (pieces '\n' a)
  · exact absurd empty (pieces_ne_nil '\n' a)
  refine ⟨l, by rw [split, List.getLast?_concat], ?_⟩
  rintro rfl
  have whole := unlines_pieces a
  rw [split] at whole
  by_cases first : ps = []
  · rw [first] at whole
    exact filled whole.symm
  · rw [unlines_concat first] at whole
    rw [← whole] at open_end
    simp at open_end

/-- Up to white space at the ends of lines, a line is put in among the physical lines. -/
theorem InsertsLine.exists_lines {c t t' : Text} {m : Nat} (oneLine : '\n' ∉ c)
    (inserted : InsertsLine c m t t') :
    ∃ d ls ms, trim d = trim c ∧ m = ls.length + 1 ∧
      logicalLines t = logicalLinesFrom 1 none (ls ++ ms) ∧
      logicalLines t' = logicalLinesFrom 1 none (ls ++ d :: ms) := by
  cases inserted with
  | @before a ended b =>
    refine ⟨dropReturn c, lines a, lines b, trim_dropReturn c, rfl, ?_, ?_⟩
    · rw [logicalLines, lines_append_of_ended ended]
    · rw [logicalLines, lines_append_of_ended ended, lines_append, pieces_of_notMem oneLine]
      rfl
  | @last a ended filled =>
    refine ⟨c, lines t, [], rfl, rfl, ?_, ?_⟩
    · rw [logicalLines, List.append_nil]
    · rw [logicalLines, lines_append_of_ended ended, lines_of_notMem oneLine filled]
  | @after a unfinished filled =>
    -- The line feed after the last line may take a carriage return before it along.
    obtain ⟨l, last, solid⟩ := exists_getLast?_pieces unfinished
    have same : (pieces '\n' t).map trim = ((pieces '\n' t).map dropReturn).map trim := by
      rw [List.map_map]
      exact List.map_congr_left fun p _ => (trim_dropReturn p).symm
    refine ⟨c, (pieces '\n' t).map dropReturn, [], rfl, ?_, ?_, ?_⟩
    · rw [List.length_map, Statement.length_lines last solid]
    · rw [logicalLines_eq, List.append_nil, logicalLinesFrom_congr same]
    · rw [logicalLines, lines_append, lines_of_notMem oneLine filled]

/-! ## Logical lines -/

/-- Whether a logical line is no comment. -/
def LogicalLine.isCode (l : LogicalLine) : Bool := !startsComment l.text

theorem LogicalLine.renumber_displaced {m : Nat} {p : LogicalLine} (earlier : p.line < m) :
    p.renumber (displaced m) = p := by
  rw [renumber, displaced_of_lt earlier]

theorem LogicalLine.line_of_mem_finish {p r : LogicalLine} (member : r ∈ p.finish) :
    r.line = p.line := by
  rw [finish_eq] at member
  split at member
  · cases member
  · rw [List.mem_singleton.1 member]

/-- A physical line completes some logical lines and leaves one pending or none, whatever follows;
all of them have begun by now. -/
theorem exists_logicalLinesFrom_cons (l : Text) {n : Nat} {s : Option LogicalLine}
    (earlier : ∀ p ∈ s, p.line < n) :
    ∃ out s', (∀ ls, logicalLinesFrom n s (l :: ls) = out ++ logicalLinesFrom (n + 1) s' ls) ∧
      (∀ r ∈ out, r.line < n + 1) ∧ ∀ p ∈ s', p.line < n + 1 := by
  have completes {p : LogicalLine} (begun : p.line < n + 1) : ∀ r ∈ p.finish, r.line < n + 1 :=
    fun r member => LogicalLine.line_of_mem_finish member ▸ begun
  cases s with
  | none =>
    by_cases comment : startsComment (trim l)
    · exact ⟨[⟨n, trim l⟩], none, by simp [logicalLinesFrom, comment], by simp, by simp⟩
    · cases found : continued? (trim l) with
      | none =>
        exact ⟨_, none, by simp [logicalLinesFrom, comment, found],
          completes (p := ⟨n, trim l⟩) (Nat.lt_succ_self n), by simp⟩
      | some head =>
        exact ⟨[], some ⟨n, head ++ [' ']⟩, by simp [logicalLinesFrom, comment, found], by simp,
          by simp⟩
  | some p =>
    have begun : p.line < n + 1 := Nat.lt_succ_of_lt (earlier p rfl)
    by_cases passed : (trim l).isEmpty || startsComment (trim l)
    · exact ⟨[], some p, by simp only [logicalLinesFrom, passed, if_true, List.nil_append,
        implies_true], by simp, by simpa using begun⟩
    · cases found : continued? (trim l) with
      | none =>
        exact ⟨_, none, by simp only [logicalLinesFrom, passed, found]; exact fun _ => rfl,
          completes (p := ⟨p.line, p.text ++ trim l⟩) begun, by simp⟩
      | some head =>
        exact ⟨[], some ⟨p.line, p.text ++ (head ++ [' '])⟩,
          by simp only [logicalLinesFrom, passed, found]; exact fun _ => rfl, by simp,
          by simpa using begun⟩

/-- A line that says nothing is passed over, unless it is a logical line of its own as a comment. -/
theorem filter_isCode_logicalLinesFrom_cons {d : Text}
    (inert : trim d = [] ∨ startsComment (trim d) = true) (n : Nat) (s : Option LogicalLine)
    (ms : List Text) :
    (logicalLinesFrom n s (d :: ms)).filter LogicalLine.isCode =
      (logicalLinesFrom (n + 1) s ms).filter LogicalLine.isCode := by
  rcases inert with blank | comment
  · cases s <;> simp [logicalLinesFrom, blank, startsComment, continued?, dropSuffix?, dropPrefix?,
      LogicalLine.finish_eq, show trim [] = [] from rfl]
  · cases s <;> simp [logicalLinesFrom, comment, LogicalLine.isCode]

theorem logicalLinesFrom_insert {d : Text} (inert : trim d = [] ∨ startsComment (trim d) = true)
    (ls ms : List Text) {n : Nat} {s : Option LogicalLine} (earlier : ∀ p ∈ s, p.line < n) :
    (logicalLinesFrom n s (ls ++ d :: ms)).filter LogicalLine.isCode =
      ((logicalLinesFrom n s (ls ++ ms)).map
        (LogicalLine.renumber (displaced (n + ls.length)))).filter LogicalLine.isCode := by
  -- What is complete or pending by now has begun above the new line; all below moves down.
  induction ls generalizing n s with
  | nil =>
    have below := logicalLinesFrom_renumber (f := displaced n) (n := n)
      (fun m le => by rw [displaced_of_le le, displaced_of_le (Nat.le_succ_of_le le)]) s ms
    have above : s.map (LogicalLine.renumber (displaced n)) = s := by
      cases s with
      | none => rfl
      | some p => exact congrArg some (LogicalLine.renumber_displaced (earlier p rfl))
    rw [above, displaced_of_le (Nat.le_refl n)] at below
    rw [List.nil_append, List.nil_append, filter_isCode_logicalLinesFrom_cons inert, below]
    rfl
  | cons l ls ih =>
    obtain ⟨out, s', step, complete, pending⟩ := exists_logicalLinesFrom_cons l earlier
    have kept : out.map (LogicalLine.renumber (displaced (n + 1 + ls.length))) = out :=
      (List.map_congr_left fun r member => LogicalLine.renumber_displaced
        (Nat.lt_of_lt_of_le (complete r member) (Nat.le_add_right _ _))).trans (List.map_id out)
    have count : n + (l :: ls).length = n + 1 + ls.length := by
      rw [List.length_cons]
      omega
    rw [List.cons_append, List.cons_append, step, step, count, List.map_append, kept,
      List.filter_append, List.filter_append, ih pending]

/-! ## Statements -/

namespace Statement

/-- Whether a statement is no comment. -/
def isCode (s : Statement) : Bool := s.kind != .comment

theorem body?_comment_eq_some_iff {t b : Text} : Kind.comment.body? t = some b ↔ t = '#' :: b :=
  dropPrefix?_eq_some_iff

theorem exists_read_of_startsComment {l : LogicalLine} (comment : startsComment l.text = true) :
    ∃ text, read l = .ok ⟨.comment text, l.line, l.text⟩ := by
  obtain ⟨b, same⟩ := List.head?_eq_some_iff.1 (by simpa [startsComment] using comment)
  exact ⟨trim b, read_eq (Instruction.readLine?_eq (body?_comment_eq_some_iff.2 same) rfl)⟩

theorem isCode_of_read {l : LogicalLine} {s : Statement} (h : read l = .ok s) :
    s.isCode = l.isCode := by
  cases comment : startsComment l.text with
  | true =>
    obtain ⟨text, read⟩ := exists_read_of_startsComment comment
    rw [read] at h
    cases h
    simp [LogicalLine.isCode, comment, isCode, kind, Instruction.kind]
  | false =>
    obtain ⟨r, found⟩ := Instruction.read?_of_readLine? (readLine?_of_read h)
    obtain ⟨k, b, keyword, body⟩ := Instruction.exists_of_read? found
    have other : s.kind ≠ .comment := by
      rintro same
      have : k = .comment := (Instruction.kind_of_body? body).symm.trans same
      rw [this, body?_comment_eq_some_iff] at keyword
      rw [keyword] at comment
      cases comment
    simp [LogicalLine.isCode, comment, isCode, other]

/-- Comments can be left out before or after reading. -/
theorem readLines_filter_isCode (ls : List LogicalLine) :
    readLines (ls.filter LogicalLine.isCode) =
      match readLines ls with
      | .error e => .error e
      | .ok ss => .ok (ss.filter isCode) := by
  induction ls with
  | nil => rfl
  | cons l ls ih =>
    cases code : l.isCode with
    | false =>
      have comment : startsComment l.text = true := by simpa [LogicalLine.isCode] using code
      obtain ⟨text, first⟩ := exists_read_of_startsComment comment
      rw [List.filter_cons_of_neg (by simp [code]), ih, readLines, first]
      cases readLines ls <;> rfl
    | true =>
      rw [List.filter_cons_of_pos code, readLines, readLines, ih]
      cases first : read l with
      | error e => rfl
      | ok s =>
        have kept : s.isCode = true := (isCode_of_read first).trans code
        cases readLines ls with
        | error e => rfl
        | ok ss => simp [List.filter_cons_of_pos kept]

/-- A blank line or a comment line that is put into a text as line `m`, in whatever place, leaves
all statements but comments as they are, except that those below it stand one line further down.
Where the text cannot be read, the same is said of the same logical line, which stands one line
further down exactly if the new line comes before its first line. -/
theorem readAll_insert_inert {c t t' : Text} {m : Nat} (oneLine : '\n' ∉ c)
    (inert : trim c = [] ∨ isComment c = true) (inserted : InsertsLine c m t t') :
    (∀ ss, readAll t = .ok ss →
        ∃ ss', readAll t' = .ok ss' ∧
          ss'.filter isCode =
            (ss.filter isCode).map fun s => { s with line := displaced m s.line }) ∧
      ∀ e, readAll t = .error e →
        ∃ l ∈ logicalLines t, ∃ fault, readLine l.text = .error fault ∧
          e = .malformed l.line fault.message ∧
          readAll t' = .error
            (.malformed (if m ≤ l.line then l.line + 1 else l.line) fault.message) := by
  obtain ⟨d, ls, ms, same, rfl, old, new⟩ := inserted.exists_lines oneLine
  have inert : trim d = [] ∨ startsComment (trim d) = true := by
    rwa [same, startsComment_trim]
  -- Without comments, reading the new text is reading the old one under other numbers.
  have code := congrArg readLines (logicalLinesFrom_insert inert ls ms (n := 1) (s := none) nofun)
  rw [← old, ← new, Nat.add_comm 1, readLines_filter_isCode, readLines_filter_isCode,
    readLines_renumber] at code
  simp only [readAll]
  constructor
  · intro ss read
    rw [read] at code
    cases read' : readLines (logicalLines t') with
    | error e =>
      rw [read'] at code
      cases code
    | ok ss' =>
      rw [read'] at code
      refine ⟨ss', rfl, (Except.ok.inj code).trans ?_⟩
      rw [List.filter_map]
      rfl
  · intro e read
    obtain ⟨l, member, fault, found, rfl⟩ := exists_mem_of_readLines_error read
    rw [read] at code
    cases read' : readLines (logicalLines t') with
    | error e =>
      rw [read'] at code
      exact ⟨l, member, fault, found, rfl, code⟩
    | ok ss' =>
      rw [read'] at code
      cases code

/-- A comment that ends in a backslash, inside a continued line and before one that is no
instruction. -/
theorem readAll_insert_inert_of_comment :
    let c := "  # x \\".toList
    let path : Statement := ⟨.workdir "/a b".toList, 2, "WORKDIR /a b".toList⟩
    let user : Statement := ⟨.user ⟨"c".toList, none⟩, 4, "USER c".toList⟩
    let bad := "unknown instruction: BAD".toList
    (∃ ss, readAll ("\nWORKDIR /a \\\n".toList ++ (c ++ '\n' :: "b\nUSER c".toList)) = .ok ss ∧
        ss.filter isCode = [path, { user with line := 5 }]) ∧
      readAll ("USER c\n".toList ++ (c ++ '\n' :: "BAD \\\nb".toList)) =
        .error (.malformed 3 bad) ∧
      readAll ("USER c\nBAD \\\n".toList ++ (c ++ '\n' :: "b".toList)) =
        .error (.malformed 2 bad) := by
  intro c path user bad
  have oneLine : '\n' ∉ c := by decide
  have comment : trim c = [] ∨ isComment c = true := .inr (by decide)
  have inside := InsertsLine.before (c := c) (a := "\nWORKDIR /a \\\n".toList) (.inr rfl)
    "b\nUSER c".toList
  have above := InsertsLine.before (c := c) (a := "USER c\n".toList) (.inr rfl) "BAD \\\nb".toList
  have below := InsertsLine.before (c := c) (a := "USER c\nBAD \\\n".toList) (.inr rfl) "b".toList
  refine ⟨?_, ?_, ?_⟩
  · exact (readAll_insert_inert oneLine comment inside).1 [path, user] (by decide +kernel)
  · obtain ⟨l, member, fault, -, error, moved⟩ :=
      (readAll_insert_inert oneLine comment above).2 (.malformed 2 bad) (by decide +kernel)
    obtain ⟨line, message⟩ := ReadError.malformed.inj error
    rw [moved, ← line, ← message]
    rfl
  · obtain ⟨l, member, fault, -, error, moved⟩ :=
      (readAll_insert_inert oneLine comment below).2 (.malformed 2 bad) (by decide +kernel)
    obtain ⟨line, message⟩ := ReadError.malformed.inj error
    rw [moved, ← line, ← message]
    rfl

end Statement

end ImageAudit
