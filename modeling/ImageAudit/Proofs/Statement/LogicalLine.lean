import ImageAudit.Proofs.Layout.Idempotence
import ImageAudit.Statement

/-!
# Logical lines

What reading takes for the logical lines of a text.

* `logicalLinesFrom_append`: a line that is neither blank nor a comment and is not continued ends a
  logical line, and what follows is read as if it stood alone.
* `forall_mem_logicalLinesFrom`: what holds of all logical lines, from what joining lines keeps.
* `map_text_logicalLines`: the logical lines of a laid out text are its lines, if none is continued.
-/

namespace ImageAudit

open Text Layout

/-! ## Physical lines -/

theorem trim_dropReturn (l : Text) : trim (dropReturn l) = trim l := by
  rcases eq_dropReturn_or l with h | h
  · rw [← h]
  · conv_rhs => rw [h]
    exact (stripWhile_append _ (by decide)).symm

theorem isComment_trim (l : Text) : isComment (trim l) = isComment l := by
  obtain ⟨a, b, ha, hb, split⟩ := exists_append_of_stripWhile isSpace l
  conv_rhs => rw [split]
  rw [isComment_append_spaces _ hb, isComment_append, if_pos ha]
  rfl

theorem startsComment_trim (l : Text) : startsComment (trim l) = isComment l := by
  rw [← isComment_trim, isComment, trimStart, startsComment]
  cases h : trim l with
  | nil => rfl
  | cons c r =>
    have : isSpace c = false := head?_stripWhile (t := l) (by rw [trim] at h; rw [h]; rfl)
    rw [List.dropWhile_cons_of_neg (by simp [this])]

theorem continued?_eq_some_iff {l head : Text} :
    continued? l = some head ↔ ∃ x, l = x ++ ['\\'] ∧ head = trimEnd x := by
  rw [continued?, Option.map_eq_some_iff]
  exact exists_congr fun x => and_congr dropSuffix?_eq_some_iff eq_comm

theorem continued?_eq_none_iff {l : Text} : continued? l = none ↔ l.getLast? ≠ some '\\' := by
  rw [Option.eq_none_iff_forall_ne_some, ne_eq, List.getLast?_eq_some_iff, not_exists]
  constructor
  · rintro none x rfl
    exact none _ (continued?_eq_some_iff.2 ⟨x, rfl, rfl⟩)
  · rintro last head found
    obtain ⟨x, rfl, -⟩ := continued?_eq_some_iff.1 found
    exact last x rfl

/-- A line that is continued is what counts of it, white space and a backslash. -/
theorem exists_of_continued? {l head : Text} (h : continued? l = some head) :
    ∃ b, l = head ++ (b ++ ['\\']) ∧ b.all isSpace = true := by
  obtain ⟨x, rfl, rfl⟩ := continued?_eq_some_iff.1 h
  obtain ⟨b, hb, split⟩ := exists_append_of_dropEndWhile isSpace x
  refine ⟨b, ?_, hb⟩
  rw [← List.append_assoc]
  exact congrArg (· ++ ['\\']) split

theorem isSpace_of_continued? {l head : Text} (h : continued? l = some head) {c : Char}
    (last : head.getLast? = some c) : isSpace c = false := by
  obtain ⟨x, -, rfl⟩ := continued?_eq_some_iff.1 h
  exact getLast?_dropEndWhile last

/-! ## How lines end -/

theorem LogicalLine.finish_eq {p : LogicalLine} :
    p.finish = if trim p.text = [] then [] else [⟨p.line, trim p.text⟩] := by
  simp [finish]

theorem logicalLinesFrom_cons_congr {l m : Text} {ls ms : List Text} (same : trim l = trim m)
    (rest : ∀ n s, logicalLinesFrom n s ls = logicalLinesFrom n s ms) (n : Nat)
    (s : Option LogicalLine) : logicalLinesFrom n s (l :: ls) = logicalLinesFrom n s (m :: ms) := by
  cases s <;> simp only [logicalLinesFrom, same, rest]

/-- White space at the ends of lines makes no difference. -/
theorem logicalLinesFrom_congr {ls ms : List Text} (same : ls.map trim = ms.map trim) (n : Nat)
    (s : Option LogicalLine) : logicalLinesFrom n s ls = logicalLinesFrom n s ms := by
  induction ls generalizing ms n s with
  | nil => rw [List.map_eq_nil_iff.1 same.symm]
  | cons l ls ih =>
    obtain ⟨m, ms, rfl, first, rest⟩ := List.map_eq_cons_iff.1 same.symm
    exact logicalLinesFrom_cons_congr first.symm (fun n s => ih rest.symm n s) n s

/-- Carriage returns at the ends of lines and an empty last line make no difference. -/
theorem logicalLinesFrom_finishLines (ps : List Text) (n : Nat) (s : Option LogicalLine) :
    logicalLinesFrom n s (finishLines ps) = logicalLinesFrom n s ps := by
  fun_induction finishLines ps generalizing n s with
  | case1 => rfl
  | case2 p empty =>
    rw [List.isEmpty_iff.1 empty]
    cases s <;> rfl
  | case3 => rfl
  | case4 p q ps ih => exact logicalLinesFrom_cons_congr (trim_dropReturn p) ih n s

theorem logicalLines_eq (t : Text) : logicalLines t = logicalLinesFrom 1 none (pieces '\n' t) :=
  logicalLinesFrom_finishLines _ 1 none

/-! ## Texts one after the other -/

/-- The line ends a logical line: it is neither blank nor a comment, and it is not continued. -/
structure EndsLogicalLine (l : Text) : Prop where
  filled : trim l ≠ []
  code : startsComment (trim l) = false
  closed : (trim l).getLast? ≠ some '\\'

theorem EndsLogicalLine.logicalLinesFrom_cons {l : Text} (h : EndsLogicalLine l) (n : Nat)
    (s : Option LogicalLine) (ms : List Text) :
    logicalLinesFrom n s (l :: ms) =
      logicalLinesFrom n s [l] ++ logicalLinesFrom (n + 1) none ms := by
  have closed := continued?_eq_none_iff.2 h.closed
  cases s <;> simp [logicalLinesFrom, h.filled, h.code, closed]

/-- What follows the end of a logical line is read as if it stood alone. -/
theorem logicalLinesFrom_append {l : Text} (h : EndsLogicalLine l) (ks ms : List Text) (n : Nat)
    (s : Option LogicalLine) :
    logicalLinesFrom n s (ks ++ l :: ms) =
      logicalLinesFrom n s (ks ++ [l]) ++ logicalLinesFrom (n + ks.length + 1) none ms := by
  -- The lines before it may leave one open; by induction it is ended here in any case.
  induction ks generalizing n s with
  | nil => exact h.logicalLinesFrom_cons n s ms
  | cons k ks ih =>
    have shifted : n + (k :: ks).length + 1 = n + 1 + ks.length + 1 := by simp; omega
    rw [shifted, List.cons_append, List.cons_append]
    cases s with
    | none =>
      rw [logicalLinesFrom, logicalLinesFrom]
      split
      · rw [ih, List.cons_append]
      · split <;> rw [ih]
        rw [List.append_assoc]
    | some p =>
      rw [logicalLinesFrom, logicalLinesFrom]
      split
      · rw [ih]
      · split <;> rw [ih]
        rw [List.append_assoc]

/-- The same line under another number. -/
def LogicalLine.renumber (f : Nat → Nat) (l : LogicalLine) : LogicalLine := ⟨f l.line, l.text⟩

theorem LogicalLine.finish_renumber (f : Nat → Nat) (p : LogicalLine) :
    (p.renumber f).finish = p.finish.map (renumber f) := by
  rw [finish_eq, finish_eq, renumber]
  split <;> rfl

/-- Lines whose numbers follow each other under `f` too are read as before, under these numbers. -/
theorem logicalLinesFrom_renumber {f : Nat → Nat} {n : Nat}
    (steps : ∀ m, n ≤ m → f (m + 1) = f m + 1) (s : Option LogicalLine) (ls : List Text) :
    logicalLinesFrom (f n) (s.map (LogicalLine.renumber f)) ls =
      (logicalLinesFrom n s ls).map (LogicalLine.renumber f) := by
  -- Line numbers are handed on, and nothing depends on them.
  induction ls generalizing n s with
  | nil =>
    cases s with
    | none => rfl
    | some p => exact p.finish_renumber f
  | cons l ls ih =>
    have next : f n + 1 = f (n + 1) := (steps n (Nat.le_refl n)).symm
    have rest (s : Option LogicalLine) := ih (fun m le => steps m (Nat.le_of_succ_le le)) s
    cases s with
    | none =>
      simp only [Option.map_none, logicalLinesFrom, next]
      split
      · rw [List.map_cons, ← rest]
        rfl
      · split
        · rw [← rest]
          rfl
        · rw [List.map_append, ← rest, ← LogicalLine.finish_renumber]
          rfl
    | some p =>
      simp only [Option.map_some, logicalLinesFrom, next]
      split
      · rw [← rest]
        rfl
      · split
        · rw [← rest]
          rfl
        · rw [List.map_append, ← rest, ← LogicalLine.finish_renumber]
          rfl

/-! ## What holds of logical lines -/

/-- The text of the line that is continued, if there is one. -/
def pendingText (s : Option LogicalLine) : Text := (s.map LogicalLine.text).getD []

theorem pendingText_some (p : LogicalLine) : pendingText (some p) = p.text := rfl

theorem logicalLinesFrom_nil (n : Nat) (s : Option LogicalLine) :
    logicalLinesFrom n s [] =
      LogicalLine.finish ⟨(s.map LogicalLine.line).getD n, pendingText s⟩ := by
  cases s <;> rfl

/-- A line that is no comment is blank, or it is continued, or it ends a logical line. -/
theorem logicalLinesFrom_cons {l : Text} (code : isComment l = false) (n : Nat)
    (s : Option LogicalLine) (ls : List Text) :
    logicalLinesFrom n s (l :: ls) =
      if trim l = [] then logicalLinesFrom (n + 1) s ls
      else
        match continued? (trim l) with
        | some head =>
          logicalLinesFrom (n + 1)
            (some ⟨(s.map LogicalLine.line).getD n, pendingText s ++ (head ++ [' '])⟩) ls
        | none =>
          LogicalLine.finish ⟨(s.map LogicalLine.line).getD n, pendingText s ++ trim l⟩ ++
            logicalLinesFrom (n + 1) none ls := by
  rw [← startsComment_trim] at code
  by_cases blank : trim l = []
  · cases s <;> simp [logicalLinesFrom, blank, startsComment, continued?, dropSuffix?, dropPrefix?,
      LogicalLine.finish_eq, show trim [] = [] from rfl]
  · rw [if_neg blank]
    cases found : continued? (trim l) <;> cases s <;>
      simp [logicalLinesFrom, blank, code, pendingText, found]

theorem LogicalLine.forall_mem_finish {R : Text → Prop} {p : LogicalLine} (h : R (trim p.text)) :
    ∀ r ∈ p.finish, r.text ≠ [] ∧ trim r.text = r.text ∧ R r.text := by
  intro r member
  rw [finish_eq] at member
  split at member
  · cases member
  · next filled =>
    rw [List.mem_singleton.1 member]
    exact ⟨filled, trim_trim p.text, h⟩

/-- Of a text without comments, a property of logical lines follows from what is kept while
continued lines are joined: by the next continued line, by the line that ends a logical line, and
by the end of the text. -/
theorem forall_mem_logicalLinesFrom {Q R : Text → Prop} {ls : List Text}
    (code : ∀ l ∈ ls, isComment l = false)
    (continued : ∀ q, Q q → ∀ l ∈ ls, ∀ head, continued? (trim l) = some head →
      Q (q ++ (head ++ [' '])))
    (closed : ∀ q, Q q → ∀ l ∈ ls, continued? (trim l) = none → R (trim (q ++ trim l)))
    (ended : ∀ q, Q q → R (trim q)) (start : Q []) (n : Nat) {s : Option LogicalLine}
    (pending : Q (pendingText s)) :
    ∀ r ∈ logicalLinesFrom n s ls, r.text ≠ [] ∧ trim r.text = r.text ∧ R r.text := by
  induction ls generalizing n s with
  | nil =>
    rw [logicalLinesFrom_nil]
    exact LogicalLine.forall_mem_finish (ended _ pending)
  | cons l ls ih =>
    have rest {n : Nat} {s : Option LogicalLine} (pending : Q (pendingText s)) :=
      ih (fun m member => code m (List.mem_cons_of_mem l member))
        (fun q hq m member => continued q hq m (List.mem_cons_of_mem l member))
        (fun q hq m member => closed q hq m (List.mem_cons_of_mem l member)) n pending
    rw [logicalLinesFrom_cons (code l List.mem_cons_self)]
    split
    · exact rest pending
    · split
      · next head found => exact rest (continued _ pending l List.mem_cons_self head found)
      · next found =>
        intro r member
        rcases List.mem_append.1 member with member | member
        · exact LogicalLine.forall_mem_finish (closed _ pending l List.mem_cons_self found) r member
        · exact rest (s := none) start r member

theorem continued?_trim_sublist {l head : Text} (h : continued? (trim l) = some head) :
    head.Sublist l := by
  obtain ⟨b, split, -⟩ := exists_of_continued? h
  have whole := stripWhile_sublist isSpace l
  change (trim l).Sublist l at whole
  rw [split] at whole
  exact (List.sublist_append_left head _).trans whole

theorem isComment_append_eq_false {a b : Text} (ha : isComment a = false)
    (hb : isComment b = false) : isComment (a ++ b) = false := by
  rw [isComment_append]
  split <;> assumption

theorem isComment_of_continued? {l head : Text} (h : continued? (trim l) = some head)
    (code : isComment l = false) : isComment head = false := by
  obtain ⟨b, whole, -⟩ := exists_of_continued? h
  rw [← isComment_trim, whole, isComment_append] at code
  split at code
  · next spaces => exact isComment_of_spaces spaces
  · exact code

/-- The characters of logical lines are those of the physical lines, and spaces. -/
theorem forall_mem_text_logicalLinesFrom {P : Char → Prop} {ls : List Text} (space : P ' ')
    (chars : ∀ l ∈ ls, ∀ c ∈ l, P c) (code : ∀ l ∈ ls, isComment l = false) (n : Nat) :
    ∀ r ∈ logicalLinesFrom n none ls, ∀ c ∈ r.text, P c := by
  have trimmed {x : Text} (h : ∀ c ∈ x, P c) : ∀ c ∈ trim x, P c := fun c member =>
    h c ((stripWhile_sublist isSpace x).subset member)
  have joined {x y : Text} (hx : ∀ c ∈ x, P c) (hy : ∀ c ∈ y, P c) : ∀ c ∈ x ++ y, P c :=
    List.forall_mem_append.2 ⟨hx, hy⟩
  refine fun r member => (forall_mem_logicalLinesFrom (Q := fun q => ∀ c ∈ q, P c)
    (R := fun q => ∀ c ∈ q, P c) code ?_ ?_ ?_ ?_ n ?_ r member).2.2
  · intro q hq l line head found
    have head : ∀ c ∈ head, P c := fun c inside =>
      chars l line c ((continued?_trim_sublist found).subset inside)
    exact joined hq (joined head (by simpa using space))
  · exact fun q hq l line _ => trimmed (joined hq (trimmed (chars l line)))
  · exact fun q hq => trimmed hq
  · exact List.forall_mem_nil _
  · exact List.forall_mem_nil _

/-- A text as it can be a logical line of a text without comments. -/
structure IsLogicalText (r : Text) : Prop where
  filled : r ≠ []
  oneLine : '\n' ∉ r
  trimmed : trim r = r
  code : isComment r = false

theorem isLogicalText_of_mem {ls : List Text} (oneLine : ∀ l ∈ ls, '\n' ∉ l)
    (code : ∀ l ∈ ls, isComment l = false) (n : Nat) :
    ∀ r ∈ logicalLinesFrom n none ls, IsLogicalText r.text := by
  intro r member
  have chars := forall_mem_text_logicalLinesFrom (P := (· ≠ '\n')) (by decide)
    (fun l line c inside same => oneLine l line (same ▸ inside)) code n r member
  obtain ⟨filled, trimmed, notComment⟩ := forall_mem_logicalLinesFrom
    (Q := fun q => isComment q = false) (R := fun q => isComment q = false) (s := none) code
    (fun q hq l line head found => isComment_append_eq_false hq <|
      isComment_append_eq_false (isComment_of_continued? found (code l line)) rfl)
    (fun q hq l line _ => by
      rw [isComment_trim]
      exact isComment_append_eq_false hq (by rw [isComment_trim, code l line]))
    (fun q hq => by rw [isComment_trim, hq]) rfl n rfl r member
  exact ⟨filled, fun inside => chars _ inside rfl, trimmed, notComment⟩

/-- Lines that are no comments and not continued are the logical lines, up to white space at their
ends. -/
theorem map_text_logicalLinesFrom {ls : List Text}
    (whole : ∀ l ∈ ls, isComment l = false ∧ (trim l).getLast? ≠ some '\\') (n : Nat) :
    (logicalLinesFrom n none ls).map LogicalLine.text =
      (ls.map trim).filter fun l => !l.isEmpty := by
  induction ls generalizing n with
  | nil => rfl
  | cons l ls ih =>
    -- Of the four ways to go on, only that of a line on its own is open.
    obtain ⟨code, closed⟩ := whole l List.mem_cons_self
    rw [logicalLinesFrom, startsComment_trim, code, if_neg Bool.false_ne_true,
      continued?_eq_none_iff.2 closed]
    dsimp only
    have rest := ih fun m member => whole m (List.mem_cons_of_mem l member)
    rw [List.map_append, rest, List.map_cons, LogicalLine.finish]
    simp only [trim_trim]
    cases h : (trim l).isEmpty <;> simp [h]

theorem logicalLines_normalize (t : Text) :
    logicalLines (normalize t) = logicalLinesFrom 1 none (normalLines t) := by
  by_cases h : normalLines t = []
  · rw [normalize_eq, h]
    rfl
  · rw [logicalLines_eq, pieces_normalize h]

/-- The logical lines of a laid out text are its lines, up to white space at their ends. -/
theorem map_text_logicalLines {t : Text}
    (closed : ∀ m ∈ normalLines t, (trim m).getLast? ≠ some '\\') :
    (logicalLines (normalize t)).map LogicalLine.text =
      ((normalLines t).map trim).filter fun l => !l.isEmpty := by
  rw [logicalLines_normalize]
  refine map_text_logicalLinesFrom (fun m member => ⟨?_, closed m member⟩) 1
  exact ((isLayout_normalLines t).neat m member).code

end ImageAudit
