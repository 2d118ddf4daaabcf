import ImageAudit.Policy.Basic
import ImageAudit.Proofs.Statement.Agreement
import ImageAudit.Proofs.Statement.LineByLine

/-!
# Opening a file

A file is taken for empty if nothing is left of it when it has been laid out. Laying out takes only
blanks off the ends of lines, while reading passes over all white space and over a backslash that
continues nothing. So there are files that are not empty and have no statement.

* `logicalLinesFrom_eq_nil_iff`: which lines make no logical line.
* `readAll_normalize_eq_nil_iff`: which texts have no statement.
* `Dockerfile.opensFilled_iff`: when an opened file has one, if it is opened at all.
-/

namespace ImageAudit

open Text Layout

/-! ## Lines that hold nothing -/

/-- Whether a line has no words, or nothing but a backslash. -/
def IsIdle (l : Text) : Prop := words l = [] ∨ words l = ["\\".toList]

/-- Whether a text holds no instruction: once continued lines are joined, each line is a comment,
blank or a backslash alone. -/
def HoldsNothing (t : Text) : Prop :=
  ∀ l ∈ pieces '\n' (joinContinuations (unifyBreaks t)), isComment l = true ∨ IsIdle l

instance decidableIsIdle (l : Text) : Decidable (IsIdle l) :=
  inferInstanceAs (Decidable (_ ∨ _))

instance decidableHoldsNothing (t : Text) : Decidable (HoldsNothing t) :=
  inferInstanceAs (Decidable (∀ l ∈ pieces _ _, _ ∨ _))

variable {l t : Text} {ls : List Text}

theorem forall_isIdle_iff : (∀ l ∈ ls, IsIdle l) ↔ ∀ ws ∈ rows ls, ws = ["\\".toList] := by
  constructor
  · intro idle ws row
    obtain ⟨line, filled⟩ := List.mem_filter.1 row
    obtain ⟨l, inside, rfl⟩ := List.mem_map.1 line
    exact (idle l inside).resolve_left (by simpa using filled)
  · intro single l inside
    by_cases blank : words l = []
    · exact .inl blank
    · exact .inr (single _ (mem_rows inside blank))

/-- What holds nothing is laid out in lines that hold nothing. -/
theorem holdsNothing_iff : HoldsNothing t ↔ ∀ l ∈ arrangedLines t, IsIdle l := by
  rw [forall_isIdle_iff, rows_arrangedLines_eq_filter]
  constructor
  · intro nothing ws row
    obtain ⟨row, code⟩ := List.mem_filter.1 row
    obtain ⟨line, filled⟩ := List.mem_filter.1 row
    obtain ⟨l, inside, rfl⟩ := List.mem_map.1 line
    rw [← isComment_eq] at code
    have idle := (nothing l inside).resolve_left (by simpa using code)
    exact idle.resolve_left (by simpa using filled)
  · intro single l inside
    by_cases comment : isComment l = true
    · exact .inl comment
    · by_cases blank : words l = []
      · exact .inr (.inl blank)
      · refine .inr (.inr (single _ (List.mem_filter.2 ⟨mem_rows inside blank, ?_⟩)))
        rw [← isComment_eq]
        simpa using comment

/-- A line that sets variables has a word. -/
theorem not_isIdle_of_isEnvLine (env : isEnvLine l = true) : ¬ IsIdle l := by
  obtain ⟨r, found⟩ := Option.isSome_iff_exists.1 env
  obtain ⟨w, rfl, hw⟩ := exists_of_dropWord? found
  obtain ⟨c, w, rfl, first, -⟩ := List.map_eq_cons_iff.1 hw
  have solid : isSpace c = false := by
    by_contra space
    rw [toLower_of_isSpace (by simpa using space)] at first
    exact space (by rw [first]; decide)
  rw [IsIdle, List.cons_append, words_of_not_isSpace solid]
  rintro (none | single)
  · cases none
  · rw [(List.cons.inj (List.cons.inj single).1).1] at first
    exact absurd first (by decide)

theorem forall_isIdle_normalLines_iff :
    (∀ l ∈ normalLines t, IsIdle l) ↔ ∀ l ∈ arrangedLines t, IsIdle l := by
  by_cases env : ∃ l ∈ arrangedLines t, isEnvLine l = true
  · -- A line that sets variables stays as it is.
    obtain ⟨l, inside, env⟩ := env
    have kept : l ∈ normalLines t := List.mem_map.2 ⟨l, inside, by rw [substituteIn, if_pos env]⟩
    have filled := not_isIdle_of_isEnvLine env
    exact iff_of_false (fun idle => filled (idle l kept)) fun idle => filled (idle l inside)
  · have no_env : ∀ l ∈ arrangedLines t, isEnvLine l = false := fun l inside =>
      Bool.eq_false_iff.2 fun sets => env ⟨l, inside, sets⟩
    have same : normalLines t = arrangedLines t := by
      rw [normalLines, variablesOf_arrange_eq_nil no_env]
      exact map_eq_self_iff.2 fun l _ => substituteIn_nil l
    rw [same]

/-! ## Logical lines -/

/-- What is continued holds nothing exactly if it is a backslash alone. -/
theorem words_eq_nil_iff_of_continued? {head : Text} (found : continued? (trim l) = some head) :
    words head = [] ↔ words l = ["\\".toList] := by
  obtain ⟨b, whole, spaces⟩ := exists_of_continued? found
  constructor
  · intro none
    rw [← words_trim, whole, words_spaces_append (words_eq_nil_iff.1 none),
      words_spaces_append spaces]
    rfl
  · intro single
    rw [trim_eq_of_words_eq single] at whole
    have lengths := congrArg List.length whole
    simp only [List.length_append, List.length_cons, List.length_nil] at lengths
    have none : head = [] := List.length_eq_zero_iff.1 (by omega)
    rw [none]
    rfl

theorem LogicalLine.finish_eq_nil_iff {p : LogicalLine} : p.finish = [] ↔ words p.text = [] := by
  rw [finish_eq, ← trim_eq_nil_iff]
  split
  · next blank => exact iff_of_true rfl blank
  · next filled => exact iff_of_false (List.cons_ne_nil _ _) filled

/-- Lines without comments make no logical line exactly if all of them hold nothing and nothing is
pending. -/
theorem logicalLinesFrom_eq_nil_iff (code : ∀ l ∈ ls, isComment l = false) (n : Nat)
    (s : Option LogicalLine) :
    logicalLinesFrom n s ls = [] ↔ words (pendingText s) = [] ∧ ∀ l ∈ ls, IsIdle l := by
  induction ls generalizing n s with
  | nil =>
    rw [logicalLinesFrom_nil, LogicalLine.finish_eq_nil_iff]
    simp
  | cons l ls ih =>
    have rest := ih fun m inside => code m (List.mem_cons_of_mem l inside)
    rw [logicalLinesFrom_cons (code l List.mem_cons_self), List.forall_mem_cons]
    by_cases blank : trim l = []
    · have idle : IsIdle l := .inl (trim_eq_nil_iff.1 blank)
      rw [if_pos blank, rest]
      simp only [idle, true_and]
    · have filled : words l ≠ [] := mt trim_eq_nil_iff.2 blank
      rw [if_neg blank]
      cases found : continued? (trim l) with
      | none =>
        have other : ¬ IsIdle l := by
          rintro (none | single)
          · exact filled none
          · rw [trim_eq_of_words_eq single] at found
            cases found
        have solid : words (trim l) ≠ [] := by rwa [words_trim]
        simp [LogicalLine.finish_eq_nil_iff, words_append_eq_nil_iff, other, filled]
      | some head =>
        have space : words [' '] = [] := rfl
        have idle : IsIdle l ↔ words head = [] := by
          rw [words_eq_nil_iff_of_continued? found]
          exact or_iff_right filled
        dsimp only
        rw [rest, pendingText_some, words_append_eq_nil_iff, words_append_eq_nil_iff, idle]
        simp [space, and_assoc]

/-! ## Statements -/

theorem Statement.readLines_eq_nil_iff {ls : List LogicalLine} :
    readLines ls = .ok [] ↔ ls = [] := by
  constructor
  · intro read
    cases forall₂_of_readLines read
    rfl
  · rintro rfl
    rfl

/-- A text is read as no statement at all exactly if it holds nothing. -/
theorem readAll_normalize_eq_nil_iff :
    Statement.readAll (normalize t) = .ok [] ↔ HoldsNothing t := by
  have code : ∀ l ∈ normalLines t, isComment l = false := fun l inside =>
    ((isLayout_normalLines t).neat l inside).code
  have none : words (pendingText none) = [] := rfl
  rw [Statement.readAll, Statement.readLines_eq_nil_iff, logicalLines_normalize,
    logicalLinesFrom_eq_nil_iff code, holdsNothing_iff, forall_isIdle_normalLines_iff]
  exact and_iff_right none

example : Statement.readAll (normalize "# a\n\r\r\r\n\\".toList) = .ok [] := by decide

/-- Nothing is left of a text that holds nothing, if all its white space is spaces, tabs and line
feeds and it does not end in a backslash when it has been laid out. -/
theorem normalize_eq_nil_of_holdsNothing
    (spaces : ∀ c ∈ t, isSpace c = true → isBlank c = true ∨ c = '\n')
    (closed : (normalize t).getLast? ≠ some '\\') (nothing : HoldsNothing t) :
    normalize t = [] := by
  rw [holdsNothing_iff, ← forall_isIdle_normalLines_iff] at nothing
  -- Every line that is left is a single line, so that it cannot hold nothing.
  have none : normalLines t = [] := by
    refine List.eq_nil_iff_forall_not_mem.2 fun l inside => ?_
    have line := isSingleLine_of_mem_normalLines spaces closed inside
    rcases nothing l inside with blank | single
    · exact line.filled (line.trimmed.symm.trans (trim_eq_nil_iff.2 blank))
    · rw [← line.trimmed, trim_eq_of_words_eq single] at line
      exact line.closed rfl
  rw [normalize_eq, none]
  rfl

namespace Dockerfile

variable {path : Text}

/-- Whether an opened file has a statement, and a file that holds nothing is refused. -/
structure OpensFilled (path t : Text) : Prop where
  filled : ∀ d, ofFile path t = .ok d → d.statements ≠ []
  refused : HoldsNothing t → ∃ e, ofFile path t = .error e ∧
    (e = .emptyFile path ∨ ∃ line message, e = .malformed line message)

/-- A file without statements holds nothing, and then it is refused if laying out leaves nothing. -/
theorem opensFilled_of_emptied (emptied : HoldsNothing t → normalize t = []) :
    OpensFilled path t := by
  refine ⟨fun d opened none => ?_, fun nothing => ⟨.emptyFile path, ?_, .inl rfl⟩⟩
  · have read := readAll_of_ofFile opened
    rw [none, readAll_normalize_eq_nil_iff] at read
    rw [ofFile, emptied read] at opened
    cases opened
  · rw [ofFile, emptied nothing]
    rfl

/-- Files that have a statement if they are opened are those that hold something or have nothing
left when they are laid out. The latter holds of every file that holds nothing if all its white
space is spaces, tabs and line feeds and its laid out text does not end in a backslash. -/
theorem opensFilled_iff :
    (OpensFilled path t ↔ (HoldsNothing t → normalize t = [])) ∧
      ((∀ c ∈ t, isSpace c = true → isBlank c = true ∨ c = '\n') →
        (normalize t).getLast? ≠ some '\\' → OpensFilled path t) := by
  refine ⟨⟨fun opens nothing => ?_, opensFilled_of_emptied⟩, fun spaces closed => ?_⟩
  · by_contra filled
    have opened : ofFile path t = .ok ⟨some path, []⟩ := by
      rw [ofFile, if_neg (by simpa using filled), readAll_normalize_eq_nil_iff.2 nothing]
    exact opens.filled _ opened rfl
  · exact opensFilled_of_emptied (normalize_eq_nil_of_holdsNothing spaces closed)

/-- A no-break space is opened as a file without statements, and it passes where only tags are
looked at. -/
theorem opens_no_break_space :
    let text := "\u00a0".toList
    let path := "Dockerfile".toList
    let policy : Policy := ⟨[.forbidTags ["latest".toList]]⟩
    HoldsNothing text ∧ ¬ OpensFilled path text ∧ ∃ d, ofFile path text = .ok d ∧
      d.statements = [] ∧ (policy.evaluate d).verdict = .pass := by
  intro text path policy
  have opened : ofFile path text = .ok ⟨some path, []⟩ := by decide
  exact ⟨by decide, fun opens => opens.filled _ opened rfl, _, opened, rfl, by decide⟩

end Dockerfile

end ImageAudit
