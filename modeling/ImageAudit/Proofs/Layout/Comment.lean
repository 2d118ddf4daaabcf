import ImageAudit.Layout.Substitution
import ImageAudit.Proofs.Layout.Arrange

/-!
# Comment lines and what follows them

Where no continuation is open, a comment line can be taken out of a text without changing what the
text is laid out as, unless the comment itself ends in a backslash: then the line after it becomes
part of the comment and is lost.

* `codeLines_append`: what stands before the end of a line that is not continued adds the same lines
  whatever follows it.
* `normalize_comment_line_iff`: a comment line is without effect for all that may follow it exactly
  if it does not end in a backslash.
-/

namespace ImageAudit.Layout

open Text

/-! ## Texts that meet at the end of a line -/

/-- The last line of a text is neither blank nor continued on the next one. -/
def IsComplete (a : Text) : Prop :=
  ∃ l, (pieces '\n' a).getLast? = some l ∧ l.all isFiller = false ∧ endsInBackslash l = false

theorem passesAfter_of_isComplete {a : Text} (complete : IsComplete a) :
    passesAfter false (unlines ((pieces '\n' a).map dropReturn) ++ ['\n']) = false := by
  obtain ⟨l, last, solid, closed⟩ := complete
  have hne : (pieces '\n' a).map dropReturn ≠ [] := by simp [pieces_ne_nil]
  have oneLine : ∀ m ∈ (pieces '\n' a).map dropReturn, '\n' ∉ m := by
    intro m member
    obtain ⟨k, source, rfl⟩ := List.mem_map.1 member
    exact fun inside => notMem_of_mem_pieces source ((dropReturn_sublist k).subset inside)
  apply passesAfter_eq_false (l := dropReturn l)
  · rw [pieces_unlines oneLine hne, List.getLast?_map, last]
    rfl
  · rw [all_isFiller_dropReturn, solid]
  · rw [endsInBackslash_dropReturn, closed]

theorem unifyBreaks_concat (a : Text) :
    unifyBreaks (a ++ ['\n']) = unlines ((pieces '\n' a).map dropReturn) ++ ['\n'] :=
  unifyBreaks_append a []

/-- Texts that meet at the end of a line where no continuation is open add their lines apart from
each other. -/
theorem codeLines_append {a : Text} (closed : passesAfter false (unifyBreaks (a ++ ['\n'])) = false)
    (b : Text) :
    codeLines (joinContinuations (unifyBreaks (a ++ '\n' :: b))) =
      codeLines (joinContinuations (unifyBreaks (a ++ ['\n']))) ++
        codeLines (joinContinuations (unifyBreaks b)) := by
  have none : lines [] = [] := rfl
  rw [unifyBreaks_concat] at closed ⊢
  rw [unifyBreaks_append, joinContinuations, joinContinuationsFrom_append, closed,
    joinContinuations, joinContinuationsFrom_concat closed, List.append_assoc,
    List.singleton_append, codeLines, codeLines, lines_append, lines_append, none, List.append_nil,
    List.filter_append]
  rfl

/-- What stands before the end of a complete line adds the same lines whatever follows. -/
theorem exists_codeLines_append {a : Text} (complete : IsComplete a) :
    ∃ ls, ∀ b, codeLines (joinContinuations (unifyBreaks (a ++ '\n' :: b))) =
      ls ++ codeLines (joinContinuations (unifyBreaks b)) := by
  have closed := passesAfter_of_isComplete complete
  rw [← unifyBreaks_concat] at closed
  exact ⟨_, codeLines_append closed⟩

/-! ## Comment lines -/

/-- A comment line that does not end in a backslash adds no line. -/
theorem codeLines_comment {c : Text} (oneLine : '\n' ∉ c) (comment : isComment c = true)
    (closed : endsInBackslash c = false) (b : Text) :
    codeLines (joinContinuations (unifyBreaks (c ++ '\n' :: b))) =
      codeLines (joinContinuations (unifyBreaks b)) := by
  have free : '\n' ∉ dropReturn c := fun inside => oneLine ((dropReturn_sublist c).subset inside)
  -- A carriage return at its end makes no difference, neither to the comment nor to its backslash.
  have closed' : endsInBackslash (dropReturn c) = false := by
    rw [endsInBackslash_dropReturn, closed]
  have comment' : isComment (dropReturn (dropReturn c)) = true := by
    rw [isComment_dropReturn, isComment_dropReturn, comment]
  rw [unifyBreaks_append, pieces_of_notMem oneLine, List.map_singleton, unlines_singleton,
    joinContinuations, joinContinuationsFrom_closed free closed', codeLines, lines_append,
    pieces_of_notMem free, List.map_singleton, List.filter_append, List.filter_singleton, comment']
  rfl

/-- A comment line that ends in a backslash takes the next line along. -/
theorem codeLines_continued_comment {c : Text} (oneLine : '\n' ∉ c) (comment : isComment c = true)
    (continued : endsInBackslash c = true) {x : Char} (hx : isPassedOver x = false) :
    codeLines (joinContinuations (unifyBreaks (c ++ '\n' :: [x]))) = [] := by
  have free : '\n' ∉ dropReturn c := fun inside => oneLine ((dropReturn_sublist c).subset inside)
  obtain ⟨head, fillers, split, hf⟩ := endsInBackslash_eq_true_iff.1
    ((endsInBackslash_dropReturn c).trans continued)
  have alone : unifyBreaks [x] = [x] := by simp [unifyBreaks]
  have kept : joinContinuationsFrom true [x] = [x] := by
    simp [joinContinuationsFrom, hx, endsLine]
  have notNewline : '\n' ≠ x := by
    rintro rfl
    exact absurd hx (by decide)
  have freeHead : '\n' ∉ head := fun inside =>
    free (by rw [split]; exact List.mem_append_left _ inside)
  have free' : '\n' ∉ head ++ [' ', x] := by simp [freeHead, notNewline]
  -- The number sign stands before the backslash, so that the joined line is a comment too.
  have comment' : isComment (head ++ [' ', x]) = true := by
    have := isComment_dropReturn c
    rw [split, comment, isComment_append] at this
    rw [isComment_append]
    split at this
    · rw [isComment_cons, if_neg (by decide)] at this
      exact absurd this (by decide)
    · next filled => rw [if_neg filled, this]
  rw [unifyBreaks_append, pieces_of_notMem oneLine, List.map_singleton, unlines_singleton, alone,
    joinContinuations, split, List.append_assoc, List.cons_append,
    joinContinuationsFrom_continued freeHead hf, kept, codeLines, lines_of_notMem free' (by simp),
    List.filter_singleton, comment']
  rfl

/-! ## Laying out -/

theorem isEnvLine_singleton (x : Char) : isEnvLine [x] = false := by
  have : envBody? [x] = none := by
    change (if 'E'.toLower = x.toLower then _ else none) = none
    split <;> rfl
  rw [isEnvLine, this]
  rfl

/-- A last line of one letter stays the last line. -/
theorem getLast?_normalize {t : Text} {ls : List Text} {x : Char}
    (last : codeLines (joinContinuations (unifyBreaks t)) = ls ++ [[x]])
    (notBlank : isBlank x = false) (notDollar : x ≠ '$') :
    (normalize t).getLast? = some x := by
  have polished : polishLines [[x]] = [[x]] := by
    simp [polishLines, trimBlanks, stripWhile, dropEndWhile, squeezeSpaces, notBlank]
  have lines : arrangedLines t = polishLines (ls.map dropReturn) ++ [[x]] := by
    rw [arrangedLines, last, finishLines_append ls (List.cons_ne_nil [x] []), polishLines_append]
    exact congrArg (_ ++ ·) polished
  have cut : pieces '\n' (arrange t) = polishLines (ls.map dropReturn) ++ [[x]] := by
    rw [pieces_arrange (by simp [lines]), lines]
  have kept (vars : Variables) : substituteLine vars [x] = [x] := by
    simp [substituteLine, substituteFrom, notDollar]
  rw [normalize, substitute, cut, List.map_append, List.map_singleton, isEnvLine_singleton]
  simp only [Bool.false_eq_true, if_false, kept]
  rw [getLast?_unlines_concat _ (List.cons_ne_nil x [])]
  rfl

theorem normalize_eq_of_arrangedLines {t u : Text} (h : arrangedLines t = arrangedLines u) :
    normalize t = normalize u := by
  rw [normalize, normalize, arrange_eq, arrange_eq, h]

theorem normalize_eq_of_codeLines {t u : Text}
    (h : codeLines (joinContinuations (unifyBreaks t)) =
      codeLines (joinContinuations (unifyBreaks u))) : normalize t = normalize u :=
  normalize_eq_of_arrangedLines (by rw [arrangedLines, arrangedLines, h])

/-- After a complete line, a comment line can be taken out whatever follows it, exactly if it does
not end in a backslash. -/
theorem normalize_comment_line_iff {a c : Text} (complete : IsComplete a) (oneLine : '\n' ∉ c)
    (comment : isComment c = true) :
    (∀ b, normalize (a ++ '\n' :: (c ++ '\n' :: b)) = normalize (a ++ '\n' :: b)) ↔
      endsInBackslash c = false := by
  obtain ⟨ls, before⟩ := exists_codeLines_append complete
  constructor
  · intro same
    by_contra continued
    rw [Bool.not_eq_false] at continued
    -- The comment swallows a letter after it, which would be the last of the text otherwise.
    have lost (x : Char) (hx : isPassedOver x = false) :
        codeLines (joinContinuations (unifyBreaks (a ++ '\n' :: (c ++ '\n' :: [x])))) = ls := by
      rw [before, codeLines_continued_comment oneLine comment continued hx, List.append_nil]
    have equal : normalize (a ++ '\n' :: ['x']) = normalize (a ++ '\n' :: ['y']) := by
      rw [← same ['x'], ← same ['y']]
      apply normalize_eq_of_codeLines
      rw [lost 'x' (by decide), lost 'y' (by decide)]
    have lastX : (normalize (a ++ '\n' :: ['x'])).getLast? = some 'x' :=
      getLast?_normalize (before ['x']) (by decide) (by decide)
    have lastY : (normalize (a ++ '\n' :: ['y'])).getLast? = some 'y' :=
      getLast?_normalize (before ['y']) (by decide) (by decide)
    rw [equal, lastY] at lastX
    exact absurd lastX (by decide)
  · intro closed b
    apply normalize_eq_of_codeLines
    rw [before, before, codeLines_comment oneLine comment closed]

theorem normalize_plain_comment_line :
    (∀ b, normalize ("FROM a".toList ++ '\n' :: ("# base".toList ++ '\n' :: b)) =
      normalize ("FROM a".toList ++ '\n' :: b)) ↔ endsInBackslash "# base".toList = false := by
  have complete : IsComplete "FROM a".toList := ⟨"FROM a".toList, by decide, by decide, by decide⟩
  exact normalize_comment_line_iff complete (by decide) (by decide)

/-- A comment that ends in a backslash hides the instruction after it. -/
theorem continued_comment_hides_instruction :
    normalize "FROM a\n# base \\\nUSER root".toList = "FROM a".toList ∧
      normalize "FROM a\nUSER root".toList = "FROM a\nUSER root".toList := by
  decide

end ImageAudit.Layout
