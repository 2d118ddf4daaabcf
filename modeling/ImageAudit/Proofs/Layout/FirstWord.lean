import ImageAudit.Proofs.Instruction.KeywordCase
import ImageAudit.Proofs.Layout.Comment
import ImageAudit.Proofs.Layout.Spaces
import ImageAudit.Proofs.Layout.Stability

/-!
# First words

Where no continuation is open, laying out a text keeps the first word of the next line at the
beginning of a line. What it makes of the text before this word and of the text after it does not
depend on the word.

* `exists_arrangedLines_append`, `exists_normalLines_append`: the lines before and after, and what
  stands on the line with the word.
-/

namespace ImageAudit

open Text

namespace Layout

/-! ## The passes -/

/-- White space on one line. -/
structure IsMargin (s : Text) : Prop where
  spaces : s.all isSpace = true
  oneLine : '\n' ∉ s

/-- A word in which no pass finds anything to change. -/
structure IsPlainWord (w : Text) : Prop where
  filled : w ≠ []
  plain : ∀ c ∈ w, isSpace c = false ∧ c ≠ '#' ∧ c ≠ '\\' ∧ c ≠ '$'

variable {s w r : Text}

theorem IsPlainWord.solid (h : IsPlainWord w) {c : Char} (inside : c ∈ w) : isSpace c = false :=
  (h.plain c inside).1

theorem isPlainWord_of_spells {k : Kind} (h : k.Spells w) : IsPlainWord w :=
  ⟨h.plain.1, h.plain.2⟩

theorem IsMargin.append_ne (hs : IsMargin s) (hw : IsPlainWord w) {c : Char} (inside : c ∈ s ++ w) :
    c ≠ '\n' ∧ c ≠ '\\' ∧ c ≠ '$' := by
  rcases List.mem_append.1 inside with inside | inside
  · have space := List.all_eq_true.1 hs.spaces c inside
    refine ⟨fun same => hs.oneLine (same ▸ inside), ?_, ?_⟩ <;>
      · rintro rfl
        exact absurd space (by decide)
  · refine ⟨?_, (hw.plain c inside).2.2.1, (hw.plain c inside).2.2.2⟩
    rintro rfl
    exact absurd (hw.solid inside) (by decide)

theorem unifyBreaks_append_of_notMem {a : Text} (oneLine : '\n' ∉ a)
    (last : a.getLast? ≠ some '\r') (b : Text) : unifyBreaks (a ++ b) = a ++ unifyBreaks b := by
  induction a with
  | nil => rfl
  | cons c a ih =>
    rw [List.mem_cons, not_or] at oneLine
    have single : ∀ t, c = '\r' → a ++ b ≠ '\n' :: t := by
      rintro t rfl same
      cases a with
      | nil => exact last rfl
      | cons d a =>
        obtain ⟨rfl, -⟩ := List.cons.inj same
        exact oneLine.2 List.mem_cons_self
    have last : a.getLast? ≠ some '\r' := by
      intro same
      rw [List.getLast?_cons, same] at last
      exact last rfl
    rw [List.cons_append, unifyBreaks, ih oneLine.2 last, List.cons_append]
    exact single

theorem joinContinuationsFrom_append_of_notMem {a : Text} (plain : '\\' ∉ a) (b : Text) :
    joinContinuationsFrom false (a ++ b) = a ++ joinContinuationsFrom false b := by
  induction a with
  | nil => rfl
  | cons c a ih =>
    rw [List.mem_cons, not_or] at plain
    have kept : (c == '\\') = false := beq_eq_false_iff_ne.2 (Ne.symm plain.1)
    rw [List.cons_append, joinContinuationsFrom, kept, ih plain.2]
    rfl

theorem dropReturn_append {a : Text} (last : a.getLast? ≠ some '\r') (b : Text) :
    dropReturn (a ++ b) = a ++ dropReturn b := by
  by_cases empty : b = []
  · rw [empty, List.append_nil, dropReturn_eq_self last, dropReturn, List.append_nil]
  · clear last
    induction a with
    | nil => rfl
    | cons c a ih =>
      rw [List.cons_append, dropReturn_cons c (by simp [empty]), ih, List.cons_append]

theorem dropEndWhile_append_of_last {p : Char → Bool} {a : Text}
    (last : ∀ c, a.getLast? = some c → p c = false) (b : Text) :
    dropEndWhile p (a ++ b) = a ++ dropEndWhile p b := by
  obtain ⟨e, he, split⟩ := exists_append_of_dropEndWhile p b
  conv_lhs => rw [split]
  rw [← List.append_assoc, dropEndWhile_append _ he]
  refine dropEndWhile_eq_self fun c h => ?_
  rw [List.getLast?_append] at h
  cases final : (dropEndWhile p b).getLast? with
  | none => exact last c (by rwa [final] at h)
  | some d =>
    rw [final] at h
    cases h
    exact getLast?_dropEndWhile final

/-! ## The text after the word -/

end Layout

namespace EndsWord

open Layout

variable {r q : Text}

theorem of_isPrefix (h : EndsWord r) (before : q <+: r) : EndsWord q := by
  intro c first
  obtain ⟨e, rfl⟩ := before
  exact h c (by rw [List.head?_append, first]; rfl)

theorem unifyBreaks (h : EndsWord r) : EndsWord (unifyBreaks r) := by
  fun_cases Layout.unifyBreaks r with
  | case1 => exact h
  | case2 => rintro c ⟨⟩; decide
  | case3 => rintro c ⟨⟩; exact h _ rfl

theorem joinContinuations (h : EndsWord r) : EndsWord (joinContinuations r) := by
  cases r with
  | nil => exact h
  | cons c r =>
    have kept : (c == '\\') = false := by
      rw [beq_eq_false_iff_ne]
      rintro rfl
      exact absurd (h _ rfl) (by decide)
    rw [Layout.joinContinuations, joinContinuationsFrom, kept]
    rintro d ⟨⟩
    exact h c rfl

theorem exists_pieces (h : EndsWord r) : ∃ q ps, pieces '\n' r = q :: ps ∧ EndsWord q := by
  obtain ⟨q, ps, split⟩ := List.exists_cons_of_ne_nil (pieces_ne_nil '\n' r)
  refine ⟨q, ps, split, h.of_isPrefix ?_⟩
  rw [← unlines_pieces r, split]
  by_cases last : ps = []
  · rw [last, unlines_singleton]
  · rw [unlines_cons q last]
    exact List.prefix_append ..

theorem dropReturn (h : EndsWord r) : EndsWord (dropReturn r) := by
  refine h.of_isPrefix ?_
  rcases eq_dropReturn_or r with same | same
  · rw [← same]
  · conv_rhs => rw [same]
    exact List.prefix_append ..

theorem dropEndWhile (h : EndsWord r) (p : Char → Bool) : EndsWord (dropEndWhile p r) := by
  obtain ⟨e, -, split⟩ := exists_append_of_dropEndWhile p r
  refine h.of_isPrefix ?_
  conv_rhs => rw [split]
  exact List.prefix_append ..

theorem squeezeSpaces (h : EndsWord r) : EndsWord (squeezeSpaces r) := by
  intro c first
  rw [head?_squeezeSpaces] at first
  exact h c first

theorem substituteFrom (h : EndsWord r) (vars : Variables) :
    EndsWord (substituteFrom vars 0 .free r) := by
  cases r with
  | nil => exact h
  | cons c r =>
    have kept : c ≠ '$' := by
      rintro rfl
      exact absurd (h _ rfl) (by decide)
    rw [substituteFrom_cons vars .free kept]
    rintro d ⟨⟩
    exact h c rfl

end EndsWord

namespace Layout

variable {s w r R : Text} {before : List Text}

/-! ## The line with the word -/

theorem IsMargin.of_sublist (h : IsMargin s) {s' : Text} (sub : s'.Sublist s) : IsMargin s' := by
  refine ⟨List.all_eq_true.2 fun c inside => ?_, fun inside => h.oneLine (sub.subset inside)⟩
  exact List.all_eq_true.1 h.spaces c (sub.subset inside)

theorem getLast?_margin_word (hw : IsPlainWord w) {c : Char} (last : (s ++ w).getLast? = some c) :
    isSpace c = false := by
  rw [List.getLast?_append_of_ne_nil _ hw.filled] at last
  exact hw.solid (List.mem_of_getLast? last)

theorem getLast?_margin_word_ne (hw : IsPlainWord w) {c : Char} (space : isSpace c = true) :
    (s ++ w).getLast? ≠ some c := by
  intro last
  rw [getLast?_margin_word hw last] at space
  cases space

/-- Reading lines keeps what stands on the first one before its end. -/
theorem exists_finishLines (ends : EndsWord r) (ps : List Text) :
    ∃ r', EndsWord r' ∧ ∀ w, IsPlainWord w → ∀ s,
      finishLines ((s ++ (w ++ r)) :: ps) = (s ++ (w ++ r')) :: finishLines ps := by
  by_cases last : ps = []
  · refine ⟨r, ends, fun w hw s => ?_⟩
    simp [last, finishLines, hw.filled]
  · refine ⟨dropReturn r, ends.dropReturn, fun w hw s => ?_⟩
    rw [finishLines_cons _ last, ← List.append_assoc,
      dropReturn_append (getLast?_margin_word_ne hw (by decide)), List.append_assoc]

theorem isComment_margin_word (hs : IsMargin s) (hw : IsPlainWord w) (r : Text) :
    isComment (s ++ (w ++ r)) = false := by
  obtain ⟨c, w, rfl⟩ := List.exists_cons_of_ne_nil hw.filled
  have plain := hw.plain c List.mem_cons_self
  rw [isComment_append, if_pos hs.spaces, List.cons_append, isComment_cons, plain.1,
    if_neg Bool.false_ne_true]
  exact beq_eq_false_iff_ne.2 plain.2.1

/-- A text that begins with a word has this word on its first line. -/
theorem exists_codeLines (hs : IsMargin s) (ends : EndsWord R) :
    ∃ r ls, EndsWord r ∧ ∀ w, IsPlainWord w →
      codeLines (joinContinuations (unifyBreaks (s ++ (w ++ R)))) = (s ++ (w ++ r)) :: ls := by
  obtain ⟨q, ps, split, hq⟩ := ends.unifyBreaks.joinContinuations.exists_pieces
  obtain ⟨r, hr, finish⟩ := exists_finishLines hq ps
  refine ⟨r, (finishLines ps).filter fun l => !isComment l, hr, fun w hw => ?_⟩
  have oneLine : '\n' ∉ s ++ w := fun inside => (hs.append_ne hw inside).1 rfl
  have unescaped : '\\' ∉ s ++ w := fun inside => (hs.append_ne hw inside).2.1 rfl
  rw [← List.append_assoc,
    unifyBreaks_append_of_notMem oneLine (getLast?_margin_word_ne hw (by decide)),
    joinContinuations, joinContinuationsFrom_append_of_notMem unescaped, codeLines, lines,
    pieces_append_of_notMem oneLine]
  rw [joinContinuations] at split
  rw [split, List.modifyHead_cons, List.append_assoc, finish w hw, List.filter_cons_of_pos]
  rw [isComment_margin_word hs hw]
  rfl

theorem squeezeSpaces_of_notMem {l : Text} (h : ' ' ∉ l) : squeezeSpaces l = l := by
  induction l with
  | nil => rfl
  | cons c l ih =>
    rw [List.mem_cons, not_or] at h
    rw [squeezeSpaces_cons (.inl (Ne.symm h.1)), ih h.2]

theorem squeezeSpaces_margin_word (hw : IsPlainWord w) (s r : Text) :
    squeezeSpaces (s ++ (w ++ r)) = squeezeSpaces s ++ (w ++ squeezeSpaces r) := by
  have noSpace : ' ' ∉ w := fun inside => absurd (hw.solid inside) (by decide)
  have last : w.getLast? ≠ some ' ' := fun last => noSpace (List.mem_of_getLast? last)
  have first : (w ++ r).head? ≠ some ' ' := by
    obtain ⟨c, w, rfl⟩ := List.exists_cons_of_ne_nil hw.filled
    rintro ⟨⟩
    exact noSpace List.mem_cons_self
  rw [squeezeSpaces_append (.inr first), squeezeSpaces_append (.inl last),
    squeezeSpaces_of_notMem noSpace]

theorem dropWhile_margin_word {p : Char → Bool} (hw : ∀ c ∈ w, p c = false) (filled : w ≠ [])
    (s r : Text) : (s ++ (w ++ r)).dropWhile p = s.dropWhile p ++ (w ++ r) := by
  obtain ⟨c, w, rfl⟩ := List.exists_cons_of_ne_nil filled
  rw [List.dropWhile_append]
  split
  · next none =>
    rw [List.isEmpty_iff.1 none, List.cons_append,
      List.dropWhile_cons_of_neg (by simp [hw c List.mem_cons_self]), List.nil_append]
  · rfl

theorem trimBlanks_margin_word (hw : IsPlainWord w) (s r : Text) :
    trimBlanks (s ++ (w ++ r)) = s.dropWhile isBlank ++ (w ++ dropEndWhile isBlank r) := by
  have solid : ∀ c ∈ w, isBlank c = false := fun c inside =>
    isBlank_eq_false_of_isSpace (hw.solid inside)
  rw [trimBlanks, stripWhile, dropWhile_margin_word solid hw.filled, ← List.append_assoc,
    dropEndWhile_append_of_last fun c last => ?_, List.append_assoc]
  exact isBlank_eq_false_of_isSpace (getLast?_margin_word hw last)

theorem polishLines_margin_word (hw : IsPlainWord w) (s r : Text) (ls : List Text) :
    polishLines ((s ++ (w ++ r)) :: ls) =
      (squeezeSpaces (s.dropWhile isBlank) ++ (w ++ squeezeSpaces (dropEndWhile isBlank r))) ::
        polishLines ls := by
  rw [polishLines, List.map_cons, trimBlanks_margin_word hw,
    List.filter_cons_of_pos (by simp [hw.filled]), List.map_cons, squeezeSpaces_margin_word hw]
  rfl

/-- The lines that a text is laid out in if others follow. -/
def arrangedBefore (t : Text) : List Text :=
  polishLines ((codeLines (joinContinuations (unifyBreaks t))).map dropReturn)

/-- Where no continuation is open, the lines of a text that begins with a word come after those of
the text before it. -/
theorem exists_arrangedLines_append (hs : IsMargin s) (ends : EndsWord R)
    (closed : passesAfter false (unifyBreaks (endLines before)) = false) :
    ∃ s' r ls, IsMargin s' ∧ EndsWord r ∧ ∀ w, IsPlainWord w →
      arrangedLines (endLines before ++ (s ++ (w ++ R))) =
        arrangedBefore (endLines before) ++ (s' ++ (w ++ r)) :: ls := by
  obtain ⟨q, ms, hq, code⟩ := exists_codeLines hs ends
  obtain ⟨r, hr, finish⟩ := exists_finishLines hq ms
  refine ⟨squeezeSpaces (s.dropWhile isBlank), squeezeSpaces (dropEndWhile isBlank r),
    polishLines (finishLines ms), ?_, (hr.dropEndWhile isBlank).squeezeSpaces, fun w hw => ?_⟩
  · exact hs.of_sublist ((squeezeSpaces_sublist _).trans (List.dropWhile_sublist _))
  have both : codeLines (joinContinuations (unifyBreaks (endLines before ++ (s ++ (w ++ R))))) =
      codeLines (joinContinuations (unifyBreaks (endLines before))) ++ (s ++ (w ++ q)) :: ms := by
    by_cases first : before = []
    · rw [first]
      exact code w hw
    · rw [endLines_eq_unlines first] at closed ⊢
      rw [List.append_assoc, List.singleton_append, codeLines_append closed, code w hw]
  rw [arrangedLines, both, finishLines_append _ (List.cons_ne_nil _ _), finish w hw,
    polishLines_append, polishLines_margin_word hw]
  rfl

/-! ## Variables -/

theorem olderDefinitions_congr {l m : Text} (same : envBody? l = envBody? m) :
    olderDefinitions l = olderDefinitions m := by
  rw [olderDefinitions, olderDefinitions, olderAssignment?, olderAssignment?, same]

theorem newerDefinitions_congr {l m : Text} (same : envBody? l = envBody? m) :
    newerDefinitions l = newerDefinitions m := by
  rw [newerDefinitions, newerDefinitions, newerAssignments?, newerAssignments?, same]

theorem variablesOf_congr {ls ms : List Text} {l m : Text} (same : envBody? l = envBody? m)
    (left : ∀ k ∈ ls ++ l :: ms, '\n' ∉ k) (right : ∀ k ∈ ls ++ m :: ms, '\n' ∉ k) :
    variablesOf (unlines (ls ++ l :: ms)) = variablesOf (unlines (ls ++ m :: ms)) := by
  rw [variablesOf_eq, variablesOf_eq, gathered_unlines left, gathered_unlines right]
  simp only [List.flatMap_append, List.flatMap_cons, olderDefinitions_congr same,
    newerDefinitions_congr same]

theorem substituteFrom_margin_word (vars : Variables) (hs : IsMargin s) (hw : IsPlainWord w)
    (r : Text) :
    substituteFrom vars 0 .lineStart (s ++ (w ++ r)) =
      s ++ (w ++ substituteFrom vars 0 .free r) := by
  induction s with
  | nil =>
    obtain ⟨c, w, rfl⟩ := List.exists_cons_of_ne_nil hw.filled
    rw [List.nil_append, List.nil_append, List.cons_append, List.cons_append]
    have plain := hw.plain c List.mem_cons_self
    have free : Guard.after .lineStart c = .free := by simp [Guard.after, plain.1]
    have rest : '$' ∉ w := fun inside => (hw.plain _ (List.mem_cons_of_mem c inside)).2.2.2 rfl
    rw [substituteFrom_cons vars _ plain.2.2.2, free, substituteFrom_append vars rest]
  | cons c s ih =>
    have space : isSpace c = true := List.all_eq_true.1 hs.spaces c List.mem_cons_self
    have kept : c ≠ '$' := by
      rintro rfl
      exact absurd space (by decide)
    rw [List.cons_append, List.cons_append, substituteFrom_cons vars _ kept,
      Guard.after_eq_lineStart.2 ⟨rfl, space⟩, ih (hs.of_sublist (List.sublist_cons_self c s))]

/-- What becomes of a line that begins with a keyword does not depend on the case of the keyword. -/
theorem exists_substituteIn {k : Kind} (vars : Variables) (hs : IsMargin s) (ends : EndsWord r) :
    ∃ r', EndsWord r' ∧ ∀ w, k.Spells w →
      substituteIn vars (s ++ (w ++ r)) = s ++ (w ++ r') := by
  by_cases env : ∃ w, k.Spells w ∧ isEnvLine (s ++ (w ++ r)) = true
  · obtain ⟨w, h, env⟩ := env
    refine ⟨r, ends, fun w' h' => ?_⟩
    rw [isEnvLine, envBody?_congr h h' hs.spaces ends] at env
    exact if_pos env
  · refine ⟨substituteFrom vars 0 .free r, ends.substituteFrom vars, fun w h => ?_⟩
    rw [substituteIn, if_neg fun same => env ⟨w, h, same⟩, substituteLine,
      substituteFrom_margin_word vars hs (isPlainWord_of_spells h)]

/-- Where no continuation is open, what a text that begins with a keyword is laid out as does not
depend on the case of the keyword. -/
theorem exists_normalLines_append {k : Kind} (hs : IsMargin s) (ends : EndsWord R)
    (closed : passesAfter false (unifyBreaks (endLines before)) = false) :
    ∃ vars s' r ls, IsMargin s' ∧ EndsWord r ∧ ∀ w, k.Spells w →
      variablesOf (arrange (endLines before ++ (s ++ (w ++ R)))) = vars ∧
        normalLines (endLines before ++ (s ++ (w ++ R))) =
          (arrangedBefore (endLines before)).map (substituteIn vars) ++ (s' ++ (w ++ r)) :: ls := by
  obtain ⟨s', r, ls, hs', hr, arranged⟩ := exists_arrangedLines_append hs ends closed
  have arranged {w : Text} (h : k.Spells w) := arranged w (isPlainWord_of_spells h)
  obtain ⟨vars, gathered⟩ : ∃ vars, ∀ w, k.Spells w →
      variablesOf (arrange (endLines before ++ (s ++ (w ++ R)))) = vars := by
    by_cases spelt : ∃ w, k.Spells w
    · obtain ⟨w, h⟩ := spelt
      refine ⟨variablesOf (arrange (endLines before ++ (s ++ (w ++ R)))), fun w' h' => ?_⟩
      have oneLine {w : Text} (h : k.Spells w) :
          ∀ l ∈ arrangedBefore (endLines before) ++ (s' ++ (w ++ r)) :: ls, '\n' ∉ l := by
        rw [← arranged h]
        exact fun l => newline_notMem_of_mem_arrangedLines
      rw [arrange_eq, arrange_eq, arranged h, arranged h']
      exact variablesOf_congr (envBody?_congr h' h hs'.spaces hr) (oneLine h') (oneLine h)
    · exact ⟨[], fun w h => absurd ⟨w, h⟩ spelt⟩
  obtain ⟨r', hr', kept⟩ := exists_substituteIn (k := k) vars hs' hr
  refine ⟨vars, s', r', ls.map (substituteIn vars), hs', hr', fun w h => ⟨gathered w h, ?_⟩⟩
  rw [normalLines, gathered w h, arranged h, List.map_append, List.map_cons, kept w h]

end Layout

end ImageAudit
