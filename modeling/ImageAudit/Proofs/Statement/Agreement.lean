import ImageAudit.Proofs.Instruction.Keyword
import ImageAudit.Proofs.Layout.Rows
import ImageAudit.Proofs.Layout.Stability
import ImageAudit.Proofs.Statement.Reading

/-!
# Reading with and without laying out

Lines are joined twice: laying a text out joins them in one pass over its characters, reading joins
them line by line. Both come to the same rows of words.

* `joinedRows`: the rows of words both are compared with.
* `map_words_logicalLinesFrom`, `rows_joinContinuationsFrom_endLines`: reading and laying out
  agree with them.
* `Statement.readAll_normalize`: a text is read as the same statements, up to blanks, before and
  after it is laid out.
-/

namespace ImageAudit

open Text Layout

/-! ## Joining rows of words -/

/-- The rows of lines, where the words of continued lines are taken together. Words that wait for
the rest of their line are `pending`. -/
def joinedRows : (pending : List Text) → List Text → List (List Text)
  | pending, [] => if pending = [] then [] else [pending]
  | pending, l :: ls =>
    if words l = [] then joinedRows pending ls
    else
      match continued? (trim l) with
      | some head => joinedRows (pending ++ words head) ls
      | none => (pending ++ words l) :: joinedRows [] ls

theorem words_append_space {a : Text} (apart : ∀ x, words (a ++ x) = words a ++ words x)
    (b x : Text) : words (a ++ (b ++ [' ']) ++ x) = words (a ++ (b ++ [' '])) ++ words x := by
  have space : isSpace ' ' = true := by decide
  rw [List.append_assoc, List.append_assoc, List.singleton_append, apart, apart, words_append space,
    words_append_spaces b (by decide), List.append_assoc]

theorem map_words_finish (p : LogicalLine) :
    (p.finish.map fun r => words r.text) = if words p.text = [] then [] else [words p.text] := by
  rw [LogicalLine.finish_eq]
  by_cases blank : words p.text = []
  · rw [if_pos (trim_eq_nil_iff.2 blank), if_pos blank, List.map_nil]
  · rw [if_neg (mt trim_eq_nil_iff.1 blank), if_neg blank, List.map_singleton, words_trim]

/-- Reading line by line gives the joined rows. -/
theorem map_words_logicalLinesFrom {ls : List Text} (code : ∀ l ∈ ls, isComment l = false) (n : Nat)
    {s : Option LogicalLine}
    (apart : ∀ x, words (pendingText s ++ x) = words (pendingText s) ++ words x) :
    ((logicalLinesFrom n s ls).map fun r => words r.text) =
      joinedRows (words (pendingText s)) ls := by
  induction ls generalizing n s with
  | nil => rw [logicalLinesFrom_nil, map_words_finish, joinedRows]
  | cons l ls ih =>
    have rest {n : Nat} {s : Option LogicalLine} :=
      ih (fun m member => code m (List.mem_cons_of_mem l member)) n (s := s)
    rw [logicalLinesFrom_cons (code l List.mem_cons_self), joinedRows]
    by_cases blank : words l = []
    · rw [if_pos (trim_eq_nil_iff.2 blank), if_pos blank, rest apart]
    · rw [if_neg (mt trim_eq_nil_iff.1 blank), if_neg blank]
      cases continued? (trim l) with
      | some head =>
        have next := rest (n := n + 1)
          (s := some ⟨(s.map LogicalLine.line).getD n, pendingText s ++ (head ++ [' '])⟩)
          (words_append_space apart head)
        dsimp only
        rw [next, pendingText_some, apart, words_append_spaces head (by decide)]
      | none =>
        have filled : words (pendingText s ++ trim l) ≠ [] := by
          rw [apart, words_trim]
          exact List.append_ne_nil_of_right_ne_nil _ blank
        dsimp only
        rw [List.map_append, map_words_finish, if_neg filled, apart, words_trim,
          rest (s := none) fun x => rfl]
        rfl

/-! ## Joining the characters of lines -/

theorem exists_of_continued?_trim {l head : Text}
    (spaces : ∀ c ∈ l, isSpace c = true → isFiller c = true)
    (found : continued? (trim l) = some head) :
    ∃ h f, l = h ++ '\\' :: f ∧ f.all isFiller = true ∧ words h = words head := by
  obtain ⟨g, split, hg⟩ := exists_of_continued? found
  obtain ⟨a, b, ha, hb, whole⟩ := exists_append_of_stripWhile isSpace l
  change l = a ++ trim l ++ b at whole
  rw [split] at whole
  refine ⟨a ++ (head ++ g), b, by rw [whole]; simp, ?_, ?_⟩
  · rw [List.all_eq_true] at hb ⊢
    exact fun c member =>
      spaces c (by rw [whole]; exact List.mem_append_right _ member) (hb c member)
  · rw [words_spaces_append ha, words_append_spaces head hg]

theorem endsInBackslash_of_continued?_trim {l : Text} (none : continued? (trim l) = none) :
    endsInBackslash l = false := by
  by_contra continued
  rw [Bool.not_eq_false] at continued
  obtain ⟨h, f, rfl, hf⟩ := endsInBackslash_eq_true_iff.1 continued
  have last : (h ++ ['\\']).getLast? = some '\\' := List.getLast?_concat
  have trimmed : trim (h ++ '\\' :: f) = trim (h ++ ['\\']) := by
    rw [List.append_cons, trim, stripWhile_append _ (all_isSpace_of_fillers hf), trim]
  rw [continued?_eq_none_iff, trimmed] at none
  exact none (getLast?_stripWhile_of_getLast? last (by decide))

/-- Where all white space is fillers, laying out and reading take the same lines for continued. -/
theorem continued?_trim_eq_none_iff {l : Text}
    (spaces : ∀ c ∈ l, isSpace c = true → isFiller c = true) :
    continued? (trim l) = none ↔ endsInBackslash l = false := by
  refine ⟨endsInBackslash_of_continued?_trim, fun closed => ?_⟩
  cases found : continued? (trim l) with
  | none => rfl
  | some head =>
    obtain ⟨h, f, split, hf, -⟩ := exists_of_continued?_trim spaces found
    rw [endsInBackslash_eq_true_iff.2 ⟨h, f, split, hf⟩] at closed
    cases closed

/-- Joining character by character gives the joined rows. -/
theorem rows_joinContinuationsFrom_endLines {ls : List Text} (oneLine : ∀ l ∈ ls, '\n' ∉ l)
    (spaces : ∀ l ∈ ls, ∀ c ∈ l, isSpace c = true → isFiller c = true) {a : Text} (free : '\n' ∉ a)
    (apart : ∀ x, words (a ++ x) = words a ++ words x) :
    rows (pieces '\n' (a ++ joinContinuationsFrom true (endLines ls))) =
      joinedRows (words a) ls := by
  induction ls generalizing a with
  | nil =>
    rw [endLines, List.flatMap_nil, joinContinuationsFrom, List.append_nil, pieces_of_notMem free,
      joinedRows]
    split
    · next blank => rw [rows_cons_of_eq_nil blank, rows_nil]
    · next filled => rw [rows_cons_of_ne_nil filled, rows_nil]
  | cons l ls ih =>
    have line := oneLine l List.mem_cons_self
    have fillers := spaces l List.mem_cons_self
    have rest {a : Text} := ih (fun m member => oneLine m (List.mem_cons_of_mem l member))
      (fun m member => spaces m (List.mem_cons_of_mem l member)) (a := a)
    rw [endLines_cons, joinedRows]
    by_cases blank : words l = []
    · have passed : l.all isFiller = true := by
        have := words_eq_nil_iff.1 blank
        rw [List.all_eq_true] at this ⊢
        exact fun c member => fillers c member (this c member)
      rw [if_pos blank, joinContinuationsFrom_fillers passed, rest free apart]
    · have solid : l.all isFiller = false := by
        rw [← Bool.not_eq_true]
        exact fun passed => blank (words_eq_nil_iff.2 (all_isSpace_of_fillers passed))
      -- What is passed over before the line's first word does not change the row.
      obtain ⟨f, hf, before⟩ :=
        exists_fillers_joinContinuationsFrom line solid ('\n' :: endLines ls)
      have freeFillers : '\n' ∉ a ++ f := by
        simp only [List.mem_append, not_or]
        exact ⟨free, newline_notMem_of_fillers hf⟩
      rw [if_neg blank, rows_append_congr free freeFillers (fun x => by
        rw [List.append_assoc, apart, apart, words_spaces_append (all_isSpace_of_fillers hf)]),
        List.append_assoc, ← before]
      cases found : continued? (trim l) with
      | some head =>
        -- The head of the line joins the row that waits, and one space parts it from what follows.
        obtain ⟨h, g, rfl, hg, same⟩ := exists_of_continued?_trim fillers found
        have freeHead : '\n' ∉ h := fun inside => line (List.mem_append_left _ inside)
        have freeNext : '\n' ∉ a ++ (h ++ [' ']) := by simp [free, freeHead]
        have next := rest freeNext (words_append_space apart h)
        rw [apart, words_append_spaces h (by decide), same] at next
        dsimp only
        rw [← next, List.append_assoc h, List.cons_append,
          joinContinuationsFrom_continued freeHead hg]
        simp only [List.append_assoc, List.singleton_append]
      | none =>
        -- The row is complete, and the next one starts from nothing.
        have closed := endsInBackslash_of_continued?_trim found
        have filled : words (a ++ l) ≠ [] := by
          rw [apart]
          exact List.append_ne_nil_of_right_ne_nil _ blank
        have freeLine : '\n' ∉ a ++ l := by simp [free, line]
        dsimp only
        rw [joinContinuationsFrom_closed line closed, ← List.append_assoc, pieces_append,
          pieces_of_notMem freeLine, List.singleton_append, rows_cons_of_ne_nil filled, apart,
          ← rows_joinContinuationsFrom]
        exact congrArg ((words a ++ words l) :: ·) (rest List.not_mem_nil fun x => rfl)

/-! ## Bare texts -/

/-- A text without comment lines and references, whose white space is blanks and line feeds and
whose last line that is not blank does not end in a backslash. -/
structure IsBare (t : Text) : Prop where
  spaces : ∀ c ∈ t, isSpace c = true → isBlank c = true ∨ c = '\n'
  noReference : '$' ∉ t
  code : ∀ l ∈ pieces '\n' t, isComment l = false
  closed : ∀ l ∈ ((pieces '\n' t).filter fun l => !l.all isBlank).getLast?,
    endsInBackslash l = false

instance (t : Text) : Decidable (IsBare t) :=
  decidable_of_iff
    ((∀ c ∈ t, isSpace c = true → isBlank c = true ∨ c = '\n') ∧ '$' ∉ t ∧
      (∀ l ∈ pieces '\n' t, isComment l = false) ∧
      ∀ l ∈ ((pieces '\n' t).filter fun l => !l.all isBlank).getLast?, endsInBackslash l = false)
    ⟨fun ⟨spaces, noReference, code, closed⟩ => ⟨spaces, noReference, code, closed⟩,
      fun h => ⟨h.spaces, h.noReference, h.code, h.closed⟩⟩

namespace IsBare

variable {t : Text}

theorem return_notMem (h : IsBare t) : '\r' ∉ t := by
  intro inside
  rcases h.spaces '\r' inside (by decide) with blank | lineFeed
  · exact absurd blank (by decide)
  · exact absurd lineFeed (by decide)

theorem unifyBreaks_eq_self (h : IsBare t) : unifyBreaks t = t := by
  have kept : dropReturns (pieces '\n' t) = pieces '\n' t := by
    refine dropReturns_eq_self fun l member last => h.return_notMem ?_
    exact mem_of_mem_pieces (List.mem_of_mem_dropLast member) (List.mem_of_getLast? last)
  rw [unifyBreaks_eq, kept, unlines_pieces]

theorem isBlank_of_mem_pieces (h : IsBare t) {l : Text} (member : l ∈ pieces '\n' t) :
    ∀ c ∈ l, isSpace c = true → isBlank c = true := by
  intro c inside space
  rcases h.spaces c (mem_of_mem_pieces member inside) space with blank | rfl
  · exact blank
  · exact absurd inside (notMem_of_mem_pieces member)

theorem isBlank_of_mem_arrangedLines (h : IsBare t) {l : Text} (member : l ∈ arrangedLines t) :
    ∀ c ∈ l, isSpace c = true → isBlank c = true := by
  intro c inside space
  by_cases blank : c = ' '
  · rw [blank]
    rfl
  have lineFeed : c ≠ '\n' := by
    rintro rfl
    exact newline_notMem_of_mem_arrangedLines member inside
  have kept := mem_of_mem_arrangedLines blank lineFeed member inside
  rw [h.unifyBreaks_eq_self] at kept
  exact (h.spaces c kept space).resolve_right lineFeed

/-- No continuation is open at the end. -/
theorem passesAfter_eq_false (h : IsBare t) : passesAfter false (t ++ ['\n']) = false := by
  have same : (pieces '\n' t).filter (fun l => !l.all isFiller) =
      (pieces '\n' t).filter fun l => !l.all isBlank := by
    refine List.filter_congr fun l member => congrArg _ ?_
    rw [Bool.eq_iff_iff, List.all_eq_true, List.all_eq_true]
    refine forall₂_congr fun c inside => ⟨fun filler => ?_, isFiller_of_isBlank⟩
    exact h.isBlank_of_mem_pieces member c inside (isSpace_of_isFiller filler)
  rw [← endLines_pieces, passesAfter_endLines fun l => notMem_of_mem_pieces, same]
  cases last : ((pieces '\n' t).filter fun l => !l.all isBlank).getLast? with
  | none => rfl
  | some l => exact h.closed l last

theorem rows_joinContinuations (h : IsBare t) :
    rows (pieces '\n' (joinContinuations t)) = joinedRows [] (pieces '\n' t) := by
  have spaces : ∀ l ∈ pieces '\n' t, ∀ c ∈ l, isSpace c = true → isFiller c = true := by
    intro l member c inside space
    exact isFiller_of_isBlank (h.isBlank_of_mem_pieces member c inside space)
  have joined := rows_joinContinuationsFrom_endLines (fun l => notMem_of_mem_pieces) spaces
    (a := []) List.not_mem_nil fun x => rfl
  rw [List.nil_append, endLines_pieces, rows_joinContinuationsFrom,
    joinContinuationsFrom_concat h.passesAfter_eq_false, pieces_append, rows_append] at joined
  exact (List.append_nil _).symm.trans joined

theorem endsInBackslash_of_mem_pieces (h : IsBare t) {l : Text}
    (member : l ∈ pieces '\n' (joinContinuations t)) : endsInBackslash l = false := by
  have closed : hasContinuation (joinContinuations t ++ ['\n']) = false := by
    rw [joinContinuations, ← joinContinuationsFrom_concat h.passesAfter_eq_false]
    exact hasContinuation_joinContinuationsFrom false _
  rw [← unlines_pieces (joinContinuations t ++ ['\n']),
    hasContinuation_unlines fun l => notMem_of_mem_pieces, pieces_append, pieces,
    List.dropLast_concat] at closed
  exact closed l member

theorem normalLines_eq (h : IsBare t) : normalLines t = arrangedLines t :=
  normalLines_of_notMem (by rw [h.unifyBreaks_eq_self]; exact h.noReference)

/-- Read as it is, the text gives its joined rows. -/
theorem map_words_logicalLines (h : IsBare t) :
    ((logicalLines t).map fun r => words r.text) = joinedRows [] (pieces '\n' t) := by
  rw [logicalLines_eq]
  exact map_words_logicalLinesFrom h.code 1 fun x => rfl

/-- Laid out first, it gives them too. -/
theorem map_words_logicalLines_normalize (h : IsBare t) :
    ((logicalLines (normalize t)).map fun r => words r.text) = joinedRows [] (pieces '\n' t) := by
  -- No line of the layout is continued, so that each is a logical line of its own.
  have closed : ∀ m ∈ normalLines t, (trim m).getLast? ≠ some '\\' := by
    rw [h.normalLines_eq]
    intro m member
    obtain ⟨p, piece, same⟩ := exists_piece_of_mem_arrangedLines member
    rw [h.unifyBreaks_eq_self] at piece
    rw [h.endsInBackslash_of_mem_pieces piece] at same
    rw [← continued?_eq_none_iff, continued?_trim_eq_none_iff fun c inside space =>
      isFiller_of_isBlank (h.isBlank_of_mem_arrangedLines member c inside space)]
    exact same.symm
  have rows_eq : rows (arrangedLines t) = joinedRows [] (pieces '\n' t) := by
    have joined := h.rows_joinContinuations
    rw [rows_arrangedLines, h.unifyBreaks_eq_self, joined]
    intro l row
    -- A row of the joined lines is that of a logical line, and this one is no comment.
    rw [h.unifyBreaks_eq_self, joined, ← h.map_words_logicalLines, logicalLines_eq] at row
    obtain ⟨r, line, same⟩ := List.mem_map.1 row
    have logical := isLogicalText_of_mem (fun l => notMem_of_mem_pieces) h.code 1 r line
    rw [isComment_eq, ← same, ← isComment_eq, logical.code]
  rw [← rows_eq, ← h.normalLines_eq, rows_eq_map_trim, ← map_text_logicalLines closed, List.map_map]
  rfl

/-- Neither way of reading leaves other white space in a text than blanks between its words. -/
theorem collapseBlanks_text (h : IsBare t) {r : LogicalLine}
    (member : r ∈ logicalLines t ∨ r ∈ logicalLines (normalize t)) :
    collapseBlanks r.text = join [' '] (words r.text) := by
  have collapsed {ls : List Text} (spaces : ∀ l ∈ ls, ∀ c ∈ l, isSpace c = true → isBlank c = true)
      (oneLine : ∀ l ∈ ls, '\n' ∉ l) (code : ∀ l ∈ ls, isComment l = false)
      (line : r ∈ logicalLinesFrom 1 none ls) : collapseBlanks r.text = join [' '] (words r.text) :=
    collapseBlanks_eq_join_words
      (forall_mem_text_logicalLinesFrom (P := fun c => isSpace c = true → isBlank c = true)
        (fun _ => rfl) spaces code 1 r line)
      (isLogicalText_of_mem oneLine code 1 r line).trimmed
  rcases member with line | line
  · rw [logicalLines_eq] at line
    exact collapsed (fun l => h.isBlank_of_mem_pieces) (fun l => notMem_of_mem_pieces) h.code line
  · rw [logicalLines_normalize, h.normalLines_eq] at line
    have neat := (isLayout_arrangedLines t).neat
    exact collapsed (fun l => h.isBlank_of_mem_arrangedLines)
      (fun l member => (neat l member).oneLine) (fun l member => (neat l member).code) line

end IsBare

/-! ## Statements -/

theorem Kind.mark_collapseBlanks (t : Text) : mark (collapseBlanks t) = mark t := by
  have sign : (collapseBlanks t).head? = some '#' ↔ t.head? = some '#' := by
    cases t with
    | nil => rfl
    | cons c r =>
      cases blank : isBlank c with
      | true =>
        obtain ⟨s, hs⟩ := exists_collapseBlanks_of_isBlank blank r
        have other : c ≠ '#' := by
          rintro rfl
          exact absurd blank (by decide)
        simp [hs, other]
      | false => simp [collapseBlanks, blank]
  have lower : ((fun d => !isBlank d) ∘ Char.toLower) = fun d => !isBlank d := by
    funext d
    by_cases changed : d.toLower = d
    · rw [Function.comp_apply, changed]
    · -- Neither a capital letter nor its small one is white space.
      have before := isBlank_eq_false_of_isSpace
        (Bool.eq_false_iff.2 fun space => changed (toLower_of_isSpace space))
      have after := isBlank_eq_false_of_isSpace
        (Bool.eq_false_iff.2 fun space => changed (toLower_of_isSpace_toLower space))
      rw [Function.comp_apply, before, after]
  simp only [mark, sign, List.takeWhile_map, lower, takeWhile_collapseBlanks]

namespace Statement

/-- What is left of the text of a statement when its blanks are collapsed still tells its kind. -/
theorem mark_of_read {l : LogicalLine} {s : Statement} (h : read l = .ok s) :
    Kind.mark (collapseBlanks s.text) = s.kind.name.map Char.toLower := by
  obtain ⟨r, found⟩ := Instruction.read?_of_readLine? (readLine?_of_read h)
  obtain ⟨k, body, keyword, hk⟩ := Instruction.exists_of_read? found
  rw [Kind.mark_collapseBlanks, text_of_read h, Kind.mark_of_body? keyword, Statement.kind,
    Instruction.kind_of_body? hk]

theorem map_collapseBlanks {t : Text} {ss : List Statement} (h : readAll t = .ok ss) :
    (ss.map fun s => collapseBlanks s.text) =
      (logicalLines t).map fun l => collapseBlanks l.text := by
  have texts := congrArg (List.map collapseBlanks) (map_text_of_readLines h)
  rwa [List.map_map, List.map_map] at texts

/-- A bare text is read as statements of the same kinds before and after it is laid out, and what
they were read from differs in blanks at most. -/
theorem readAll_normalize {t : Text} {ss ns : List Statement} (bare : IsBare t)
    (asWritten : readAll t = .ok ss) (laidOut : readAll (normalize t) = .ok ns) :
    ss.map kind = ns.map kind ∧
      (ss.map fun s => collapseBlanks s.text) = ns.map fun s => collapseBlanks s.text := by
  have texts : (ss.map fun s => collapseBlanks s.text) =
      ns.map fun s => collapseBlanks s.text := by
    rw [map_collapseBlanks asWritten, map_collapseBlanks laidOut,
      List.map_congr_left fun r member => bare.collapseBlanks_text (.inl member),
      List.map_congr_left fun r member => bare.collapseBlanks_text (.inr member)]
    -- Up to here the blanks; the words have been compared.
    have same := bare.map_words_logicalLines.trans bare.map_words_logicalLines_normalize.symm
    have joined := congrArg (List.map (join [' '])) same
    rwa [List.map_map, List.map_map] at joined
  refine ⟨?_, texts⟩
  have marks {u : Text} {us : List Statement} (h : readAll u = .ok us) :
      (us.map fun s => collapseBlanks s.text).map Kind.mark =
        (us.map kind).map fun k => k.name.map Char.toLower := by
    rw [List.map_map, List.map_map]
    refine List.map_congr_left fun s member => ?_
    obtain ⟨l, -, read⟩ := exists_of_mem_statements h member
    exact mark_of_read read
  have kinds := marks laidOut
  rw [← texts, marks asWritten] at kinds
  exact List.map_injective_iff.2 (fun _ _ => Kind.name_lower_injective) kinds

theorem readAll_normalize_continued :
    ∃ ss ns, readAll "WORKDIR \t/a  \\ \n\n \\\n\t b\n\nUSER c".toList = .ok ss ∧
      readAll (normalize "WORKDIR \t/a  \\ \n\n \\\n\t b\n\nUSER c".toList) = .ok ns ∧
      ss.map text = ["WORKDIR \t/a  b".toList, "USER c".toList] ∧
      ns.map text = ["WORKDIR \t/a b".toList, "USER c".toList] ∧
      ss.map kind = ns.map kind ∧
      (ss.map fun s => collapseBlanks s.text) = ns.map fun s => collapseBlanks s.text := by
  have bare : IsBare "WORKDIR \t/a  \\ \n\n \\\n\t b\n\nUSER c".toList := by decide
  have asWritten : readAll "WORKDIR \t/a  \\ \n\n \\\n\t b\n\nUSER c".toList =
      .ok [⟨.workdir "/a  b".toList, 1, "WORKDIR \t/a  b".toList⟩,
        ⟨.user ⟨"c".toList, none⟩, 6, "USER c".toList⟩] := by decide
  have laidOut : readAll (normalize "WORKDIR \t/a  \\ \n\n \\\n\t b\n\nUSER c".toList) =
      .ok [⟨.workdir "/a b".toList, 1, "WORKDIR \t/a b".toList⟩,
        ⟨.user ⟨"c".toList, none⟩, 2, "USER c".toList⟩] := by decide
  exact ⟨_, _, asWritten, laidOut, rfl, rfl, readAll_normalize bare asWritten laidOut⟩

end Statement

end ImageAudit
