import ImageAudit.Proofs.Layout.NormalForm
import ImageAudit.Proofs.Text.Words

/-!
# Rows of words

The rows of a text are the words of each of its lines, blank lines aside. After lines have been
joined, nothing else that is done to lay a text out changes its rows.

* `rows_joinContinuationsFrom`: what a continuation passes over makes no difference.
* `rows_arrangedLines`: a text without comments is laid out in the rows of its joined lines.
-/

namespace ImageAudit.Layout

open Text

/-- The words of each line that has any. -/
def rows (ls : List Text) : List (List Text) := (ls.map words).filter fun ws => !ws.isEmpty

variable {l m a b t : Text} {ls : List Text}

@[simp] theorem rows_nil : rows [] = [] := rfl

theorem rows_cons_of_eq_nil (h : words l = []) (ls : List Text) : rows (l :: ls) = rows ls := by
  simp [rows, h]

theorem rows_cons_of_ne_nil (h : words l ≠ []) (ls : List Text) :
    rows (l :: ls) = words l :: rows ls := by
  simp [rows, h]

theorem rows_cons_congr (same : words l = words m) {ms : List Text} (rest : rows ls = rows ms) :
    rows (l :: ls) = rows (m :: ms) := by
  by_cases h : words m = []
  · rw [rows_cons_of_eq_nil h, rows_cons_of_eq_nil (same.trans h), rest]
  · rw [rows_cons_of_ne_nil h, rows_cons_of_ne_nil (same ▸ h), same, rest]

theorem rows_append (ls ms : List Text) : rows (ls ++ ms) = rows ls ++ rows ms := by
  simp [rows]

theorem mem_rows (member : l ∈ ls) (filled : words l ≠ []) : words l ∈ rows ls :=
  List.mem_filter.2 ⟨List.mem_map_of_mem member, by simpa using filled⟩

theorem rows_eq_map_trim (ls : List Text) :
    rows ls = ((ls.map trim).filter fun l => !l.isEmpty).map words := by
  induction ls with
  | nil => rfl
  | cons l ls ih =>
    by_cases blank : words l = []
    · rw [rows_cons_of_eq_nil blank, ih]
      simp [trim_eq_nil_iff.2 blank]
    · rw [rows_cons_of_ne_nil blank, ih]
      simp [mt trim_eq_nil_iff.1 blank]

/-! ## What is passed over -/

theorem rows_append_congr (ha : '\n' ∉ a) (hb : '\n' ∉ b)
    (same : ∀ x, words (a ++ x) = words (b ++ x)) (t : Text) :
    rows (pieces '\n' (a ++ t)) = rows (pieces '\n' (b ++ t)) := by
  rw [pieces_append_of_notMem ha, pieces_append_of_notMem hb]
  cases pieces '\n' t with
  | nil => rfl
  | cons p ps => exact rows_cons_congr (same p) rfl

theorem rows_passedOver {c : Char} (h : isPassedOver c = true) (t : Text) :
    rows (pieces '\n' (c :: t)) = rows (pieces '\n' t) := by
  by_cases lineFeed : c = '\n'
  · rw [pieces, if_pos lineFeed, rows_cons_of_eq_nil rfl]
  · have filler : isFiller c = true := by rwa [isPassedOver_of_ne lineFeed] at h
    refine rows_append_congr (a := [c]) (b := []) (by simpa using Ne.symm lineFeed)
      List.not_mem_nil (fun x => ?_) t
    exact words_of_isSpace (isSpace_of_isFiller filler) x

/-- What a continuation passes over makes no difference. -/
theorem rows_joinContinuationsFrom (t : Text) :
    rows (pieces '\n' (joinContinuationsFrom true t)) =
      rows (pieces '\n' (joinContinuationsFrom false t)) := by
  induction t with
  | nil => rfl
  | cons c r ih =>
    cases passed : isPassedOver c with
    | true =>
      rw [joinContinuationsFrom_passing passed, joinContinuationsFrom_of_isPassedOver passed,
        rows_passedOver passed, ih]
    | false => rw [joinContinuationsFrom_of_not_isPassedOver passed]

/-- On a line that is not blank, a continuation passes over fillers only. -/
theorem exists_fillers_joinContinuationsFrom (oneLine : '\n' ∉ l) (solid : l.all isFiller = false)
    (r : Text) : ∃ f, f.all isFiller = true ∧
      joinContinuationsFrom false (l ++ r) = f ++ joinContinuationsFrom true (l ++ r) := by
  induction l with
  | nil => cases solid
  | cons c l ih =>
    simp only [List.mem_cons, not_or] at oneLine
    rw [List.cons_append]
    cases filler : isFiller c with
    | true =>
      have passed := isPassedOver_of_isFiller filler
      obtain ⟨f, hf, same⟩ := ih oneLine.2 (by simpa [filler] using solid)
      refine ⟨c :: f, by simp [filler, hf], ?_⟩
      rw [joinContinuationsFrom_passing passed, joinContinuationsFrom_of_isPassedOver passed, same,
        List.cons_append]
    | false =>
      have solid := (isPassedOver_of_ne (Ne.symm oneLine.1)).trans filler
      exact ⟨[], rfl, (joinContinuationsFrom_of_not_isPassedOver solid _).symm⟩

/-! ## The passes on lines -/

theorem wordsFrom_squeezeSpaces (t : Text) : wordsFrom (squeezeSpaces t) = wordsFrom t := by
  fun_induction squeezeSpaces t with
  | case1 => rfl
  | case2 c r h ih =>
    simp only [Bool.and_eq_true, beq_iff_eq] at h
    obtain ⟨r', rfl⟩ := List.head?_eq_some_iff.1 h.2
    have space : isSpace ' ' = true := by decide
    rw [ih, h.1, wordsFrom_of_isSpace space, wordsFrom_of_isSpace space, words_of_isSpace space]
  | case3 c r _ ih => rw [wordsFrom, wordsFrom, ih]

@[simp] theorem words_squeezeSpaces (t : Text) : words (squeezeSpaces t) = words t := by
  rw [words_eq, words_eq t, wordsFrom_squeezeSpaces]

theorem rows_finishLines (ps : List Text) : rows (finishLines ps) = rows ps := by
  fun_induction finishLines ps with
  | case1 => rfl
  | case2 p empty =>
    rw [List.isEmpty_iff.1 empty]
    rfl
  | case3 => rfl
  | case4 p q ps ih => exact rows_cons_congr (words_dropReturn p) ih

theorem rows_polishLines (ls : List Text) : rows (polishLines ls) = rows ls := by
  induction ls with
  | nil => rfl
  | cons l ls ih =>
    by_cases blank : trimBlanks l = []
    · have none : words l = [] := by
        rw [← words_trimBlanks, blank]
        rfl
      rw [rows_cons_of_eq_nil none, ← ih]
      simp [polishLines, blank]
    · have cons : polishLines (l :: ls) = squeezeSpaces (trimBlanks l) :: polishLines ls := by
        simp [polishLines, blank]
      rw [cons]
      exact rows_cons_congr (by simp) ih

/-- Whether words are those of a comment. -/
def isCommentRow (ws : List Text) : Bool := ws.head?.bind List.head? == some '#'

/-- The number sign of a comment begins its first word. -/
theorem isComment_eq (l : Text) : isComment l = isCommentRow (words l) := by
  rw [isComment, head?_trimStart, isCommentRow]

theorem rows_codeLines (t : Text) :
    rows (codeLines t) = (rows (pieces '\n' t)).filter fun ws => !isCommentRow ws := by
  have words_filter (ls : List Text) : (ls.filter fun l => !isComment l).map words =
      (ls.map words).filter fun ws => !isCommentRow ws := by
    rw [List.filter_map]
    simp only [isComment_eq]
    rfl
  have finished : rows (lines t) = rows (pieces '\n' t) := rows_finishLines _
  rw [← finished, codeLines, rows, words_filter, rows, List.filter_filter, List.filter_filter]
  simp only [Bool.and_comm]

/-- A text is laid out in the rows of its joined lines that are no comments. -/
theorem rows_arrangedLines_eq_filter (t : Text) :
    rows (arrangedLines t) = (rows (pieces '\n' (joinContinuations (unifyBreaks t)))).filter
      fun ws => !isCommentRow ws := by
  rw [arrangedLines, rows_polishLines, rows_finishLines, rows_codeLines]

/-- If the rows of the joined lines are no comments, then the text is laid out in these rows. -/
theorem rows_arrangedLines
    (code : ∀ l, words l ∈ rows (pieces '\n' (joinContinuations (unifyBreaks t))) →
      isComment l = false) :
    rows (arrangedLines t) = rows (pieces '\n' (joinContinuations (unifyBreaks t))) := by
  rw [rows_arrangedLines_eq_filter, List.filter_eq_self]
  intro ws row
  obtain ⟨l, -, rfl⟩ := List.mem_map.1 (List.mem_filter.1 row).1
  rw [← isComment_eq, code l row]
  rfl

/-- Each line of the layout ends in a backslash exactly if the joined line it comes from does. -/
theorem exists_piece_of_mem_arrangedLines (member : l ∈ arrangedLines t) :
    ∃ p ∈ pieces '\n' (joinContinuations (unifyBreaks t)),
      endsInBackslash p = endsInBackslash l := by
  have back {ps : List Text} {l : Text} (member : l ∈ finishLines ps) :
      ∃ p ∈ ps, endsInBackslash p = endsInBackslash l := by
    obtain ⟨p, piece, rfl | rfl⟩ := mem_finishLines member
    · exact ⟨l, piece, rfl⟩
    · exact ⟨p, piece, (endsInBackslash_dropReturn p).symm⟩
  obtain ⟨m, finished, -, rfl⟩ := exists_of_mem_polishLines member
  obtain ⟨k, code, hk⟩ := back finished
  obtain ⟨p, piece, hp⟩ := back (List.mem_filter.1 code).1
  refine ⟨p, piece, ?_⟩
  rw [endsInBackslash_squeezeSpaces, endsInBackslash_trimBlanks, hp, hk]

end ImageAudit.Layout
