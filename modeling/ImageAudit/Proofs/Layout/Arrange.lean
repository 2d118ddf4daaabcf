import ImageAudit.Proofs.Layout.Continuation

/-!
# Laying out line by line

The passes of `arrange` as functions on the list of lines.

* `unifyBreaks_eq` and `dropComments`, `squeeze` in terms of lines: `arrange_eq`.
* `isComment_append` and its companions say what becomes of a comment line on the way.
-/

namespace ImageAudit.Layout

open Text

/-! ## Line breaks -/

/-- Unifying breaks takes a carriage return off each line but the last. -/
theorem unifyBreaks_eq (t : Text) : unifyBreaks t = unlines (dropReturns (pieces '\n' t)) := by
  fun_induction unifyBreaks t with
  | case1 => rfl
  | case2 r ih =>
    have hne := pieces_ne_nil '\n' r
    have split : pieces '\n' ('\r' :: '\n' :: r) = ['\r'] :: pieces '\n' r := by
      simp [pieces, pushFirst]
    rw [split, dropReturns_cons _ hne, unlines_cons _ (dropReturns_ne_nil hne), ← ih]
    rfl
  | case3 c r other ih =>
    have hne := pieces_ne_nil '\n' r
    rw [pieces, ih]
    split
    · next hc =>
      rw [dropReturns_cons _ hne, unlines_cons _ (dropReturns_ne_nil hne), hc]
      rfl
    · next hc =>
      obtain ⟨l, ls, hls⟩ := List.exists_cons_of_ne_nil hne
      rw [hls, pushFirst]
      cases ls with
      | nil => simp [dropReturns, unlines]
      | cons m ls =>
        have rest : dropReturns (m :: ls) ≠ [] := dropReturns_ne_nil (List.cons_ne_nil m ls)
        rw [dropReturns, dropReturns, unlines_cons _ rest, unlines_cons _ rest]
        cases l with
        | nil =>
          -- A return before an empty rest of the line would stand before a line feed.
          have lineFeed : r.head? = some '\n' := by
            rw [← unlines_pieces r, hls, unlines_cons _ (List.cons_ne_nil m ls)]
            rfl
          have notReturn : c ≠ '\r' := by
            rintro rfl
            obtain ⟨s, rfl⟩ := List.head?_eq_some_iff.1 lineFeed
            exact other s rfl rfl
          rw [dropReturn_eq_self (show [c].getLast? ≠ some '\r' by simp [notReturn])]
          rfl
        | cons d l =>
          rw [dropReturn_cons c (List.cons_ne_nil d l)]
          rfl

theorem unifyBreaks_append (a b : Text) :
    unifyBreaks (a ++ '\n' :: b) =
      unlines ((pieces '\n' a).map dropReturn) ++ '\n' :: unifyBreaks b := by
  have ha : (pieces '\n' a).map dropReturn ≠ [] := by simp [pieces_ne_nil]
  have hb := pieces_ne_nil '\n' b
  rw [unifyBreaks_eq, unifyBreaks_eq b, pieces_append, dropReturns_append _ hb,
    unlines_append ha (dropReturns_ne_nil hb)]

theorem unifyBreaks_sublist (t : Text) : (unifyBreaks t).Sublist t := by
  fun_induction unifyBreaks t with
  | case1 => exact .slnil
  | case2 r ih => exact (ih.cons_cons '\n').cons '\r'
  | case3 c r _ ih => exact ih.cons_cons c

/-! ## Comment lines -/

theorem isComment_cons (c : Char) (r : Text) :
    isComment (c :: r) = if isSpace c then isComment r else c == '#' := by
  unfold isComment trimStart
  rw [List.dropWhile_cons]
  cases isSpace c <;> simp

theorem isComment_append (a b : Text) :
    isComment (a ++ b) = if a.all isSpace then isComment b else isComment a := by
  induction a with
  | nil => simp
  | cons c a ih =>
    rw [List.cons_append, isComment_cons, isComment_cons, ih, List.all_cons]
    cases isSpace c <;> simp

theorem isComment_of_spaces {l : Text} (h : l.all isSpace = true) : isComment l = false := by
  have := isComment_append l []
  rw [List.append_nil, h, if_pos rfl] at this
  exact this

/-- White space at the end of a line does not make it a comment. -/
theorem isComment_append_spaces (l : Text) {b : Text} (h : b.all isSpace = true) :
    isComment (l ++ b) = isComment l := by
  rw [isComment_append]
  split
  · next hl => rw [isComment_of_spaces h, isComment_of_spaces hl]
  · rfl

theorem isComment_dropReturn (l : Text) : isComment (dropReturn l) = isComment l := by
  rcases eq_dropReturn_or l with h | h
  · rw [← h]
  · conv_rhs => rw [h]
    exact (isComment_append_spaces _ (by decide)).symm

theorem all_isSpace_of_blanks {b : Text} (h : b.all isBlank = true) : b.all isSpace = true := by
  rw [List.all_eq_true] at h ⊢
  exact fun c member => isSpace_of_isBlank (h c member)

theorem isComment_trimBlanks (l : Text) : isComment (trimBlanks l) = isComment l := by
  obtain ⟨a, b, ha, hb, split⟩ := exists_append_of_stripWhile isBlank l
  conv_rhs => rw [split]
  rw [isComment_append_spaces _ (all_isSpace_of_blanks hb), isComment_append,
    if_pos (all_isSpace_of_blanks ha)]
  rfl

theorem isComment_squeezeSpaces (l : Text) : isComment (squeezeSpaces l) = isComment l := by
  induction l with
  | nil => rfl
  | cons c r ih =>
    rw [squeezeSpaces]
    split
    · next h =>
      simp only [Bool.and_eq_true, beq_iff_eq] at h
      rw [ih, isComment_cons, h.1]
      rfl
    · rw [isComment_cons, isComment_cons, ih]

/-! ## The passes on lines -/

/-- The lines of a text that are no comments. -/
def codeLines (t : Text) : List Text := (lines t).filter fun l => !isComment l

/-- Lines without blanks at their ends and without superfluous spaces; empty ones are left out. -/
def polishLines (ls : List Text) : List Text :=
  ((ls.map trimBlanks).filter fun l => !l.isEmpty).map squeezeSpaces

/-- The lines a text is laid out in. -/
def arrangedLines (t : Text) : List Text :=
  polishLines (finishLines (codeLines (joinContinuations (unifyBreaks t))))

theorem newline_notMem_of_mem_codeLines {t l : Text} (h : l ∈ codeLines t) : '\n' ∉ l :=
  newline_notMem_of_mem_lines (List.mem_filter.1 h).1

theorem arrange_eq (t : Text) : arrange t = unlines (arrangedLines t) := by
  rw [arrange, squeeze, dropComments]
  change unlines (polishLines (lines (unlines (codeLines _)))) = _
  rw [lines_unlines fun l member => newline_notMem_of_mem_codeLines member]
  rfl

theorem squeezeSpaces_sublist (l : Text) : (squeezeSpaces l).Sublist l := by
  fun_induction squeezeSpaces l with
  | case1 => exact List.Sublist.refl _
  | case2 c r _ ih => exact ih.cons c
  | case3 c r _ ih => exact ih.cons_cons c

theorem exists_of_mem_polishLines {ls : List Text} {l : Text} (h : l ∈ polishLines ls) :
    ∃ m ∈ ls, trimBlanks m ≠ [] ∧ l = squeezeSpaces (trimBlanks m) := by
  obtain ⟨k, kept, rfl⟩ := List.mem_map.1 h
  obtain ⟨trimmed, filled⟩ := List.mem_filter.1 kept
  obtain ⟨m, member, rfl⟩ := List.mem_map.1 trimmed
  exact ⟨m, member, by simpa using filled, rfl⟩

theorem newline_notMem_of_mem_arrangedLines {t l : Text} (h : l ∈ arrangedLines t) : '\n' ∉ l := by
  obtain ⟨m, member, -, rfl⟩ := exists_of_mem_polishLines h
  obtain ⟨k, member, sub⟩ := exists_sublist_of_mem_finishLines member
  intro inside
  have := ((squeezeSpaces_sublist _).trans (stripWhile_sublist isBlank m)).trans sub
  exact newline_notMem_of_mem_codeLines member (this.subset inside)

theorem pieces_arrange {t : Text} (h : arrangedLines t ≠ []) :
    pieces '\n' (arrange t) = arrangedLines t := by
  rw [arrange_eq]
  exact pieces_unlines (fun l member => newline_notMem_of_mem_arrangedLines member) h

theorem polishLines_append (ls ms : List Text) :
    polishLines (ls ++ ms) = polishLines ls ++ polishLines ms := by
  simp [polishLines]

/-! ## What arranging takes off -/

theorem flatten_sublist_flatten {ls ms : List Text} (h : ls.Sublist ms) :
    ls.flatten.Sublist ms.flatten := by
  induction h with
  | slnil => exact List.Sublist.refl _
  | cons l _ ih => exact ih.trans (List.sublist_append_right l _)
  | cons_cons l _ ih => exact (List.Sublist.refl l).append ih

theorem flatten_map_sublist {f : Text → Text} (h : ∀ l, (f l).Sublist l) (ls : List Text) :
    (ls.map f).flatten.Sublist ls.flatten := by
  induction ls with
  | nil => exact List.Sublist.refl _
  | cons l ls ih => exact (h l).append ih

theorem flatten_finishLines_sublist (ps : List Text) :
    (finishLines ps).flatten.Sublist ps.flatten := by
  fun_induction finishLines ps with
  | case1 => exact List.Sublist.refl _
  | case2 => exact List.nil_sublist _
  | case3 => exact List.Sublist.refl _
  | case4 p q ps ih => exact (dropReturn_sublist p).append ih

theorem flatten_polishLines_sublist (ls : List Text) :
    (polishLines ls).flatten.Sublist ls.flatten := by
  have trimmed := flatten_map_sublist (stripWhile_sublist isBlank) ls
  refine (flatten_map_sublist squeezeSpaces_sublist _).trans ?_
  exact (flatten_sublist_flatten List.filter_sublist).trans trimmed

/-- Arranging adds no character but spaces and line feeds. -/
theorem count_arrange_le {c : Char} (space : c ≠ ' ') (lineFeed : c ≠ '\n') (t : Text) :
    (arrange t).count c ≤ (unifyBreaks t).count c := by
  have kept : (arrangedLines t).flatten.Sublist
      (pieces '\n' (joinContinuations (unifyBreaks t))).flatten :=
    (flatten_polishLines_sublist _).trans ((flatten_finishLines_sublist _).trans
      ((flatten_sublist_flatten List.filter_sublist).trans (flatten_finishLines_sublist _)))
  calc (arrange t).count c
      = (arrangedLines t).flatten.count c := by rw [arrange_eq, count_unlines lineFeed]
    _ ≤ (pieces '\n' (joinContinuations (unifyBreaks t))).flatten.count c := kept.count_le c
    _ = (joinContinuations (unifyBreaks t)).count c := by
      rw [← count_unlines lineFeed, unlines_pieces]
    _ ≤ (unifyBreaks t).count c := count_joinContinuationsFrom_le space false _

theorem mem_of_mem_arrangedLines {c : Char} (space : c ≠ ' ') (lineFeed : c ≠ '\n') {t l : Text}
    (member : l ∈ arrangedLines t) (inside : c ∈ l) : c ∈ unifyBreaks t := by
  have arranged : 0 < (arrange t).count c := by
    rw [arrange_eq, count_unlines lineFeed, List.count_pos_iff]
    exact List.mem_flatten_of_mem member inside
  exact List.count_pos_iff.1 (arranged.trans_le (count_arrange_le space lineFeed t))

end ImageAudit.Layout
