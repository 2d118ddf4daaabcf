import Mathlib.Data.List.Basic
import ImageAudit.Text.Basic

/-!
# Lines

Cutting a text at its line feeds and joining the lines again undo each other, and cutting respects
the concatenation of texts at a line feed.

* `pieces_eq_splitOn` gives the laws of `List.splitOn` to `pieces`.
* `finishLines_concat` says what becomes of the parts between line feeds: only the last one is
  treated in its own way.
* `lines_unlines` says what is lost when lines are joined and read again: one carriage return at the
  end of each line but the last, and a last line that is empty.
-/

namespace ImageAudit.Text

/-! ## Cutting once -/

theorem cut_append {sep : Char} {a : Text} (h : sep ∉ a) (t : Text) :
    cut sep (a ++ t) = (cut sep t).map fun p => (a ++ p.1, p.2) := by
  induction a with
  | nil => simp
  | cons c a ih =>
    rw [List.mem_cons, not_or] at h
    rw [List.cons_append, cut, if_neg (Ne.symm h.1), ih h.2, Option.map_map]
    rfl

/-- A text is cut at the first separator. -/
theorem cut_eq_some_iff {sep : Char} {t a b : Text} :
    cut sep t = some (a, b) ↔ t = a ++ sep :: b ∧ sep ∉ a := by
  constructor
  · intro h
    induction t generalizing a with
    | nil => cases h
    | cons c r ih =>
      rw [cut] at h
      split at h
      · next same =>
        cases h
        exact ⟨by rw [same]; rfl, List.not_mem_nil⟩
      · next other =>
        obtain ⟨⟨a', b'⟩, found, same⟩ := Option.map_eq_some_iff.1 h
        cases same
        obtain ⟨rfl, absent⟩ := ih found
        refine ⟨rfl, ?_⟩
        rw [List.mem_cons, not_or]
        exact ⟨Ne.symm other, absent⟩
  · rintro ⟨rfl, absent⟩
    simp [cut_append absent, cut]

theorem cut_eq_none_iff {sep : Char} {t : Text} : cut sep t = none ↔ sep ∉ t := by
  induction t with
  | nil => exact iff_of_true rfl List.not_mem_nil
  | cons c r ih =>
    rw [cut, List.mem_cons, not_or]
    split
    · next same => exact iff_of_false (Option.some_ne_none _) fun h => h.1 same.symm
    · next other =>
      rw [Option.map_eq_none_iff, ih]
      exact ⟨fun absent => ⟨Ne.symm other, absent⟩, And.right⟩

/-- What stands before the first separator, or the whole text if there is none. -/
theorem cut_getD (sep : Char) (t : Text) :
    ((cut sep t).map (·.1)).getD t = t.takeWhile (· != sep) := by
  induction t with
  | nil => rfl
  | cons c r ih =>
    by_cases same : c = sep
    · simp [cut, same]
    · rw [List.takeWhile_cons_of_pos (by simp [same]), ← ih, cut, if_neg same]
      cases cut sep r <;> rfl

theorem cutLast_eq_none_iff {sep : Char} {t : Text} : cutLast sep t = none ↔ sep ∉ t := by
  induction t with
  | nil => exact iff_of_true rfl List.not_mem_nil
  | cons c r ih =>
    rw [cutLast, List.mem_cons, not_or, ← ih]
    cases found : cutLast sep r with
    | some p => exact iff_of_false (Option.some_ne_none _) fun h => Option.some_ne_none _ h.2
    | none =>
      by_cases same : c = sep
      · simp [same]
      · simp [same, Ne.symm same]

/-- A text is cut at the last separator. -/
theorem cutLast_eq_some_iff {sep : Char} {t a b : Text} :
    cutLast sep t = some (a, b) ↔ t = a ++ sep :: b ∧ sep ∉ b := by
  constructor
  · intro h
    induction t generalizing a with
    | nil => cases h
    | cons c r ih =>
      rw [cutLast] at h
      cases found : cutLast sep r with
      | some p =>
        rw [found] at h
        cases h
        obtain ⟨rfl, absent⟩ := ih found
        exact ⟨rfl, absent⟩
      | none =>
        simp only [found] at h
        split at h
        · next same =>
          cases h
          exact ⟨by rw [same]; rfl, cutLast_eq_none_iff.1 found⟩
        · cases h
  · rintro ⟨rfl, absent⟩
    induction a with
    | nil => simp [cutLast, cutLast_eq_none_iff.2 absent]
    | cons c a ih => rw [List.cons_append, cutLast, ih]

/-- Reading a fixed ending gives back what stands before it, and nothing else. -/
theorem dropSuffix?_eq_some_iff {p t r : Text} : dropSuffix? p t = some r ↔ t = r ++ p := by
  rw [dropSuffix?, Option.map_eq_some_iff]
  constructor
  · rintro ⟨r, found, rfl⟩
    have := dropPrefix?_eq_some_iff.1 found
    simpa using congrArg List.reverse this
  · rintro rfl
    exact ⟨r.reverse, dropPrefix?_eq_some_iff.2 (by simp), by simp⟩

/-! ## Pieces -/

theorem pushFirst_eq_modifyHead (c : Char) {ps : List Text} (h : ps ≠ []) :
    pushFirst c ps = ps.modifyHead (c :: ·) := by
  cases ps with
  | nil => exact absurd rfl h
  | cons p ps => rfl

theorem pieces_eq_splitOn (sep : Char) (t : Text) : pieces sep t = t.splitOn sep := by
  induction t with
  | nil => rfl
  | cons c r ih =>
    rw [pieces, ih, List.splitOn_cons_eq_if_modifyHead,
      pushFirst_eq_modifyHead c (List.splitOn_ne_nil sep r)]
    simp only [beq_iff_eq]

theorem pieces_ne_nil (sep : Char) (t : Text) : pieces sep t ≠ [] := by
  rw [pieces_eq_splitOn]
  exact List.splitOn_ne_nil sep t

theorem pieces_of_notMem {sep : Char} {t : Text} (h : sep ∉ t) : pieces sep t = [t] := by
  rw [pieces_eq_splitOn]
  exact List.splitOn_eq_singleton h

theorem pieces_append (sep : Char) (a b : Text) :
    pieces sep (a ++ sep :: b) = pieces sep a ++ pieces sep b := by
  simp only [pieces_eq_splitOn]
  exact List.splitOn_append_cons_self a b

theorem pieces_append_of_notMem {sep : Char} {a : Text} (h : sep ∉ a) (t : Text) :
    pieces sep (a ++ t) = (pieces sep t).modifyHead (a ++ ·) := by
  induction a with
  | nil => cases pieces : pieces sep t <;> simp [pieces]
  | cons c a ih =>
    simp only [List.mem_cons, not_or] at h
    rw [List.cons_append, pieces, if_neg (Ne.symm h.1), ih h.2,
      pushFirst_eq_modifyHead c (by simp [pieces_ne_nil])]
    cases pieces sep t <;> rfl

theorem notMem_of_mem_pieces {sep : Char} {t l : Text} (h : l ∈ pieces sep t) : sep ∉ l := by
  induction t generalizing l with
  | nil => simp_all [pieces]
  | cons c r ih =>
    rw [pieces] at h
    split at h
    · rcases List.mem_cons.1 h with rfl | h
      · exact List.not_mem_nil
      · exact ih h
    · next hc =>
      obtain ⟨p, ps, hps⟩ := List.exists_cons_of_ne_nil (pieces_ne_nil sep r)
      rw [hps, pushFirst] at h
      rcases List.mem_cons.1 h with rfl | h
      · have := ih (hps ▸ List.mem_cons_self ..)
        simp only [List.mem_cons, not_or]
        exact ⟨fun e => hc e.symm, this⟩
      · exact ih (hps ▸ List.mem_cons_of_mem p h)

theorem map_eq_self_iff {f : Text → Text} {ls : List Text} :
    ls.map f = ls ↔ ∀ l ∈ ls, f l = l := by
  have := List.map_eq_map_iff (l := ls) (f := f) (g := id)
  rwa [List.map_id] at this

theorem dropLast_sublist_dropLast {ls ms : List Text} (h : ls.Sublist ms) :
    ls.dropLast.Sublist ms.dropLast := by
  rw [← List.reverse_sublist, ← List.tail_reverse, ← List.tail_reverse]
  exact h.reverse.tail

/-! ## Joining -/

theorem unlines_pieces (t : Text) : unlines (pieces '\n' t) = t := by
  rw [unlines, pieces_eq_splitOn]
  exact List.intercalate_splitOn '\n'

theorem pieces_unlines {ls : List Text} (h : ∀ l ∈ ls, '\n' ∉ l) (hne : ls ≠ []) :
    pieces '\n' (unlines ls) = ls := by
  rw [unlines, pieces_eq_splitOn]
  exact List.splitOn_intercalate '\n' h hne

/-- What empty lines do not add to is gathered from the lines that are joined. -/
theorem flatMap_pieces_unlines {α : Type} {ls : List Text} (h : ∀ l ∈ ls, '\n' ∉ l)
    {f : Text → List α} (empty : f [] = []) :
    (pieces '\n' (unlines ls)).flatMap f = ls.flatMap f := by
  cases ls with
  | nil =>
    change [[]].flatMap f = _
    rw [List.flatMap_singleton, empty, List.flatMap_nil]
  | cons l ls => rw [pieces_unlines h (List.cons_ne_nil l ls)]

theorem unlines_cons (l : Text) {ls : List Text} (h : ls ≠ []) :
    unlines (l :: ls) = l ++ '\n' :: unlines ls := by
  rw [unlines, List.intercalate_cons_of_ne_nil h]
  simp [unlines]

theorem unlines_singleton (l : Text) : unlines [l] = l := by
  simp [unlines]

theorem unlines_append {ls ms : List Text} (hls : ls ≠ []) (hms : ms ≠ []) :
    unlines (ls ++ ms) = unlines ls ++ '\n' :: unlines ms := by
  induction ls with
  | nil => exact absurd rfl hls
  | cons l ls ih =>
    rw [List.cons_append, unlines_cons l (by simp [hms])]
    cases ls with
    | nil => rw [unlines_singleton, List.nil_append]
    | cons k ls =>
      rw [ih (List.cons_ne_nil k ls), unlines_cons l (List.cons_ne_nil k ls), List.append_assoc,
        List.cons_append]

theorem unlines_concat {ls : List Text} (h : ls ≠ []) (l : Text) :
    unlines (ls ++ [l]) = unlines ls ++ '\n' :: l := by
  rw [unlines_append h (List.cons_ne_nil l []), unlines_singleton]

/-- Lines, each with a line feed after it. -/
def endLines (ls : List Text) : Text := ls.flatMap (· ++ ['\n'])

theorem endLines_cons (l : Text) (ls : List Text) :
    endLines (l :: ls) = l ++ '\n' :: endLines ls := by
  simp [endLines]

theorem endLines_eq_unlines {ls : List Text} (h : ls ≠ []) :
    endLines ls = unlines ls ++ ['\n'] := by
  induction ls with
  | nil => exact absurd rfl h
  | cons l ls ih =>
    rw [endLines_cons]
    cases ls with
    | nil => rw [unlines_singleton, endLines, List.flatMap_nil]
    | cons m ls =>
      rw [ih (List.cons_ne_nil m ls), unlines_cons l (List.cons_ne_nil m ls), List.append_assoc,
        List.cons_append]

theorem endLines_pieces (t : Text) : endLines (pieces '\n' t) = t ++ ['\n'] := by
  rw [endLines_eq_unlines (pieces_ne_nil '\n' t), unlines_pieces]

theorem mem_of_mem_pieces {t l : Text} {c : Char} (member : l ∈ pieces '\n' t) (inside : c ∈ l) :
    c ∈ t := by
  have ended : c ∈ endLines (pieces '\n' t) :=
    List.mem_flatMap.2 ⟨l, member, List.mem_append_left _ inside⟩
  rw [endLines_pieces, List.mem_append, List.mem_singleton] at ended
  exact ended.resolve_right fun same => notMem_of_mem_pieces member (same ▸ inside)

theorem getLast?_unlines_concat (ls : List Text) {l : Text} (h : l ≠ []) :
    (unlines (ls ++ [l])).getLast? = l.getLast? := by
  cases ls with
  | nil => rw [List.nil_append, unlines_singleton]
  | cons k ls =>
    obtain ⟨c, r, rfl⟩ := List.exists_cons_of_ne_nil h
    rw [unlines_concat (List.cons_ne_nil k ls), List.getLast?_append, List.getLast?_cons_cons,
      List.getLast?_eq_some_getLast h]
    rfl

theorem count_unlines {c : Char} (h : c ≠ '\n') (ls : List Text) :
    (unlines ls).count c = ls.flatten.count c := by
  induction ls with
  | nil => rfl
  | cons l ls ih =>
    cases ls with
    | nil => simp [unlines]
    | cons m ls =>
      rw [unlines_cons l (by simp), List.flatten_cons, List.count_append, List.count_append,
        List.count_cons_of_ne (Ne.symm h), ih]

/-! ## Carriage returns at the ends of lines -/

/-- Drops a carriage return at the end of each line but the last. -/
def dropReturns : List Text → List Text
  | [] => []
  | [l] => [l]
  | l :: m :: ls => dropReturn l :: dropReturns (m :: ls)

theorem dropReturn_cons (c : Char) {r : Text} (h : r ≠ []) :
    dropReturn (c :: r) = c :: dropReturn r := by
  rw [dropReturn]
  rintro rfl
  exact h

theorem dropReturn_concat (l : Text) : dropReturn (l ++ ['\r']) = l := by
  induction l with
  | nil => rfl
  | cons c l ih =>
    rw [List.cons_append, dropReturn, ih]
    simp

theorem eq_dropReturn_or (l : Text) : l = dropReturn l ∨ l = dropReturn l ++ ['\r'] := by
  induction l with
  | nil => exact .inl rfl
  | cons c r ih =>
    cases r with
    | nil =>
      by_cases hc : c = '\r'
      · subst hc
        exact .inr rfl
      · exact .inl (by simp [dropReturn, hc])
    | cons d r =>
      rw [dropReturn_cons c (List.cons_ne_nil d r)]
      rcases ih with ih | ih
      · exact .inl (congrArg (c :: ·) ih)
      · exact .inr (congrArg (c :: ·) ih)

theorem dropReturn_eq_self {l : Text} (h : l.getLast? ≠ some '\r') : dropReturn l = l := by
  rcases eq_dropReturn_or l with same | same
  · exact same.symm
  · rw [same] at h
    exact absurd List.getLast?_concat h

theorem dropReturn_sublist (l : Text) : (dropReturn l).Sublist l := by
  rcases eq_dropReturn_or l with same | same
  · rw [← same]
  · have sub := List.sublist_append_left (dropReturn l) ['\r']
    rwa [← same] at sub

theorem dropReturns_cons (l : Text) {ls : List Text} (h : ls ≠ []) :
    dropReturns (l :: ls) = dropReturn l :: dropReturns ls := by
  cases ls with
  | nil => exact absurd rfl h
  | cons m ls => rfl

theorem dropReturns_ne_nil {ls : List Text} (h : ls ≠ []) : dropReturns ls ≠ [] := by
  cases ls with
  | nil => exact absurd rfl h
  | cons l ls =>
    cases ls with
    | nil => exact List.cons_ne_nil l []
    | cons m ls => exact List.cons_ne_nil _ _

theorem dropReturns_append (ps : List Text) {qs : List Text} (h : qs ≠ []) :
    dropReturns (ps ++ qs) = ps.map dropReturn ++ dropReturns qs := by
  induction ps with
  | nil => rfl
  | cons p ps ih =>
    rw [List.cons_append, dropReturns_cons p (by simp [h]), ih]
    rfl

theorem dropReturns_concat (ls : List Text) (l : Text) :
    dropReturns (ls ++ [l]) = ls.map dropReturn ++ [l] :=
  dropReturns_append ls (List.cons_ne_nil l [])

theorem dropReturns_eq_self {ls : List Text} (h : ∀ l ∈ ls.dropLast, l.getLast? ≠ some '\r') :
    dropReturns ls = ls := by
  obtain rfl | ⟨ls, l, rfl⟩ := ls.eq_nil_or_concat'
  · rfl
  · rw [List.dropLast_concat] at h
    rw [dropReturns_concat, List.map_congr_left fun k member => dropReturn_eq_self (h k member),
      List.map_id']

theorem flatten_dropReturns_sublist (ls : List Text) :
    (dropReturns ls).flatten.Sublist ls.flatten := by
  induction ls with
  | nil => exact List.Sublist.refl _
  | cons l ls ih =>
    cases ls with
    | nil => exact List.Sublist.refl _
    | cons m ls => exact (dropReturn_sublist l).append ih

/-- A carriage return at the end of a line but the last gets lost. -/
theorem count_dropReturns_lt {ls : List Text} {l : Text} (member : l ∈ ls.dropLast)
    (h : l.getLast? = some '\r') :
    (dropReturns ls).flatten.count '\r' < ls.flatten.count '\r' := by
  induction ls with
  | nil => cases member
  | cons k ls ih =>
    cases ls with
    | nil => cases member
    | cons m ls =>
      rw [dropReturns_cons k (List.cons_ne_nil m ls), List.flatten_cons, List.flatten_cons,
        List.count_append, List.count_append]
      rw [List.dropLast_cons_cons] at member
      rcases List.mem_cons.1 member with rfl | member
      · obtain ⟨r, rfl⟩ := List.getLast?_eq_some_iff.1 h
        have rest := (flatten_dropReturns_sublist (m :: ls)).count_le '\r'
        rw [dropReturn_concat, List.count_append, List.count_singleton_self]
        omega
      · have first := (dropReturn_sublist k).count_le '\r'
        have rest := ih member
        omega

/-! ## Reading lines -/

theorem finishLines_cons (l : Text) {ls : List Text} (h : ls ≠ []) :
    finishLines (l :: ls) = dropReturn l :: finishLines ls := by
  cases ls with
  | nil => exact absurd rfl h
  | cons m ls => rfl

theorem finishLines_append (ps : List Text) {qs : List Text} (h : qs ≠ []) :
    finishLines (ps ++ qs) = ps.map dropReturn ++ finishLines qs := by
  induction ps with
  | nil => rfl
  | cons p ps ih =>
    rw [List.cons_append, finishLines_cons p (by simp [h]), ih]
    rfl

/-- Only the last part is looked at as to whether it holds something. -/
theorem finishLines_concat (ps : List Text) (p : Text) :
    finishLines (ps ++ [p]) = ps.map dropReturn ++ if p.isEmpty then [] else [p] :=
  finishLines_append ps (List.cons_ne_nil p [])

theorem mem_finishLines {ps : List Text} {l : Text} (h : l ∈ finishLines ps) :
    ∃ p ∈ ps, l = p ∨ l = dropReturn p := by
  obtain rfl | ⟨ps, p, rfl⟩ := ps.eq_nil_or_concat'
  · cases h
  · rw [finishLines_concat] at h
    rcases List.mem_append.1 h with h | h
    · obtain ⟨k, member, rfl⟩ := List.mem_map.1 h
      exact ⟨k, List.mem_append_left _ member, .inr rfl⟩
    · split at h
      · cases h
      · exact ⟨p, List.mem_append_right _ (List.mem_singleton_self p),
          .inl (List.mem_singleton.1 h)⟩

theorem exists_of_mem_dropLast_finishLines {ps : List Text} {l : Text}
    (h : l ∈ (finishLines ps).dropLast) : ∃ p ∈ ps.dropLast, l = dropReturn p := by
  obtain rfl | ⟨ps, p, rfl⟩ := ps.eq_nil_or_concat'
  · cases h
  · rw [finishLines_concat] at h
    -- If nothing stands in the last part, the last line is one of those before it.
    have before : l ∈ ps.map dropReturn := by
      split at h
      · rw [List.append_nil] at h
        exact List.dropLast_subset _ h
      · rwa [List.dropLast_concat] at h
    obtain ⟨k, member, rfl⟩ := List.mem_map.1 before
    exact ⟨k, by rwa [List.dropLast_concat], rfl⟩

theorem exists_sublist_of_mem_finishLines {ps : List Text} {l : Text} (h : l ∈ finishLines ps) :
    ∃ p ∈ ps, l.Sublist p := by
  obtain ⟨p, member, rfl | rfl⟩ := mem_finishLines h
  · exact ⟨l, member, List.Sublist.refl l⟩
  · exact ⟨p, member, dropReturn_sublist p⟩

theorem newline_notMem_of_mem_lines {t l : Text} (h : l ∈ lines t) : '\n' ∉ l := by
  obtain ⟨p, member, sub⟩ := exists_sublist_of_mem_finishLines h
  exact fun inside => notMem_of_mem_pieces member (sub.subset inside)

theorem lines_of_notMem {t : Text} (h : '\n' ∉ t) (hne : t ≠ []) : lines t = [t] := by
  rw [lines, pieces_of_notMem h, finishLines, if_neg (by simpa using hne)]

/-- The lines of joined lines. -/
theorem lines_unlines {ls : List Text} (h : ∀ l ∈ ls, '\n' ∉ l) :
    lines (unlines ls) = finishLines ls := by
  cases ls with
  | nil => rfl
  | cons l ls => rw [lines, pieces_unlines h (by simp)]

theorem lines_append (a b : Text) :
    lines (a ++ '\n' :: b) = (pieces '\n' a).map dropReturn ++ lines b := by
  rw [lines, pieces_append, finishLines_append _ (pieces_ne_nil '\n' b)]
  rfl

/-- Reading lines keeps them apart from the returns at their ends, unless the last one is empty. -/
theorem finishLines_eq_dropReturns {ls : List Text} (h : ∀ l ∈ ls, l ≠ []) :
    finishLines ls = dropReturns ls := by
  obtain rfl | ⟨ls, l, rfl⟩ := ls.eq_nil_or_concat'
  · rfl
  · have holds : l ≠ [] := h l (List.mem_append_right ls (List.mem_singleton_self l))
    rw [finishLines_concat, dropReturns_concat, if_neg (by simpa using holds)]

end ImageAudit.Text
