import ImageAudit.Layout.Substitution
import ImageAudit.Proofs.Layout.Arrange

/-!
# Laid out lines

`IsLayout` says of a list of lines what laying out brings about, and laying out leaves such lines
alone.

* `isLayout_arrangedLines`: the lines of an arranged text are laid out.
* `arrangedLines_unlines`: laid out lines are arranged as they are, if none of them but the last
  ends in a carriage return.
-/

namespace ImageAudit.Layout

open Text

/-- A line as laying out leaves it. -/
structure IsNeat (l : Text) : Prop where
  filled : l ≠ []
  oneLine : '\n' ∉ l
  first : ∀ c, l.head? = some c → isBlank c = false
  last : ∀ c, l.getLast? = some c → isBlank c = false
  single : hasDoubleSpace l = false
  code : isComment l = false

/-- Neat lines none of which runs on into the next one. -/
structure IsLayout (ls : List Text) : Prop where
  neat : ∀ l ∈ ls, IsNeat l
  closed : ∀ l ∈ ls.dropLast, endsInBackslash l = false

/-! ## Squeezed spaces -/

theorem hasDoubleSpace_cons (c : Char) (r : Text) :
    hasDoubleSpace (c :: r) = (c == ' ' && r.head? == some ' ' || hasDoubleSpace r) := by
  cases r with
  | nil => simp [hasDoubleSpace]
  | cons d r =>
    by_cases hc : c = ' '
    · by_cases hd : d = ' '
      · simp [hc, hd, hasDoubleSpace]
      · rw [hasDoubleSpace]
        · simp [hd]
        · rintro s - same
          exact hd (by simpa using (List.cons.inj same).1)
    · rw [hasDoubleSpace]
      · simp [hc]
      · rintro s rfl
        exact absurd rfl hc

theorem hasDoubleSpace_append (a b : Text) :
    hasDoubleSpace (a ++ b) =
      (hasDoubleSpace a || hasDoubleSpace b || a.getLast? == some ' ' && b.head? == some ' ') := by
  induction a with
  | nil => simp [hasDoubleSpace]
  | cons c a ih =>
    rw [List.cons_append, hasDoubleSpace_cons, ih, hasDoubleSpace_cons]
    cases a with
    | nil =>
      rw [List.nil_append]
      simp [hasDoubleSpace, Bool.or_comm]
    | cons d a =>
      rw [List.getLast?_cons_cons, List.cons_append, List.head?_cons, List.head?_cons]
      simp only [Bool.or_assoc]

theorem head?_squeezeSpaces (l : Text) : (squeezeSpaces l).head? = l.head? := by
  fun_induction squeezeSpaces l with
  | case1 => rfl
  | case2 c r h ih =>
    simp only [Bool.and_eq_true, beq_iff_eq] at h
    rw [ih, h.2, h.1]
    rfl
  | case3 c r _ ih => rfl

theorem getLast?_squeezeSpaces (l : Text) : (squeezeSpaces l).getLast? = l.getLast? := by
  fun_induction squeezeSpaces l with
  | case1 => rfl
  | case2 c r h ih =>
    simp only [Bool.and_eq_true, beq_iff_eq] at h
    obtain ⟨s, rfl⟩ := List.head?_eq_some_iff.1 h.2
    rw [ih, List.getLast?_cons_cons]
  | case3 c r _ ih => rw [List.getLast?_cons, List.getLast?_cons, ih]

theorem squeezeSpaces_eq_nil_iff {l : Text} : squeezeSpaces l = [] ↔ l = [] := by
  rw [← List.head?_eq_none_iff, head?_squeezeSpaces, List.head?_eq_none_iff]

theorem hasDoubleSpace_squeezeSpaces (l : Text) : hasDoubleSpace (squeezeSpaces l) = false := by
  fun_induction squeezeSpaces l with
  | case1 => rfl
  | case2 _ _ _ ih => exact ih
  | case3 c r h ih =>
    rw [hasDoubleSpace_cons, head?_squeezeSpaces, ih, Bool.or_false]
    exact eq_false_of_ne_true h

theorem squeezeSpaces_eq_self {l : Text} (h : hasDoubleSpace l = false) : squeezeSpaces l = l := by
  induction l with
  | nil => rfl
  | cons c r ih =>
    rw [hasDoubleSpace_cons, Bool.or_eq_false_iff] at h
    rw [squeezeSpaces, if_neg (ne_true_of_eq_false h.1), ih h.2]

/-! ## Backslashes at the ends of lines -/

theorem endsInBackslash_trimBlanks (l : Text) :
    endsInBackslash (trimBlanks l) = endsInBackslash l := by
  obtain ⟨a, b, ha, hb, split⟩ := exists_append_of_stripWhile isBlank l
  conv_rhs => rw [split]
  rw [endsInBackslash_append_fillers _ (all_isFiller_of_blanks hb), endsInBackslash_append,
    endsInBackslash_of_fillers (all_isFiller_of_blanks ha), Bool.and_false, Bool.or_false]
  rfl

theorem all_isFiller_squeezeSpaces (l : Text) :
    (squeezeSpaces l).all isFiller = l.all isFiller := by
  fun_induction squeezeSpaces l with
  | case1 => rfl
  | case2 c r h ih =>
    simp only [Bool.and_eq_true, beq_iff_eq] at h
    rw [ih, List.all_cons, h.1, show isFiller ' ' = true from by decide, Bool.true_and]
  | case3 c r _ ih => rw [List.all_cons, List.all_cons, ih]

theorem endsInBackslash_squeezeSpaces (l : Text) :
    endsInBackslash (squeezeSpaces l) = endsInBackslash l := by
  fun_induction squeezeSpaces l with
  | case1 => rfl
  | case2 c r h ih =>
    simp only [Bool.and_eq_true, beq_iff_eq] at h
    rw [ih, endsInBackslash_cons, h.1]
    simp
  | case3 c r _ ih =>
    rw [endsInBackslash_cons, endsInBackslash_cons, ih, all_isFiller_squeezeSpaces]

/-! ## Arranged lines are laid out -/

theorem isNeat_of_mem_arrangedLines {t l : Text} (h : l ∈ arrangedLines t) : IsNeat l := by
  have oneLine := newline_notMem_of_mem_arrangedLines h
  obtain ⟨m, finished, filled, rfl⟩ := exists_of_mem_polishLines h
  -- Comments are left out before the lines are cut anew, which changes their ends only.
  have code : isComment m = false := by
    obtain ⟨k, member, hk⟩ := mem_finishLines finished
    have : isComment k = false := by simpa using (List.mem_filter.1 member).2
    rcases hk with rfl | rfl
    · exact this
    · rw [isComment_dropReturn, this]
  exact {
    filled := mt squeezeSpaces_eq_nil_iff.1 filled
    oneLine := oneLine
    first := fun c hc => head?_stripWhile (by rwa [head?_squeezeSpaces] at hc)
    last := fun c hc => getLast?_stripWhile (by rwa [getLast?_squeezeSpaces] at hc)
    single := hasDoubleSpace_squeezeSpaces _
    code := by rw [isComment_squeezeSpaces, isComment_trimBlanks, code] }

/-- No line but the last ends in a backslash: what joining brings about, the later passes keep. -/
theorem endsInBackslash_of_mem_arrangedLines {t l : Text} (h : l ∈ (arrangedLines t).dropLast) :
    endsInBackslash l = false := by
  have joined : ∀ p ∈ (pieces '\n' (joinContinuations (unifyBreaks t))).dropLast,
      endsInBackslash p = false := by
    rw [← hasContinuation_unlines fun _ => notMem_of_mem_pieces, unlines_pieces]
    exact hasContinuation_joinContinuations _
  -- Back from the polished line to the piece of the joined text it comes from.
  rw [arrangedLines, polishLines, ← List.map_dropLast] at h
  obtain ⟨k, kept, rfl⟩ := List.mem_map.1 h
  have trimmed := (dropLast_sublist_dropLast List.filter_sublist).subset kept
  rw [← List.map_dropLast] at trimmed
  obtain ⟨m, finished, rfl⟩ := List.mem_map.1 trimmed
  obtain ⟨n, code, rfl⟩ := exists_of_mem_dropLast_finishLines finished
  have line := (dropLast_sublist_dropLast List.filter_sublist).subset code
  obtain ⟨p, piece, rfl⟩ := exists_of_mem_dropLast_finishLines line
  rw [endsInBackslash_squeezeSpaces, endsInBackslash_trimBlanks, endsInBackslash_dropReturn,
    endsInBackslash_dropReturn, joined p piece]

theorem isLayout_arrangedLines (t : Text) : IsLayout (arrangedLines t) where
  neat _ h := isNeat_of_mem_arrangedLines h
  closed _ h := endsInBackslash_of_mem_arrangedLines h

/-! ## Laid out lines are arranged already -/

theorem polishLines_eq_self {ls : List Text} (h : ∀ l ∈ ls, IsNeat l) : polishLines ls = ls := by
  have trimmed : ls.map trimBlanks = ls :=
    map_eq_self_iff.2 fun l member => stripWhile_eq_self (h l member).first (h l member).last
  have filled : ls.filter (fun l => !l.isEmpty) = ls := by
    rw [List.filter_eq_self]
    intro l member
    simpa using (h l member).filled
  rw [polishLines, trimmed, filled]
  exact map_eq_self_iff.2 fun l member => squeezeSpaces_eq_self (h l member).single

/-- Laid out lines without stray carriage returns are arranged as they are. -/
theorem arrangedLines_unlines {ls : List Text} (h : IsLayout ls)
    (clean : ∀ l ∈ ls.dropLast, l.getLast? ≠ some '\r') : arrangedLines (unlines ls) = ls := by
  cases ls with
  | nil => rfl
  | cons k ks =>
    -- Each pass finds its work done: breaks, continuations, comments and blanks, one by one.
    have oneLine : ∀ l ∈ k :: ks, '\n' ∉ l := fun l member => (h.neat l member).oneLine
    have finished : finishLines (k :: ks) = k :: ks := by
      rw [finishLines_eq_dropReturns fun l member => (h.neat l member).filled,
        dropReturns_eq_self clean]
    have breaks : unifyBreaks (unlines (k :: ks)) = unlines (k :: ks) := by
      rw [unifyBreaks_eq, pieces_unlines oneLine (List.cons_ne_nil k ks), dropReturns_eq_self clean]
    have code : codeLines (unlines (k :: ks)) = k :: ks := by
      rw [codeLines, lines_unlines oneLine, finished, List.filter_eq_self]
      intro l member
      rw [(h.neat l member).code]
      rfl
    have joined := joinContinuations_eq_self ((hasContinuation_unlines oneLine).2 h.closed)
    rw [arrangedLines, breaks, joined, code, finished, polishLines_eq_self h.neat]

end ImageAudit.Layout
