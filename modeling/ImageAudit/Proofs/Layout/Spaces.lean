import ImageAudit.Proofs.Layout.NormalForm

/-!
# Runs of spaces

Squeezing spaces goes together with all that is done to lines, so that the length of a run of spaces
makes no difference.

* `squeezeSpaces_append`: runs of spaces are squeezed apart from each other.
* `codeLines_squeezeSpaces`, `polishLines_map_squeezeSpaces`: the passes after joining.
* `arrangedLines_congr`: joined texts that differ in runs of spaces only are laid out in the same
  lines.
-/

namespace ImageAudit.Layout

open Text

/-! ## Squeezing texts -/

theorem squeezeSpaces_cons {c : Char} {r : Text} (single : c ≠ ' ' ∨ r.head? ≠ some ' ') :
    squeezeSpaces (c :: r) = c :: squeezeSpaces r := by
  refine if_neg ?_
  simpa [or_iff_not_imp_left] using single

theorem squeezeSpaces_append {a b : Text} (apart : a.getLast? ≠ some ' ' ∨ b.head? ≠ some ' ') :
    squeezeSpaces (a ++ b) = squeezeSpaces a ++ squeezeSpaces b := by
  fun_induction squeezeSpaces a with
  | case1 => rfl
  | case2 c r double ih =>
    simp only [Bool.and_eq_true, beq_iff_eq] at double
    obtain ⟨s, rfl⟩ := List.head?_eq_some_iff.1 double.2
    rw [← ih (by simpa using apart), double.1]
    rfl
  | case3 c r single ih =>
    cases r with
    | nil => exact squeezeSpaces_cons (by simpa using apart)
    | cons d r =>
      have single : c ≠ ' ' ∨ (d :: r ++ b).head? ≠ some ' ' := by
        simpa [or_iff_not_imp_left] using single
      rw [List.cons_append, squeezeSpaces_cons single, ih (by simpa using apart)]
      rfl

theorem squeezeSpaces_append_double (a b : Text) :
    squeezeSpaces (a ++ ' ' :: ' ' :: b) = squeezeSpaces (a ++ ' ' :: b) := by
  induction a with
  | nil => rfl
  | cons c a ih =>
    have first : (a ++ ' ' :: ' ' :: b).head? = (a ++ ' ' :: b).head? := by
      cases a <;> rfl
    rw [List.cons_append, squeezeSpaces, first, ih]
    rfl

theorem squeezeSpaces_squeezeSpaces (l : Text) :
    squeezeSpaces (squeezeSpaces l) = squeezeSpaces l :=
  squeezeSpaces_eq_self (hasDoubleSpace_squeezeSpaces l)

theorem squeezeSpaces_unlines (ls : List Text) :
    squeezeSpaces (unlines ls) = unlines (ls.map squeezeSpaces) := by
  induction ls with
  | nil => rfl
  | cons l ls ih =>
    cases ls with
    | nil => simp [unlines_singleton]
    | cons m ls =>
      have filled : (m :: ls).map squeezeSpaces ≠ [] := List.cons_ne_nil _ _
      rw [unlines_cons l (List.cons_ne_nil m ls), squeezeSpaces_append (.inr (by simp)),
        squeezeSpaces_cons (.inl (by decide)), ih, List.map_cons (l := m :: ls),
        unlines_cons _ filled]

theorem pieces_squeezeSpaces (t : Text) :
    pieces '\n' (squeezeSpaces t) = (pieces '\n' t).map squeezeSpaces := by
  conv_lhs => rw [← unlines_pieces t, squeezeSpaces_unlines]
  refine pieces_unlines (fun m member => ?_) (by simp [pieces_ne_nil])
  obtain ⟨l, piece, rfl⟩ := List.mem_map.1 member
  exact fun inside => notMem_of_mem_pieces piece ((squeezeSpaces_sublist l).subset inside)

/-! ## Squeezing lines -/

theorem dropReturn_squeezeSpaces (l : Text) :
    dropReturn (squeezeSpaces l) = squeezeSpaces (dropReturn l) := by
  by_cases last : l.getLast? = some '\r'
  · obtain ⟨d, rfl⟩ := List.getLast?_eq_some_iff.1 last
    rw [squeezeSpaces_append (.inr (by simp)), dropReturn_concat]
    exact dropReturn_concat _
  · rw [dropReturn_eq_self last, dropReturn_eq_self (by rwa [getLast?_squeezeSpaces])]

theorem finishLines_map_squeezeSpaces (ls : List Text) :
    finishLines (ls.map squeezeSpaces) = (finishLines ls).map squeezeSpaces := by
  fun_induction finishLines ls with
  | case1 => rfl
  | case2 l empty =>
    rw [List.isEmpty_iff.1 empty]
    rfl
  | case3 l filled =>
    have filled' : ¬ (squeezeSpaces l).isEmpty = true := by
      simpa [squeezeSpaces_eq_nil_iff] using filled
    rw [List.map_singleton, finishLines, if_neg filled']
  | case4 l m ls ih =>
    rw [List.map_cons, finishLines_cons _ (by simp), ih, dropReturn_squeezeSpaces, List.map_cons]

theorem codeLines_squeezeSpaces (t : Text) :
    codeLines (squeezeSpaces t) = (codeLines t).map squeezeSpaces := by
  rw [codeLines, lines, pieces_squeezeSpaces, finishLines_map_squeezeSpaces, List.filter_map]
  refine congrArg (List.map _) (List.filter_congr fun l _ => ?_)
  exact congrArg (!·) (isComment_squeezeSpaces l)

theorem dropWhile_squeezeSpaces (l : Text) :
    (squeezeSpaces l).dropWhile isBlank = squeezeSpaces (l.dropWhile isBlank) := by
  fun_induction squeezeSpaces l with
  | case1 => rfl
  | case2 c r double ih =>
    simp only [Bool.and_eq_true, beq_iff_eq] at double
    rw [ih, List.dropWhile_cons_of_pos (by rw [double.1]; rfl)]
  | case3 c r single ih =>
    rw [List.dropWhile_cons, List.dropWhile_cons]
    split
    · exact ih
    · rw [squeezeSpaces, if_neg single]

theorem dropEndWhile_squeezeSpaces (l : Text) :
    dropEndWhile isBlank (squeezeSpaces l) = squeezeSpaces (dropEndWhile isBlank l) := by
  obtain ⟨b, blanks, split⟩ := exists_append_of_dropEndWhile isBlank l
  have solid {c : Char} := getLast?_dropEndWhile (p := isBlank) (t := l) (c := c)
  generalize dropEndWhile isBlank l = d at split solid
  subst split
  have apart : d.getLast? ≠ some ' ' := fun last => absurd (solid last) (by decide)
  have blanks' : (squeezeSpaces b).all isBlank = true := by
    rw [List.all_eq_true] at blanks ⊢
    exact fun c inside => blanks c ((squeezeSpaces_sublist b).subset inside)
  rw [squeezeSpaces_append (.inl apart), dropEndWhile_append _ blanks']
  exact dropEndWhile_eq_self fun c last => solid (by rwa [getLast?_squeezeSpaces] at last)

theorem trimBlanks_squeezeSpaces (l : Text) :
    trimBlanks (squeezeSpaces l) = squeezeSpaces (trimBlanks l) := by
  rw [trimBlanks, stripWhile, dropWhile_squeezeSpaces, dropEndWhile_squeezeSpaces]
  rfl

theorem polishLines_map_squeezeSpaces (ls : List Text) :
    polishLines (ls.map squeezeSpaces) = polishLines ls := by
  induction ls with
  | nil => rfl
  | cons l ls ih =>
    have first : polishLines [squeezeSpaces l] = polishLines [l] := by
      by_cases blank : trimBlanks l = [] <;>
        simp [polishLines, trimBlanks_squeezeSpaces, squeezeSpaces_squeezeSpaces, blank,
          squeezeSpaces_eq_nil_iff, show squeezeSpaces [] = [] from rfl]
    rw [List.map_cons, ← List.singleton_append, polishLines_append, first, ih, ← polishLines_append,
      List.singleton_append]

/-- The length of a run of spaces makes no difference. -/
theorem arrangedLines_congr {t u : Text}
    (same : squeezeSpaces (joinContinuations (unifyBreaks t)) =
      squeezeSpaces (joinContinuations (unifyBreaks u))) : arrangedLines t = arrangedLines u := by
  have squeezed (t : Text) : polishLines (finishLines (codeLines (squeezeSpaces t))) =
      polishLines (finishLines (codeLines t)) := by
    rw [codeLines_squeezeSpaces, finishLines_map_squeezeSpaces, polishLines_map_squeezeSpaces]
  rw [arrangedLines, arrangedLines, ← squeezed, same, squeezed]

end ImageAudit.Layout
