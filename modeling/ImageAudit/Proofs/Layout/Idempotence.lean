import ImageAudit.Proofs.Layout.Replacement

/-!
# Laying out twice

What laying out gives is laid out, but laying it out once more may still change it, for two
reasons: a carriage return at the end of a line is taken for a part of the line break, and an
inserted value may complete a reference or make an ENV line.

* `isLayout_normalLines`, `isLayout_pieces_normalize`: the lines of the result are laid out.
* `substituteLine_eq_self_iff`: a line is left alone exactly if the references it exposes are
  unknown.
* `normalize_normalize_eq_iff`: laying out twice is laying out once exactly if neither reason
  applies.
-/

namespace ImageAudit.Layout

open Text

/-! ## The lines of the result -/

/-- The lines of a text that has been laid out. -/
def normalLines (t : Text) : List Text :=
  (arrangedLines t).map (substituteIn (variablesOf (arrange t)))

theorem normalize_eq (t : Text) : normalize t = unlines (normalLines t) := by
  change unlines ((pieces '\n' (arrange t)).map (substituteIn (variablesOf (arrange t)))) = _
  rw [normalLines]
  by_cases lines : arrangedLines t = []
  · have : arrange t = [] := by
      rw [arrange_eq, lines]
      rfl
    rw [this, lines]
    rfl
  · rw [pieces_arrange lines]

theorem isLayout_normalLines (t : Text) : IsLayout (normalLines t) :=
  (isLayout_arrangedLines t).substitute (Variables.areInsertable_variablesOf _)

theorem pieces_normalize {t : Text} (h : normalLines t ≠ []) :
    pieces '\n' (normalize t) = normalLines t := by
  rw [normalize_eq]
  exact pieces_unlines (fun l member => ((isLayout_normalLines t).neat l member).oneLine) h

theorem normalLines_eq_of_normalize_eq {t u : Text} (h : normalize t = normalize u) :
    normalLines t = normalLines u := by
  -- The lines are filled, so that they are the pieces of the text that are.
  have pieces_filled (t : Text) :
      normalLines t = (pieces '\n' (normalize t)).filter fun l => !l.isEmpty := by
    by_cases none : normalLines t = []
    · rw [normalize_eq, none]
      rfl
    · rw [pieces_normalize none, eq_comm, List.filter_eq_self]
      intro l member
      simpa using ((isLayout_normalLines t).neat l member).filled
  rw [pieces_filled, pieces_filled, h]

/-- The lines of a text that has been laid out are laid out, variables put in or not: each of them
is filled, has no blanks at its ends, no two spaces side by side and no number sign before all
else, and none but the last ends in a backslash. -/
theorem isLayout_pieces_normalize {t : Text} (filled : normalize t ≠ []) :
    IsLayout (pieces '\n' (normalize t)) := by
  have lines : normalLines t ≠ [] := by
    intro empty
    rw [normalize_eq, empty] at filled
    exact filled rfl
  rw [pieces_normalize lines]
  exact isLayout_normalLines t

theorem isLayout_pieces_normalize_value :
    normalize "ENV A='b # c'\nRUN  \\\n\n $A \\".toList ≠ [] ∧
      IsLayout ["ENV A='b # c'".toList, "RUN b # c \\".toList] := by
  have result : normalize "ENV A='b # c'\nRUN  \\\n\n $A \\".toList =
      "ENV A='b # c'\nRUN b # c \\".toList := by decide
  have lines : pieces '\n' "ENV A='b # c'\nRUN b # c \\".toList =
      ["ENV A='b # c'".toList, "RUN b # c \\".toList] := by decide
  have filled : normalize "ENV A='b # c'\nRUN  \\\n\n $A \\".toList ≠ [] := by
    rw [result]
    decide
  have layout := isLayout_pieces_normalize filled
  rw [result, lines] at layout
  exact ⟨filled, layout⟩

/-! ## Exposed references -/

/-- The text ends in a dollar sign and what stays of a reference after it. -/
def EndsInReference (q : Text) : Prop :=
  ∃ p name : Text, name.all isReferenceChar = true ∧
    (q = p ++ '$' :: name ∨ q = p ++ '$' :: '{' :: name)

/-- The line has a dollar sign before `s` that is not protected: something else than white space
stands before it, but no reference directly before it. -/
def IsExposed (l s : Text) : Prop :=
  ∃ q, l = q ++ '$' :: s ∧ q.all isSpace = false ∧ ¬ EndsInReference q

theorem endsInReference_concat_iff {q : Text} {c : Char} :
    EndsInReference (q ++ [c]) ↔
      c = '$' ∨ c = '{' ∧ q.getLast? = some '$' ∨ isReferenceChar c = true ∧ EndsInReference q := by
  constructor
  · rintro ⟨p, name, allowed, split⟩
    rcases List.eq_nil_or_concat name with rfl | ⟨name, d, rfl⟩
    · rcases split with split | split
      · exact .inl (List.append_inj_right' split rfl |> List.singleton_inj.1)
      · rw [List.append_cons p '$'] at split
        obtain ⟨rfl, last⟩ := List.append_inj' split rfl
        exact .inr (.inl ⟨List.singleton_inj.1 last, by simp⟩)
    · rw [List.concat_eq_append] at allowed split
      simp only [List.all_append, List.all_cons, List.all_nil, Bool.and_true,
        Bool.and_eq_true] at allowed
      refine .inr (.inr ?_)
      rcases split with split | split
      · rw [← List.cons_append, ← List.append_assoc] at split
        obtain ⟨rfl, last⟩ := List.append_inj' split rfl
        exact ⟨List.singleton_inj.1 last ▸ allowed.2, p, name, allowed.1, .inl rfl⟩
      · rw [← List.cons_append, ← List.cons_append, ← List.append_assoc] at split
        obtain ⟨rfl, last⟩ := List.append_inj' split rfl
        exact ⟨List.singleton_inj.1 last ▸ allowed.2, p, name, allowed.1, .inr rfl⟩
  · rintro (rfl | ⟨rfl, last⟩ | ⟨allowed, p, name, names, split⟩)
    · exact ⟨q, [], rfl, .inl rfl⟩
    · obtain ⟨p, rfl⟩ := List.getLast?_eq_some_iff.1 last
      exact ⟨p, [], rfl, .inr (by simp)⟩
    · refine ⟨p, name ++ [c], by simp [names, allowed], ?_⟩
      exact split.imp (fun h => by simp [h]) fun h => by simp [h]

theorem not_endsInReference_of_spaces {p : Text} (h : p.all isSpace = true) :
    ¬ EndsInReference p := by
  rintro ⟨q, name, -, split⟩
  have : '$' ∈ p := by rcases split with rfl | rfl <;> simp
  exact absurd (List.all_eq_true.1 h _ this) (by decide)

/-! ## Lines that are left alone -/

/-- The guard tells what stands before the rest of a line: nothing but white space, a reference that
stayed and does not go on, or anything else. -/
def Guard.Fits (g : Guard) (p t : Text) : Prop :=
  match g with
  | .lineStart => p.all isSpace = true
  | .afterReference =>
    p.all isSpace = false ∧ EndsInReference p ∧
      ∀ c r, t = c :: r → c ≠ '$' → ¬ EndsInReference (p ++ [c])
  | .free => p.all isSpace = false ∧ ¬ EndsInReference p

theorem Guard.Fits.eq_free_iff {g : Guard} {p t : Text} (h : g.Fits p t) :
    g = .free ↔ p.all isSpace = false ∧ ¬ EndsInReference p := by
  cases g with
  | lineStart => simp [show p.all isSpace = true from h]
  | afterReference => simp [h.1, h.2.1]
  | free => exact iff_of_true rfl h

theorem Guard.Fits.after {g : Guard} {p r : Text} {c : Char} (h : g.Fits p (c :: r))
    (notDollar : c ≠ '$') : (g.after c).Fits (p ++ [c]) r := by
  have free {p : Text} (before : ¬ EndsInReference p) : ¬ EndsInReference (p ++ [c]) := by
    rw [endsInReference_concat_iff]
    rintro (dollar | ⟨-, last⟩ | ⟨-, ends⟩)
    · exact notDollar dollar
    · obtain ⟨q, rfl⟩ := List.getLast?_eq_some_iff.1 last
      exact before (endsInReference_concat_iff.2 (.inl rfl))
    · exact before ends
  cases g with
  | lineStart =>
    have spaces : p.all isSpace = true := h
    cases hc : isSpace c with
    | true =>
      rw [Guard.after_eq_lineStart.2 ⟨rfl, hc⟩]
      simp [Guard.Fits, spaces, hc]
    | false =>
      have : Guard.after .lineStart c = .free := by simp [Guard.after, hc]
      rw [this]
      exact ⟨by simp [hc], free (not_endsInReference_of_spaces spaces)⟩
  | afterReference => exact ⟨by simp [h.1], h.2.2 c r rfl notDollar⟩
  | free => exact ⟨by simp [h.1], free h.2⟩

theorem dollar_notMem_keptReference (r : Text) : '$' ∉ keptReference r := by
  have (t : Text) : '$' ∉ t.takeWhile isReferenceChar := fun member =>
    absurd (List.mem_takeWhile_imp member) (by decide)
  fun_cases keptReference r with
  | case1 t =>
    rw [List.mem_cons, not_or]
    exact ⟨by decide, this t⟩
  | case2 => exact this r

/-- What stays of a reference does not go on. -/
theorem fits_afterReference (p r : Text) :
    Guard.afterReference.Fits (p ++ '$' :: keptReference r)
      (r.drop (keptReference r).length) := by
  have stops (t : Text) {c : Char} {s : Text}
      (h : t.drop (t.takeWhile isReferenceChar).length = c :: s) : isReferenceChar c = false := by
    rw [drop_length_takeWhile] at h
    exact head?_dropWhile (by rw [h]; rfl)
  refine ⟨by simp [show isSpace '$' = false from by decide], ?_, fun c s rest notDollar => ?_⟩
  · fun_cases keptReference r with
    | case1 t => exact ⟨p, _, List.all_takeWhile, .inr rfl⟩
    | case2 => exact ⟨p, _, List.all_takeWhile, .inl rfl⟩
  · rw [endsInReference_concat_iff]
    rintro (dollar | ⟨brace, last⟩ | ⟨allowed, -⟩)
    · exact notDollar dollar
    · rw [List.getLast?_append, List.getLast?_cons] at last
      cases kept : (keptReference r).getLast? with
      | none =>
        -- A brace directly after the dollar sign would have been kept.
        have empty := List.getLast?_eq_none_iff.1 kept
        rw [empty] at rest
        obtain rfl : r = '{' :: s := by rw [← brace]; exact rest
        rw [keptReference] at empty
        cases empty
      | some d =>
        rw [kept] at last
        have : d = '$' := by simpa using last
        exact dollar_notMem_keptReference r (this ▸ List.mem_of_getLast? kept)
    · revert rest
      fun_cases keptReference r with
      | case1 t =>
        intro rest
        rw [stops t rest] at allowed
        cases allowed
      | case2 =>
        intro rest
        rw [stops r rest] at allowed
        cases allowed

/-- What `IsExposed` says of a line of which `p` has been read and `t` is left. -/
def IsExposedAfter (p t s : Text) : Prop :=
  ∃ q, t = q ++ '$' :: s ∧ (p ++ q).all isSpace = false ∧ ¬ EndsInReference (p ++ q)

theorem isExposedAfter_cons {c : Char} (h : c ≠ '$') (p r s : Text) :
    IsExposedAfter p (c :: r) s ↔ IsExposedAfter (p ++ [c]) r s := by
  constructor
  · rintro ⟨q, split, started, notAfter⟩
    cases q with
    | nil => exact absurd (List.cons.inj split).1 h
    | cons d q =>
      obtain ⟨rfl, tail⟩ := List.cons.inj split
      exact ⟨q, tail, by simpa using started, by simpa using notAfter⟩
  · rintro ⟨q, rfl, started, notAfter⟩
    exact ⟨c :: q, rfl, by simpa using started, by simpa using notAfter⟩

theorem isExposedAfter_append {k : Text} (h : '$' ∉ k) (p r s : Text) :
    IsExposedAfter p (k ++ r) s ↔ IsExposedAfter (p ++ k) r s := by
  induction k generalizing p with
  | nil => rw [List.nil_append, List.append_nil]
  | cons c k ih =>
    rw [List.mem_cons, not_or] at h
    rw [List.cons_append, isExposedAfter_cons (Ne.symm h.1), ih h.2, List.append_assoc,
      List.singleton_append]

theorem isExposedAfter_dollar (p r s : Text) :
    IsExposedAfter p ('$' :: r) s ↔
      r = s ∧ p.all isSpace = false ∧ ¬ EndsInReference p ∨ IsExposedAfter (p ++ ['$']) r s := by
  constructor
  · rintro ⟨q, split, started, notAfter⟩
    cases q with
    | nil =>
      rw [List.append_nil] at started notAfter
      exact .inl ⟨(List.cons.inj split).2, started, notAfter⟩
    | cons d q =>
      obtain ⟨rfl, tail⟩ := List.cons.inj split
      exact .inr ⟨q, tail, by simpa using started, by simpa using notAfter⟩
  · rintro (⟨rfl, started, notAfter⟩ | ⟨q, rfl, started, notAfter⟩)
    · exact ⟨[], rfl, by rwa [List.append_nil], by rwa [List.append_nil]⟩
    · exact ⟨'$' :: q, rfl, by simpa using started, by simpa using notAfter⟩

variable {vars : Variables}

/-- Substitution leaves the rest of a line alone if and only if the references it exposes are
unknown. -/
theorem substituteFrom_eq_self_iff (insertable : vars.AreInsertable) {g : Guard} {p t : Text}
    (fits : g.Fits p t) :
    substituteFrom vars 0 g t = t ↔ ∀ s, IsExposedAfter p t s → reference? vars s = none := by
  induction h : t.length using Nat.strong_induction_on generalizing g p t with
  | _ n ih =>
    subst h
    cases t with
    | nil =>
      refine iff_of_true rfl ?_
      rintro s ⟨q, split, -⟩
      exact absurd split.symm (by simp)
    | cons c r =>
      by_cases dollar : c = '$'
      · subst dollar
        cases found : g.reference? vars r with
        | some v =>
          -- A value does not begin with a dollar sign, and the reference is exposed.
          obtain ⟨value, k⟩ := v
          obtain ⟨free, known⟩ := Guard.reference?_eq_some_iff.1 found
          have exposed : IsExposedAfter p ('$' :: r) r :=
            (isExposedAfter_dollar p r r).2 (.inl ⟨rfl, fits.eq_free_iff.1 free⟩)
          have value := isInsertable_of_reference? insertable known
          obtain ⟨d, s, rfl, -⟩ := exists_cons_of_isInsertable value
          have notDollar : d ≠ '$' := by
            rintro rfl
            exact absurd (isActive_of_mem value List.mem_cons_self) (by decide)
          rw [substituteFrom_replace found]
          refine iff_of_false (fun same => notDollar (List.cons.inj same).1) fun unknown => ?_
          rw [unknown r exposed] at known
          cases known
        | none =>
          have shorter : (r.drop (keptReference r).length).length < ('$' :: r).length := by
            rw [List.length_drop, List.length_cons]
            omega
          have rest := ih _ shorter (fits_afterReference p r) rfl
          have split := keptReference_append_drop r
          have later (s : Text) : IsExposedAfter (p ++ ['$']) r s ↔
              IsExposedAfter (p ++ '$' :: keptReference r)
                (r.drop (keptReference r).length) s := by
            conv_lhs => rw [← split]
            rw [isExposedAfter_append (dollar_notMem_keptReference r), List.append_assoc,
              List.singleton_append]
          have same : substituteFrom vars 0 g ('$' :: r) = '$' :: r ↔
              substituteFrom vars 0 .afterReference (r.drop (keptReference r).length) =
                r.drop (keptReference r).length := by
            rw [substituteFrom_kept found]
            conv_lhs => rhs; rw [← split, ← List.cons_append]
            exact List.append_right_inj _
          rw [same, rest]
          refine forall_congr' fun s => ?_
          rw [isExposedAfter_dollar, later]
          refine ⟨fun unknown exposed => ?_, fun unknown exposed => unknown (.inr exposed)⟩
          rcases exposed with ⟨rfl, exposed⟩ | exposed
          · have free := fits.eq_free_iff.2 exposed
            rwa [Guard.reference?, if_pos free] at found
          · exact unknown exposed
      · -- An ordinary character exposes nothing by itself.
        have rest := ih _ (Nat.lt_succ_self _) (fits.after dollar) rfl
        rw [substituteFrom_cons vars g dollar, List.cons.injEq, eq_self, true_and, rest]
        exact forall_congr' fun s => by rw [isExposedAfter_cons dollar]

/-- Substitution leaves a line alone if and only if the references it exposes are unknown. -/
theorem substituteLine_eq_self_iff (insertable : vars.AreInsertable) (l : Text) :
    substituteLine vars l = l ↔ ∀ s, IsExposed l s → reference? vars s = none :=
  substituteFrom_eq_self_iff insertable (show Guard.lineStart.Fits [] l from rfl)

/-- In a text without dollar signs there is nothing to substitute. -/
theorem normalLines_of_notMem {t : Text} (h : '$' ∉ unifyBreaks t) :
    normalLines t = arrangedLines t := by
  refine map_eq_self_iff.2 fun l member => ?_
  rw [substituteIn]
  split
  · rfl
  · rw [substituteLine_eq_self_iff (Variables.areInsertable_variablesOf _)]
    rintro s ⟨q, split, -⟩
    have dollar : '$' ∈ l := by simp [split]
    exact absurd (mem_of_mem_arrangedLines (by decide) (by decide) member dollar) h

/-! ## Laying out twice -/

theorem newline_notMem_substituteIn (insertable : vars.AreInsertable) {l : Text} (h : '\n' ∉ l) :
    '\n' ∉ substituteIn vars l := by
  rw [substituteIn]
  split
  · exact h
  · exact (replaced_substituteLine vars l).newline_notMem insertable h

theorem pieces_substitute (insertable : vars.AreInsertable) (t : Text) :
    pieces '\n' (substitute vars t) = (pieces '\n' t).map (substituteIn vars) := by
  refine pieces_unlines (fun m member => ?_) (by simp [pieces_ne_nil])
  obtain ⟨l, piece, rfl⟩ := List.mem_map.1 member
  exact newline_notMem_substituteIn insertable (notMem_of_mem_pieces piece)

theorem substitute_eq_self_iff (insertable : vars.AreInsertable) (t : Text) :
    substitute vars t = t ↔
      ∀ l ∈ pieces '\n' t, isEnvLine l = false → ∀ s, IsExposed l s → reference? vars s = none := by
  have lines := pieces_substitute insertable t
  -- Texts are the same if and only if their lines are.
  have cut : substitute vars t = t ↔ (pieces '\n' t).map (substituteIn vars) = pieces '\n' t := by
    refine ⟨fun same => by rw [← lines, same], fun same => ?_⟩
    rw [← unlines_pieces (substitute vars t), lines, same, unlines_pieces]
  rw [cut, map_eq_self_iff]
  refine forall₂_congr fun l _ => ?_
  rw [← substituteLine_eq_self_iff insertable, substituteIn]
  cases isEnvLine l <;> simp

/-- Without stray carriage returns, only substitution can change what has been laid out. -/
theorem arrange_normalize {t : Text}
    (clean : ∀ l ∈ (pieces '\n' (normalize t)).dropLast, l.getLast? ≠ some '\r') :
    arrange (normalize t) = normalize t := by
  by_cases h : normalLines t = []
  · rw [normalize_eq, h]
    rfl
  · rw [pieces_normalize h] at clean
    rw [arrange_eq, normalize_eq, arrangedLines_unlines (isLayout_normalLines t) clean]

theorem count_normalize_le (t : Text) : (normalize t).count '\r' ≤ (unifyBreaks t).count '\r' := by
  refine Nat.le_trans ?_ (count_arrange_le (by decide) (by decide) t)
  rw [normalize_eq, arrange_eq, normalLines, count_unlines (by decide), count_unlines (by decide)]
  induction arrangedLines t with
  | nil => exact Nat.le_refl _
  | cons l ls ih =>
    rw [List.map_cons, List.flatten_cons, List.flatten_cons, List.count_append, List.count_append]
    refine Nat.add_le_add ?_ ih
    rw [substituteIn]
    split
    · exact Nat.le_refl _
    · have insertable := Variables.areInsertable_variablesOf (arrange t)
      exact (replaced_substituteLine _ l).count_le insertable (by decide)

/-- A line of a stable text, the last one aside, does not end in a carriage return. -/
theorem getLast?_ne_of_normalize_eq {t : Text} (stable : normalize t = t) :
    ∀ l ∈ (pieces '\n' t).dropLast, l.getLast? ≠ some '\r' := by
  intro l member stray
  -- Unifying breaks would take the carriage return away, and nothing puts one back.
  have kept := count_normalize_le t
  have lost := count_dropReturns_lt member stray
  rw [stable, unifyBreaks_eq, count_unlines (by decide)] at kept
  rw [← count_unlines (by decide) (pieces '\n' t), unlines_pieces] at lost
  omega

/-- Without stray carriage returns, laying out again substitutes again and does nothing else. -/
theorem normalize_normalize_of_clean {t : Text}
    (clean : ∀ l ∈ (pieces '\n' (normalize t)).dropLast, l.getLast? ≠ some '\r') :
    normalize (normalize t) = substitute (variablesOf (normalize t)) (normalize t) := by
  conv_lhs => rw [normalize]
  rw [arrange_normalize clean]

/-- Laying out twice is laying out once if and only if, after the first time, no line but the last
ends in a carriage return and the references that lines expose are unknown. -/
theorem normalize_normalize_eq_iff (t : Text) :
    normalize (normalize t) = normalize t ↔
      (∀ l ∈ (pieces '\n' (normalize t)).dropLast, l.getLast? ≠ some '\r') ∧
        ∀ l ∈ pieces '\n' (normalize t), isEnvLine l = false →
          ∀ s, IsExposed l s → reference? (variablesOf (normalize t)) s = none := by
  have insertable := Variables.areInsertable_variablesOf (normalize t)
  constructor
  · intro stable
    have clean := getLast?_ne_of_normalize_eq stable
    rw [normalize_normalize_of_clean clean, substitute_eq_self_iff insertable] at stable
    exact ⟨clean, stable⟩
  · rintro ⟨clean, unknown⟩
    rw [normalize_normalize_of_clean clean, substitute_eq_self_iff insertable]
    exact unknown

/-- A value that completes a reference is put into the text the first time only, and makes way for
the value of that reference the second time. -/
theorem normalize_completes_reference :
    normalize "ENV A=1 B=-x\nRUN $\x7bA:$B\x7d".toList =
        "ENV A=1 B=-x\nRUN $\x7bA:-x\x7d".toList ∧
      normalize (normalize "ENV A=1 B=-x\nRUN $\x7bA:$B\x7d".toList) =
        "ENV A=1 B=-x\nRUN 1".toList := by
  decide

end ImageAudit.Layout
