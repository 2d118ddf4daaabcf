import ImageAudit.Layout.Lines
import ImageAudit.Proofs.Text.Ends
import ImageAudit.Proofs.Text.Lines

/-!
# Continuations

A line is continued if it ends in a backslash, fillers aside, and another line follows.

* `hasContinuation_joinContinuations`: after joining, no line but the last ends in a backslash.
* `joinContinuations_eq_self`: joining leaves alone what has no continuation.
* `joinContinuationsFrom_append`: two texts that meet at the end of a line are joined apart from
  each other, unless a continuation is open there.
* `passesAfter_endLines`: the last line that is not blank decides whether one is open.
-/

namespace ImageAudit.Layout

open Text

/-! ## Fillers -/

theorem isFiller_of_isBlank {c : Char} (h : isBlank c = true) : isFiller c = true := by
  rw [isFiller, Bool.or_eq_true]
  exact .inl h

theorem all_isFiller_of_blanks {b : Text} (h : b.all isBlank = true) : b.all isFiller = true := by
  rw [List.all_eq_true] at h ⊢
  exact fun c member => isFiller_of_isBlank (h c member)

theorem isSpace_of_isFiller {c : Char} (h : isFiller c = true) : isSpace c = true := by
  simp only [isFiller, Bool.or_eq_true, beq_iff_eq] at h
  rcases h with (rfl | rfl) | rfl <;> decide

theorem all_isSpace_of_fillers {f : Text} (h : f.all isFiller = true) : f.all isSpace = true := by
  rw [List.all_eq_true] at h ⊢
  exact fun c member => isSpace_of_isFiller (h c member)

theorem newline_notMem_of_fillers {f : Text} (h : f.all isFiller = true) : '\n' ∉ f :=
  fun inside => absurd (List.all_eq_true.1 h _ inside) (by decide)

theorem isPassedOver_of_ne {c : Char} (h : c ≠ '\n') : isPassedOver c = isFiller c := by
  simp [isPassedOver, h]

theorem isPassedOver_of_isFiller {c : Char} (h : isFiller c = true) : isPassedOver c = true := by
  rw [isPassedOver, h, Bool.true_or]

theorem beq_backslash_of_isPassedOver {c : Char} (h : isPassedOver c = true) :
    (c == '\\') = false := by
  rw [beq_eq_false_iff_ne]
  rintro rfl
  exact absurd h (by decide)

/-! ## Lines that end in a backslash -/

/-- Whether a line ends in a backslash, fillers aside. -/
def endsInBackslash (line : Text) : Bool := (dropEndWhile isFiller line).getLast? == some '\\'

@[simp] theorem endsInBackslash_nil : endsInBackslash [] = false := rfl

theorem endsInBackslash_cons (c : Char) (r : Text) :
    endsInBackslash (c :: r) = (endsInBackslash r || (c == '\\' && r.all isFiller)) := by
  unfold endsInBackslash
  rw [dropEndWhile]
  cases h : dropEndWhile isFiller r with
  | nil =>
    have fillers : r.all isFiller = true := dropEndWhile_eq_nil_iff.1 h
    cases hc : isFiller c with
    | true =>
      have := beq_backslash_of_isPassedOver (isPassedOver_of_isFiller hc)
      simp [fillers, this]
    | false => simp [fillers]
  | cons d s =>
    have fillers : r.all isFiller = false := by
      rw [← Bool.not_eq_true, ← dropEndWhile_eq_nil_iff, h]
      exact List.cons_ne_nil d s
    simp [fillers]

theorem endsInBackslash_eq_true_iff {l : Text} :
    endsInBackslash l = true ↔ ∃ head f, l = head ++ '\\' :: f ∧ f.all isFiller = true := by
  induction l with
  | nil => simp
  | cons c l ih =>
    rw [endsInBackslash_cons, Bool.or_eq_true, Bool.and_eq_true, beq_iff_eq, ih]
    constructor
    · rintro (⟨head, f, rfl, hf⟩ | ⟨rfl, hl⟩)
      · exact ⟨c :: head, f, rfl, hf⟩
      · exact ⟨[], l, rfl, hl⟩
    · rintro ⟨head, f, split, hf⟩
      cases head with
      | nil =>
        obtain ⟨rfl, rfl⟩ := List.cons.inj split
        exact .inr ⟨rfl, hf⟩
      | cons d head => exact .inl ⟨head, f, (List.cons.inj split).2, hf⟩

theorem endsInBackslash_append (a b : Text) :
    endsInBackslash (a ++ b) = (endsInBackslash b || (b.all isFiller && endsInBackslash a)) := by
  induction a with
  | nil => simp
  | cons c a ih =>
    rw [List.cons_append, endsInBackslash_cons, ih, endsInBackslash_cons, List.all_append]
    cases endsInBackslash b <;> cases endsInBackslash a <;> cases b.all isFiller <;>
      cases a.all isFiller <;> simp

theorem endsInBackslash_of_fillers {b : Text} (h : b.all isFiller = true) :
    endsInBackslash b = false := by
  unfold endsInBackslash
  rw [dropEndWhile_eq_nil_iff.2 h]
  rfl

theorem all_isFiller_dropReturn (l : Text) : (dropReturn l).all isFiller = l.all isFiller := by
  rcases eq_dropReturn_or l with h | h
  · rw [← h]
  · conv_rhs => rw [h, List.all_append]
    simp [show isFiller '\r' = true from by decide]

theorem endsInBackslash_append_fillers (l : Text) {b : Text} (h : b.all isFiller = true) :
    endsInBackslash (l ++ b) = endsInBackslash l := by
  rw [endsInBackslash_append, h, endsInBackslash_of_fillers h]
  simp

theorem endsInBackslash_dropReturn (l : Text) :
    endsInBackslash (dropReturn l) = endsInBackslash l := by
  rcases eq_dropReturn_or l with h | h
  · rw [← h]
  · conv_rhs => rw [h]
    exact (endsInBackslash_append_fillers _ (by decide)).symm

/-! ## Texts with a continuation -/

/-- Whether some line but the last ends in a backslash. -/
def hasContinuation : Text → Bool
  | [] => false
  | c :: r => (c == '\\' && endsLine r) || hasContinuation r

theorem endsLine_cons (c : Char) (r : Text) :
    endsLine (c :: r) = (c == '\n' || (isFiller c && endsLine r)) := by
  unfold endsLine
  rw [List.dropWhile_cons]
  cases hc : isFiller c with
  | true =>
    have : c ≠ '\n' := by rintro rfl; exact absurd hc (by decide)
    simp [this]
  | false => simp

/-- Joining ends no line early: what ends a line afterwards ended it before. -/
theorem endsLine_of_joined {passing : Bool} {t : Text}
    (h : endsLine (joinContinuationsFrom passing t) = true) :
    passing = false ∧ endsLine t = true := by
  fun_induction joinContinuationsFrom passing t with
  | case1 => simp [endsLine] at h
  -- What is passed over and what begins a continuation leave one open, and no line ends then.
  | case2 passing c r _ ih => exact absurd (ih h).1 (by simp)
  | case3 passing c r _ _ ih =>
    simp only [endsLine_cons] at h
    have := ih (by simpa [show isFiller ' ' = true from by decide] using h)
    exact absurd this.1 (by simp)
  | case4 passing c r hpass _ ih =>
    rw [endsLine_cons, Bool.or_eq_true, Bool.and_eq_true] at h
    have notPassed : (passing && isPassedOver c) = false := by simpa using hpass
    rcases h with h | ⟨filler, h⟩
    · have passed : isPassedOver c = true := by simp [isPassedOver, h]
      refine ⟨by simpa [passed] using notPassed, ?_⟩
      rw [endsLine_cons, h, Bool.true_or]
    · have passed : isPassedOver c = true := by simp [isPassedOver, filler]
      refine ⟨by simpa [passed] using notPassed, ?_⟩
      rw [endsLine_cons, filler, (ih h).2]
      simp

theorem hasContinuation_joinContinuationsFrom (passing : Bool) (t : Text) :
    hasContinuation (joinContinuationsFrom passing t) = false := by
  fun_induction joinContinuationsFrom passing t with
  | case1 => rfl
  | case2 _ _ _ _ ih => exact ih
  | case3 _ _ _ _ _ ih => simp [hasContinuation, ih]
  | case4 passing c r _ hcont ih =>
    rw [hasContinuation, ih, Bool.or_false]
    by_contra h
    simp only [Bool.not_eq_false, Bool.and_eq_true] at h
    exact hcont (by simp [h.1, (endsLine_of_joined h.2).2])

/-- After joining, no line but the last ends in a backslash. -/
theorem hasContinuation_joinContinuations (t : Text) :
    hasContinuation (joinContinuations t) = false :=
  hasContinuation_joinContinuationsFrom false t

/-- Joining leaves alone what has no continuation. -/
theorem joinContinuations_eq_self {t : Text} (h : hasContinuation t = false) :
    joinContinuations t = t := by
  induction t with
  | nil => rfl
  | cons c r ih =>
    simp only [hasContinuation, Bool.or_eq_false_iff] at h
    rw [joinContinuations, joinContinuationsFrom, Bool.false_and, if_neg Bool.false_ne_true, h.1,
      if_neg Bool.false_ne_true]
    exact congrArg (c :: ·) (ih h.2)

theorem count_joinContinuationsFrom_le {c : Char} (h : c ≠ ' ') (passing : Bool) (t : Text) :
    (joinContinuationsFrom passing t).count c ≤ t.count c := by
  fun_induction joinContinuationsFrom passing t with
  | case1 => exact Nat.le_refl _
  | case2 _ d r _ ih => exact ih.trans (List.count_le_count_cons ..)
  | case3 _ d r _ _ ih =>
    rw [List.count_cons_of_ne (Ne.symm h)]
    exact ih.trans (List.count_le_count_cons ..)
  | case4 _ d r _ _ ih =>
    simp only [List.count_cons]
    omega

/-! ## Continuations and lines -/

theorem endsLine_append_newline (a b : Text) :
    endsLine (a ++ '\n' :: b) = endsLine (a ++ ['\n']) := by
  induction a with
  | nil => simp [endsLine_cons]
  | cons c a ih => rw [List.cons_append, List.cons_append, endsLine_cons, endsLine_cons, ih]

theorem endsLine_eq_all {l : Text} (h : '\n' ∉ l) (r : Text) :
    endsLine (l ++ '\n' :: r) = l.all isFiller := by
  induction l with
  | nil => simp [endsLine_cons]
  | cons c l ih =>
    simp only [List.mem_cons, not_or] at h
    have : (c == '\n') = false := by simpa using Ne.symm h.1
    rw [List.cons_append, endsLine_cons, ih h.2, this, Bool.false_or, List.all_cons]

theorem endsLine_of_notMem {l : Text} (h : '\n' ∉ l) : endsLine l = false := by
  induction l with
  | nil => rfl
  | cons c l ih =>
    simp only [List.mem_cons, not_or] at h
    have : (c == '\n') = false := by simpa using Ne.symm h.1
    rw [endsLine_cons, ih h.2, this, Bool.and_false, Bool.or_false]

theorem hasContinuation_of_notMem {l : Text} (h : '\n' ∉ l) : hasContinuation l = false := by
  induction l with
  | nil => rfl
  | cons c l ih =>
    simp only [List.mem_cons, not_or] at h
    rw [hasContinuation, ih h.2, endsLine_of_notMem h.2, Bool.and_false, Bool.or_false]

theorem hasContinuation_line {l : Text} (h : '\n' ∉ l) (r : Text) :
    hasContinuation (l ++ '\n' :: r) = (endsInBackslash l || hasContinuation r) := by
  induction l with
  | nil => simp [hasContinuation]
  | cons c l ih =>
    simp only [List.mem_cons, not_or] at h
    rw [List.cons_append, hasContinuation, ih h.2, endsLine_eq_all h.2, endsInBackslash_cons]
    cases c == '\\' && l.all isFiller <;> simp

/-- Joined lines have a continuation if and only if one of them but the last ends in a backslash. -/
theorem hasContinuation_unlines {ls : List Text} (h : ∀ l ∈ ls, '\n' ∉ l) :
    hasContinuation (unlines ls) = false ↔ ∀ l ∈ ls.dropLast, endsInBackslash l = false := by
  induction ls with
  | nil => simp [unlines, hasContinuation]
  | cons l ls ih =>
    have hl := h l List.mem_cons_self
    have hls : ∀ m ∈ ls, '\n' ∉ m := fun m member => h m (List.mem_cons_of_mem l member)
    cases ls with
    | nil => simp [unlines, hasContinuation_of_notMem hl]
    | cons m ls =>
      rw [unlines_cons l (by simp), hasContinuation_line hl, Bool.or_eq_false_iff, ih hls]
      simp only [List.dropLast_cons_cons, List.mem_cons, forall_eq_or_imp]

/-! ## Texts that meet at the end of a line -/

/-- Whether a continuation is still open after a text that ends with a line feed. -/
def passesAfter : (passing : Bool) → Text → Bool
  | passing, [] => passing
  | passing, c :: r =>
    if passing && isPassedOver c then passesAfter true r
    else if c == '\\' && endsLine r then passesAfter true r
    else passesAfter false r

theorem joinContinuationsFrom_append (passing : Bool) (a b : Text) :
    joinContinuationsFrom passing (a ++ '\n' :: b) =
      joinContinuationsFrom passing (a ++ ['\n']) ++
        joinContinuationsFrom (passesAfter passing (a ++ ['\n'])) b := by
  induction a generalizing passing with
  | nil =>
    cases passing <;> simp [joinContinuationsFrom, passesAfter, isPassedOver]
  | cons c a ih =>
    simp only [List.cons_append, joinContinuationsFrom, passesAfter]
    rw [endsLine_append_newline a b]
    split
    · exact ih true
    · split
      · rw [ih true, List.cons_append]
      · rw [ih false, List.cons_append]

theorem passesAfter_append (passing : Bool) (a b : Text) :
    passesAfter passing (a ++ '\n' :: b) =
      passesAfter (passesAfter passing (a ++ ['\n'])) b := by
  induction a generalizing passing with
  | nil => cases passing <;> simp [passesAfter, isPassedOver]
  | cons c a ih =>
    simp only [List.cons_append, passesAfter]
    rw [endsLine_append_newline a b]
    split
    · exact ih true
    · split
      · exact ih true
      · exact ih false

/-- After a line, a continuation is open if the line ends in a backslash, or if one was open and the
line is blank. -/
theorem passesAfter_line {l : Text} (h : '\n' ∉ l) (passing : Bool) :
    passesAfter passing (l ++ ['\n']) = (endsInBackslash l || (passing && l.all isFiller)) := by
  induction l generalizing passing with
  | nil => cases passing <;> simp [passesAfter, isPassedOver]
  | cons c l ih =>
    simp only [List.mem_cons, not_or] at h
    rw [List.cons_append, passesAfter, endsLine_eq_all h.2, isPassedOver_of_ne (Ne.symm h.1),
      ih h.2, ih h.2, endsInBackslash_cons, List.all_cons]
    cases hc : isFiller c with
    | true =>
      have := beq_backslash_of_isPassedOver (isPassedOver_of_isFiller hc)
      cases passing <;> simp [this]
    | false =>
      rw [Bool.and_false, if_neg Bool.false_ne_true, Bool.false_and, Bool.and_false, Bool.or_false]
      cases c == '\\' <;> cases l.all isFiller <;> simp

/-- After lines, a continuation is open if the last one that is not blank ends in a backslash. -/
theorem passesAfter_endLines {ls : List Text} (h : ∀ l ∈ ls, '\n' ∉ l) (passing : Bool) :
    passesAfter passing (endLines ls) =
      ((ls.filter fun l => !l.all isFiller).getLast?.map endsInBackslash).getD passing := by
  induction ls generalizing passing with
  | nil => rfl
  | cons l ls ih =>
    have rest := ih fun m member => h m (List.mem_cons_of_mem l member)
    rw [endLines_cons, passesAfter_append, passesAfter_line (h l List.mem_cons_self), rest]
    cases blank : l.all isFiller with
    | true =>
      rw [List.filter_cons_of_neg (by simp [blank]), endsInBackslash_of_fillers blank,
        Bool.and_true, Bool.false_or]
    | false =>
      rw [List.filter_cons_of_pos (by simp [blank]), Bool.and_false, Bool.or_false,
        List.getLast?_cons]
      cases (ls.filter fun l => !l.all isFiller).getLast? <;> rfl

/-- No continuation is open after a text whose last line is not blank and ends in no backslash. -/
theorem passesAfter_eq_false {a l : Text} (last : (pieces '\n' a).getLast? = some l)
    (solid : l.all isFiller = false) (closed : endsInBackslash l = false) (passing : Bool) :
    passesAfter passing (a ++ ['\n']) = false := by
  obtain ⟨ls, split⟩ := List.getLast?_eq_some_iff.1 last
  have filled : (ls ++ [l]).filter (fun m => !m.all isFiller) =
      ls.filter (fun m => !m.all isFiller) ++ [l] := by
    rw [List.filter_append, List.filter_singleton, solid]
    rfl
  rw [← endLines_pieces, passesAfter_endLines fun m => notMem_of_mem_pieces, split, filled,
    List.getLast?_concat, Option.map_some, Option.getD_some, closed]

theorem endsLine_concat (r : Text) : endsLine (r ++ ['\n']) = (endsLine r || r.all isFiller) := by
  induction r with
  | nil => rfl
  | cons c r ih =>
    rw [List.cons_append, endsLine_cons, endsLine_cons, ih, List.all_cons]
    cases isFiller c <;> simp [Bool.or_assoc]

/-- Where no continuation is open, the line feed at the end of a text stays. -/
theorem joinContinuationsFrom_concat {passing : Bool} {a : Text}
    (h : passesAfter passing (a ++ ['\n']) = false) :
    joinContinuationsFrom passing (a ++ ['\n']) = joinContinuationsFrom passing a ++ ['\n'] := by
  induction a generalizing passing with
  | nil =>
    cases passing with
    | true => simp [passesAfter, isPassedOver] at h
    | false => simp [joinContinuationsFrom]
  | cons c a ih =>
    simp only [List.cons_append, passesAfter, joinContinuationsFrom, endsLine_concat] at h ⊢
    split at h
    · next passed => rw [if_pos passed, if_pos passed, ih h]
    · next notPassed =>
      rw [if_neg notPassed, if_neg notPassed]
      split at h
      · next continued =>
        -- Were the rest of the line blank, the continuation would still be open at its end.
        have solid : a.all isFiller = false := by
          by_contra fillers
          rw [Bool.not_eq_false] at fillers
          rw [passesAfter_line (newline_notMem_of_fillers fillers), fillers,
            endsInBackslash_of_fillers fillers] at h
          cases h
        rw [if_pos continued, ih h]
        rw [solid, Bool.or_false] at continued
        rw [if_pos continued, List.cons_append]
      · next notContinued =>
        have notContinued' : ¬ (c == '\\' && endsLine a) = true := by
          simp only [Bool.and_eq_true, Bool.or_eq_true] at notContinued ⊢
          exact fun both => notContinued ⟨both.1, .inl both.2⟩
        rw [if_neg notContinued, if_neg notContinued', ih h, List.cons_append]

/-! ## Lines one after the other -/

theorem joinContinuationsFrom_passing {c : Char} (h : isPassedOver c = true) (r : Text) :
    joinContinuationsFrom true (c :: r) = joinContinuationsFrom true r := by
  rw [joinContinuationsFrom, if_pos (by simp [h])]

theorem joinContinuationsFrom_of_isPassedOver {c : Char} (h : isPassedOver c = true) (r : Text) :
    joinContinuationsFrom false (c :: r) = c :: joinContinuationsFrom false r := by
  simp [joinContinuationsFrom, beq_backslash_of_isPassedOver h]

/-- What is not passed over ends the passing. -/
theorem joinContinuationsFrom_of_not_isPassedOver {c : Char} (h : isPassedOver c = false)
    (r : Text) : joinContinuationsFrom true (c :: r) = joinContinuationsFrom false (c :: r) := by
  simp [joinContinuationsFrom, h]

theorem joinContinuationsFrom_fillers {f : Text} (h : f.all isFiller = true) (r : Text) :
    joinContinuationsFrom true (f ++ '\n' :: r) = joinContinuationsFrom true r := by
  induction f with
  | nil => exact joinContinuationsFrom_passing (by decide) r
  | cons c f ih =>
    simp only [List.all_cons, Bool.and_eq_true] at h
    rw [List.cons_append, joinContinuationsFrom_passing (isPassedOver_of_isFiller h.1), ih h.2]

/-- A line that ends in a backslash runs on into the next line. -/
theorem joinContinuationsFrom_continued {head f : Text} (oneLine : '\n' ∉ head)
    (fillers : f.all isFiller = true) (r : Text) :
    joinContinuationsFrom false (head ++ '\\' :: (f ++ '\n' :: r)) =
      head ++ ' ' :: joinContinuationsFrom true r := by
  have free := newline_notMem_of_fillers fillers
  induction head with
  | nil =>
    rw [List.nil_append, joinContinuationsFrom, Bool.false_and, if_neg Bool.false_ne_true,
      endsLine_eq_all free, fillers, if_pos (by rfl), joinContinuationsFrom_fillers fillers]
    rfl
  | cons c head ih =>
    simp only [List.mem_cons, not_or] at oneLine
    have notLast : endsLine (head ++ '\\' :: (f ++ '\n' :: r)) = false := by
      have free' : '\n' ∉ head ++ '\\' :: f := by simp [oneLine.2, free]
      have := endsLine_eq_all free' r
      rw [List.append_assoc, List.cons_append] at this
      rw [this, List.all_append, List.all_cons, show isFiller '\\' = false from by decide,
        Bool.false_and, Bool.and_false]
    rw [List.cons_append, joinContinuationsFrom, Bool.false_and, if_neg Bool.false_ne_true, notLast,
      Bool.and_false, if_neg Bool.false_ne_true, ih oneLine.2, List.cons_append]

/-- Any other line stays as it is. -/
theorem joinContinuationsFrom_closed {l : Text} (oneLine : '\n' ∉ l)
    (closed : endsInBackslash l = false) (r : Text) :
    joinContinuationsFrom false (l ++ '\n' :: r) = l ++ '\n' :: joinContinuationsFrom false r := by
  have kept : joinContinuationsFrom false (l ++ ['\n']) = l ++ ['\n'] := by
    apply joinContinuations_eq_self
    rw [hasContinuation_line oneLine, closed]
    rfl
  rw [joinContinuationsFrom_append, kept, passesAfter_line oneLine, closed, List.append_assoc,
    List.singleton_append]
  rfl

end ImageAudit.Layout
