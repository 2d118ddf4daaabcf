import ImageAudit.Proofs.Layout.Comment
import ImageAudit.Proofs.Layout.References
import ImageAudit.Proofs.Layout.Spaces
import Mathlib.Algebra.BigOperators.Group.Finset.Basic
import Mathlib.Algebra.GroupWithZero.Nat

/-!
# Edits that change nothing

A line may be split at a space, and a blank line may be put in after any line, without changing what
a text is laid out as. One blank line makes a difference: one after which nothing but comments
follow takes a carriage return off the line before it, if there is one left.

* `exists_join_split`: a split at a space adds a second space to it.
* `trailingReturns_normalLines`: substitution keeps the carriage returns at the ends of lines.
* `normalize_blank_line_iff`: the blank lines that make no difference; `normalize_blank_line` says
  that there are no others in a text whose carriage returns all belong to line breaks.
-/

namespace ImageAudit.Layout

open Text

/-! ## Splitting a line -/

theorem unifyBreaks_append_of_ne {c : Char} (other : c ≠ '\n') (a b : Text) :
    unifyBreaks (a ++ c :: b) = unifyBreaks a ++ unifyBreaks (c :: b) := by
  fun_induction unifyBreaks a with
  | case1 => rfl
  | case2 r ih => rw [List.cons_append, List.cons_append, unifyBreaks, ih, List.cons_append]
  | case3 d r single ih =>
    have single : ∀ s, d = '\r' → r ++ c :: b ≠ '\n' :: s := by
      rintro s rfl split
      cases r with
      | nil => exact other (List.cons.inj split).1
      | cons e r =>
        obtain ⟨rfl, -⟩ := List.cons.inj split
        exact single r rfl rfl
    rw [List.cons_append, unifyBreaks, ih, List.cons_append]
    exact single

theorem endsLine_append_congr {r s : Text} (same : endsLine r = endsLine s) (a : Text) :
    endsLine (a ++ r) = endsLine (a ++ s) := by
  induction a with
  | nil => exact same
  | cons c a ih => rw [List.cons_append, List.cons_append, endsLine_cons, endsLine_cons, ih]

/-- The text begins with a character that a continuation does not pass over, or it is empty. -/
def StartsSolid (b : Text) : Prop := ∀ c, b.head? = some c → isPassedOver c = false

theorem StartsSolid.joinContinuationsFrom_eq {b : Text} (h : StartsSolid b) (passing : Bool) :
    joinContinuationsFrom passing b = joinContinuationsFrom false b := by
  cases passing with
  | false => rfl
  | true =>
    cases b with
    | nil => rfl
    | cons c b => exact joinContinuationsFrom_of_not_isPassedOver (h c rfl) b

theorem StartsSolid.endsLine_eq {b : Text} (h : StartsSolid b) : endsLine b = false := by
  cases b with
  | nil => rfl
  | cons c b =>
    have solid := h c rfl
    rw [isPassedOver, Bool.or_eq_false_iff] at solid
    rw [endsLine_cons, solid.1, solid.2]
    rfl

theorem StartsSolid.unifyBreaks {b : Text} (h : StartsSolid b) : StartsSolid (unifyBreaks b) := by
  cases b with
  | nil => exact h
  | cons c b =>
    have solid := h c rfl
    have single : c ≠ '\r' := by
      rintro rfl
      exact absurd solid (by decide)
    rw [Layout.unifyBreaks]
    · rintro d ⟨⟩
      exact solid
    · exact fun s same => absurd same single

/-- A space where a continuation is open, which has written one. -/
def openSpace (passing : Bool) : Text := if passing then [' '] else []

theorem joinContinuationsFrom_backslash {r : Text} (ends : endsLine r = true) (passing : Bool) :
    joinContinuationsFrom passing ('\\' :: r) = ' ' :: joinContinuationsFrom true r := by
  cases passing <;> simp [joinContinuationsFrom, isPassedOver, isFiller, ends]

/-- Where a line is split at a space, a second space comes to stand after it. -/
theorem exists_join_split {b : Text} (h : StartsSolid b) (passing : Bool) (a : Text) :
    ∃ u, openSpace passing ++ joinContinuationsFrom passing (a ++ ' ' :: '\\' :: '\n' :: b) =
        u ++ ' ' :: ' ' :: joinContinuations b ∧
      openSpace passing ++ joinContinuationsFrom passing (a ++ ' ' :: b) =
        u ++ ' ' :: joinContinuations b := by
  have space : isPassedOver ' ' = true := by decide
  have rest (passing : Bool) : joinContinuationsFrom passing b = joinContinuations b :=
    h.joinContinuationsFrom_eq passing
  have split (passing : Bool) : joinContinuationsFrom passing ('\\' :: '\n' :: b) =
      ' ' :: joinContinuations b := by
    rw [joinContinuationsFrom_backslash rfl, joinContinuationsFrom_passing (by decide), rest]
  -- The line ends neither before the backslash nor after the space, so that a backslash in `a`
  -- begins a continuation in both texts or in none.
  have same (a : Text) : endsLine (a ++ ' ' :: '\\' :: '\n' :: b) = endsLine (a ++ ' ' :: b) := by
    apply endsLine_append_congr
    simp [endsLine_cons, isFiller, h.endsLine_eq]
  induction a generalizing passing with
  | nil =>
    refine ⟨[], ?_⟩
    simp only [List.nil_append]
    cases passing with
    | true =>
      rw [joinContinuationsFrom_passing space, joinContinuationsFrom_passing space, split, rest]
      exact ⟨rfl, rfl⟩
    | false =>
      rw [joinContinuationsFrom_of_isPassedOver space, joinContinuationsFrom_of_isPassedOver space,
        split, rest]
      exact ⟨rfl, rfl⟩
  | cons c a ih =>
    -- The character is passed over, begins a continuation or is written, in both texts alike.
    simp only [List.cons_append, joinContinuationsFrom, same a]
    split
    · next passed =>
      rw [Bool.and_eq_true] at passed
      rw [passed.1]
      exact ih true
    split
    · obtain ⟨u, first, second⟩ := ih true
      refine ⟨openSpace passing ++ u, ?_, ?_⟩
      · rw [List.append_assoc, ← first]
        rfl
      · rw [List.append_assoc, ← second]
        rfl
    · obtain ⟨u, first, second⟩ := ih false
      refine ⟨openSpace passing ++ c :: u, ?_, ?_⟩
      · rw [List.append_assoc, List.cons_append, ← first]
        rfl
      · rw [List.append_assoc, List.cons_append, ← second]
        rfl

theorem unifyBreaks_split (a b : Text) :
    unifyBreaks (a ++ ' ' :: '\\' :: '\n' :: b) =
      unifyBreaks a ++ ' ' :: '\\' :: '\n' :: unifyBreaks b := by
  rw [unifyBreaks_append_of_ne (by decide)]
  rfl

theorem normalize_split {b : Text} (h : StartsSolid b) (a : Text) :
    normalize (a ++ ' ' :: '\\' :: '\n' :: b) = normalize (a ++ ' ' :: b) := by
  obtain ⟨u, split, whole⟩ := exists_join_split h.unifyBreaks false (unifyBreaks a)
  apply normalize_eq_of_arrangedLines
  apply arrangedLines_congr
  have unified : unifyBreaks (a ++ ' ' :: b) = unifyBreaks a ++ ' ' :: unifyBreaks b := by
    rw [unifyBreaks_append_of_ne (by decide)]
    rfl
  rw [unifyBreaks_split, unified]
  change squeezeSpaces (openSpace false ++ _) = squeezeSpaces (openSpace false ++ _)
  rw [split, whole, squeezeSpaces_append_double]

/-! ## Carriage returns at the ends of lines -/

/-- The number of carriage returns among the fillers at the end of a line. -/
def trailingReturns : Text → Nat
  | [] => 0
  | c :: r => if c == '\r' && r.all isFiller then trailingReturns r + 1 else trailingReturns r

theorem trailingReturns_append (a b : Text) :
    trailingReturns (a ++ b) =
      trailingReturns b + if b.all isFiller then trailingReturns a else 0 := by
  induction a with
  | nil => simp [trailingReturns]
  | cons c a ih =>
    rw [List.cons_append, trailingReturns, ih, trailingReturns, List.all_append]
    cases b.all isFiller <;> cases a.all isFiller <;> cases c == '\r' <;>
      (simp; try omega)

theorem trailingReturns_of_notMem {l : Text} (h : '\r' ∉ l) : trailingReturns l = 0 := by
  induction l with
  | nil => rfl
  | cons c l ih =>
    rw [List.mem_cons, not_or] at h
    rw [trailingReturns, if_neg (by simp [Ne.symm h.1]), ih h.2]

theorem trailingReturns_of_blanks {b : Text} (h : b.all isBlank = true) : trailingReturns b = 0 :=
  trailingReturns_of_notMem fun inside => absurd (List.all_eq_true.1 h _ inside) (by decide)

theorem trailingReturns_concat (l : Text) :
    trailingReturns (l ++ ['\r']) = trailingReturns l + 1 := by
  rw [trailingReturns_append]
  exact Nat.add_comm _ _

theorem trailingReturns_trimBlanks (l : Text) :
    trailingReturns (trimBlanks l) = trailingReturns l := by
  obtain ⟨a, b, ha, hb, split⟩ := exists_append_of_stripWhile isBlank l
  conv_rhs => rw [split]
  rw [trailingReturns_append, trailingReturns_append a, trailingReturns_of_blanks ha,
    trailingReturns_of_blanks hb, all_isFiller_of_blanks hb, ite_self, Nat.zero_add, if_pos rfl,
    Nat.add_zero]
  rfl

theorem trailingReturns_squeezeSpaces (l : Text) :
    trailingReturns (squeezeSpaces l) = trailingReturns l := by
  fun_induction squeezeSpaces l with
  | case1 => rfl
  | case2 c r double ih =>
    simp only [Bool.and_eq_true, beq_iff_eq] at double
    rw [ih, trailingReturns, if_neg (by simp [double.1])]
  | case3 c r _ ih => rw [trailingReturns, trailingReturns, ih, all_isFiller_squeezeSpaces]

theorem sum_trailingReturns_polishLines (ls : List Text) :
    ((polishLines ls).map trailingReturns).sum = (ls.map trailingReturns).sum := by
  induction ls with
  | nil => rfl
  | cons l ls ih =>
    have first : ((polishLines [l]).map trailingReturns).sum = trailingReturns l := by
      by_cases blank : trimBlanks l = []
      · rw [← trailingReturns_trimBlanks, blank]
        simp [polishLines, blank, trailingReturns]
      · simp [polishLines, blank, trailingReturns_squeezeSpaces, trailingReturns_trimBlanks]
    rw [← List.singleton_append, polishLines_append, List.map_append, List.sum_append, first, ih]
    simp

theorem Resolved.all_isFiller_eq {vars : Variables} (insertable : vars.AreInsertable)
    {started : Bool} {l m : Text} (h : Resolved vars started l m) :
    m.all isFiller = l.all isFiller := by
  induction h with
  | nil => rfl
  | keep _ ih => rw [List.all_cons, List.all_cons, ih]
  | replace _ _ known _ _ =>
    obtain ⟨c, r, rfl, solid⟩ := exists_cons_of_isInsertable (insertable _ known)
    rw [List.cons_append, List.all_cons, solid]
    rfl

theorem IsReferenceTo.trailingReturns_eq {key written rest : Text}
    (name : isReferenceName key = true) (h : IsReferenceTo key written rest) :
    trailingReturns written = 0 := by
  have closed (w : Text) : trailingReturns (w ++ ['}']) = 0 := by
    rw [trailingReturns_append]
    rfl
  cases h with
  | plain =>
    refine trailingReturns_of_notMem fun inside => ?_
    exact absurd (List.all_eq_true.1 (isReferenceName_iff.1 name).2 _ inside) (by decide)
  | braced => exact closed ('{' :: key)
  | @defaultUnset d => simpa using closed ('{' :: (key ++ '-' :: d))
  | @defaultEmpty d => simpa using closed ('{' :: (key ++ ':' :: '-' :: d))

theorem Resolved.trailingReturns_eq {vars : Variables} (insertable : vars.AreInsertable)
    {started : Bool} {l m : Text} (h : Resolved vars started l m) :
    trailingReturns m = trailingReturns l := by
  induction h with
  | nil => rfl
  | keep rest ih => rw [trailingReturns, trailingReturns, ih, rest.all_isFiller_eq insertable]
  | @replace key value written r s name reference known _ ih =>
    -- Neither the reference nor its value has a carriage return among fillers at its end.
    have absent : '\r' ∉ value := fun inside =>
      absurd (isControl_of_mem (insertable _ known) inside) (by decide)
    have dollar : trailingReturns ('$' :: (written ++ r)) = trailingReturns (written ++ r) := rfl
    rw [dollar, trailingReturns_append, trailingReturns_append, ih,
      trailingReturns_of_notMem absent, reference.trailingReturns_eq name, ite_self, ite_self]

theorem trailingReturns_normalLines (t : Text) :
    (normalLines t).map trailingReturns = (arrangedLines t).map trailingReturns := by
  have insertable := Variables.areInsertable_variablesOf (arrange t)
  rw [normalLines, List.map_map]
  exact List.map_congr_left fun l _ =>
    (lineResolves_substituteIn insertable l).resolved.trailingReturns_eq insertable

/-! ## Blank lines -/

/-- No continuation is open at the line feed between `a` and `b`, all lines of `b` are comments, and
the last line of `a` that is none ends in more carriage returns than its line break and the cutting
of the text into lines take away. -/
structure LeavesReturn (a b : Text) : Prop where
  closed : passesAfter false (unifyBreaks (a ++ ['\n'])) = false
  nothing : codeLines (joinContinuations (unifyBreaks b)) = []
  ends : (codeLines (joinContinuations (unifyBreaks (a ++ ['\n'])))).getLast?.bind
    List.getLast? = some '\r'

theorem dropReturn_of_blanks {w : Text} (blank : w.all isBlank = true) : dropReturn w = w :=
  dropReturn_eq_self fun last =>
    absurd (List.all_eq_true.1 blank _ (List.mem_of_getLast? last)) (by decide)

theorem unifyBreaks_blank_line {w : Text} (blank : w.all isBlank = true) (b : Text) :
    unifyBreaks (w ++ '\n' :: b) = w ++ '\n' :: unifyBreaks b := by
  have fillers := all_isFiller_of_blanks blank
  rw [unifyBreaks_append, pieces_of_notMem (newline_notMem_of_fillers fillers), List.map_singleton,
    dropReturn_of_blanks blank, unlines_singleton]

theorem joinContinuations_blank_line {a : Text}
    (continued : passesAfter false (unifyBreaks (a ++ ['\n'])) = true) {w : Text}
    (blank : w.all isBlank = true) (b : Text) :
    joinContinuations (unifyBreaks (a ++ '\n' :: (w ++ '\n' :: b))) =
      joinContinuations (unifyBreaks (a ++ '\n' :: b)) := by
  rw [unifyBreaks_concat] at continued
  rw [unifyBreaks_append a, unifyBreaks_append a, unifyBreaks_blank_line blank, joinContinuations,
    joinContinuations, joinContinuationsFrom_append, joinContinuationsFrom_append false _
    (unifyBreaks b), continued, joinContinuationsFrom_fillers (all_isFiller_of_blanks blank)]

theorem codeLines_blank_line {w : Text} (blank : w.all isBlank = true) (b : Text) :
    codeLines (joinContinuations (unifyBreaks (w ++ '\n' :: b))) =
      w :: codeLines (joinContinuations (unifyBreaks b)) := by
  have fillers := all_isFiller_of_blanks blank
  have oneLine := newline_notMem_of_fillers fillers
  have code := isComment_of_spaces (all_isSpace_of_blanks blank)
  rw [unifyBreaks_blank_line blank, joinContinuations,
    joinContinuationsFrom_closed oneLine (endsInBackslash_of_fillers fillers), codeLines,
    lines_append, pieces_of_notMem oneLine, List.map_singleton, dropReturn_of_blanks blank,
    List.singleton_append, List.filter_cons_of_pos (by rw [code]; rfl)]
  rfl

theorem trimBlanks_eq_nil {w : Text} (blank : w.all isBlank = true) : trimBlanks w = [] := by
  rw [trimBlanks, stripWhile, List.dropWhile_eq_nil_iff.2 (List.all_eq_true.1 blank)]
  rfl

theorem polishLines_finishLines_singleton (l : Text) :
    polishLines (finishLines [l]) = polishLines [l] := by
  cases l <;> rfl

/-- A blank line adds no line, but it ends the line before it. -/
theorem polishLines_blank_line {w : Text} (blank : w.all isBlank = true) (ls ms : List Text) :
    polishLines (finishLines (ls ++ w :: ms)) =
      polishLines (ls.map dropReturn) ++ polishLines (finishLines ms) := by
  rw [finishLines_append ls (List.cons_ne_nil w ms), polishLines_append]
  congr 1
  cases ms with
  | nil =>
    rw [polishLines_finishLines_singleton]
    simp [polishLines, finishLines, trimBlanks_eq_nil blank]
  | cons m ms =>
    rw [finishLines, dropReturn_of_blanks blank]
    simp [polishLines, trimBlanks_eq_nil blank]

theorem polishLines_finishLines_concat (ls : List Text) (l : Text) :
    polishLines (finishLines (ls ++ [l])) = polishLines (ls.map dropReturn) ++ polishLines [l] := by
  rw [finishLines_append ls (List.cons_ne_nil l []), polishLines_append,
    polishLines_finishLines_singleton]

theorem polishLines_blank_line_eq {w : Text} (blank : w.all isBlank = true) {ls ms : List Text}
    (kept : ms = [] → ls.getLast?.bind List.getLast? ≠ some '\r') :
    polishLines (finishLines (ls ++ w :: ms)) = polishLines (finishLines (ls ++ ms)) := by
  rw [polishLines_blank_line blank]
  cases ms with
  | cons m ms => rw [finishLines_append ls (List.cons_ne_nil m ms), polishLines_append]
  | nil =>
    rw [List.append_nil]
    obtain rfl | ⟨ls, l, rfl⟩ := List.eq_nil_or_concat' ls
    · rfl
    · have noReturn : l.getLast? ≠ some '\r' := by simpa using kept rfl
      rw [polishLines_finishLines_concat, List.map_append, List.map_singleton,
        dropReturn_eq_self noReturn, polishLines_append]
      exact List.append_nil _

theorem sum_trailingReturns_blank_line {w : Text} (blank : w.all isBlank = true) {ls : List Text}
    (ends : ls.getLast?.bind List.getLast? = some '\r') :
    ((polishLines (finishLines ls)).map trailingReturns).sum =
      ((polishLines (finishLines (ls ++ [w]))).map trailingReturns).sum + 1 := by
  obtain ⟨l, last, lost⟩ := Option.bind_eq_some_iff.1 ends
  obtain ⟨d, rfl⟩ := List.getLast?_eq_some_iff.1 lost
  obtain ⟨ls, rfl⟩ := List.getLast?_eq_some_iff.1 last
  rw [polishLines_finishLines_concat, polishLines_blank_line blank, List.map_append,
    List.sum_append, List.map_append, List.sum_append, sum_trailingReturns_polishLines,
    sum_trailingReturns_polishLines, sum_trailingReturns_polishLines]
  simp [dropReturn_concat, trailingReturns_concat, polishLines, finishLines]
  omega

/-- A blank line may be put in after any line, unless it takes away a carriage return. -/
theorem normalize_blank_line_iff (a : Text) {w : Text} (blank : w.all isBlank = true) (b : Text) :
    normalize (a ++ '\n' :: (w ++ '\n' :: b)) = normalize (a ++ '\n' :: b) ↔
      ¬ LeavesReturn a b := by
  cases continued : passesAfter false (unifyBreaks (a ++ ['\n'])) with
  | true =>
    refine iff_of_true ?_ fun h => ?_
    · apply normalize_eq_of_arrangedLines
      rw [arrangedLines, arrangedLines, joinContinuations_blank_line continued blank]
    · rw [h.closed] at continued
      cases continued
  | false =>
    have long := codeLines_append continued (w ++ '\n' :: b)
    have short := codeLines_append continued b
    rw [codeLines_blank_line blank] at long
    constructor
    · intro same left
      -- The lines of both texts are the same, but not their carriage returns.
      have returns := congrArg (fun ls => (ls.map trailingReturns).sum)
        (normalLines_eq_of_normalize_eq same)
      simp only [trailingReturns_normalLines] at returns
      rw [arrangedLines, arrangedLines, long, short, left.nothing, List.append_nil,
        sum_trailingReturns_blank_line blank left.ends] at returns
      omega
    · intro kept
      apply normalize_eq_of_arrangedLines
      rw [arrangedLines, arrangedLines, long, short]
      exact polishLines_blank_line_eq blank fun nothing ends => kept ⟨continued, nothing, ends⟩

theorem not_leavesReturn {a : Text} (h : '\r' ∉ unifyBreaks (a ++ ['\n'])) (b : Text) :
    ¬ LeavesReturn a b := by
  intro left
  obtain ⟨l, last, ends⟩ := Option.bind_eq_some_iff.1 left.ends
  have inside := List.mem_of_getLast? ends
  have line := (List.mem_filter.1 (List.mem_of_getLast? last)).1
  obtain ⟨p, piece, sub⟩ := exists_sublist_of_mem_finishLines line
  have joined := List.count_pos_iff.2 (mem_of_mem_pieces piece (sub.subset inside))
  exact h (List.count_pos_iff.1
    (joined.trans_le (count_joinContinuationsFrom_le (by decide) false _)))

/-- Where all carriage returns belong to line breaks, a blank line changes nothing. -/
theorem normalize_blank_line {a w : Text} (h : '\r' ∉ unifyBreaks (a ++ ['\n']))
    (blank : w.all isBlank = true) (b : Text) :
    normalize (a ++ '\n' :: (w ++ '\n' :: b)) = normalize (a ++ '\n' :: b) :=
  (normalize_blank_line_iff a blank b).2 (not_leavesReturn h b)

/-- A line may be split at any space, and a blank line put in after any line, without changing what
the text is laid out as; only a blank line that leaves a carriage return at the end changes it. -/
theorem normalize_edits (a b w : Text) :
    (StartsSolid b → normalize (a ++ ' ' :: '\\' :: '\n' :: b) = normalize (a ++ ' ' :: b)) ∧
      (w.all isBlank = true →
        (normalize (a ++ '\n' :: (w ++ '\n' :: b)) = normalize (a ++ '\n' :: b) ↔
          ¬ LeavesReturn a b)) :=
  ⟨fun h => normalize_split h a, fun blank => normalize_blank_line_iff a blank b⟩

theorem normalize_edits_of_continuation :
    normalize ("RUN a \\\\".toList ++ ' ' :: '\\' :: '\n' :: "&& b".toList) =
        normalize ("RUN a \\\\".toList ++ ' ' :: "&& b".toList) ∧
      normalize ("RUN a \\\r".toList ++ '\n' :: ("\t ".toList ++ '\n' :: "b".toList)) =
        normalize ("RUN a \\\r".toList ++ '\n' :: "b".toList) := by
  have solid : StartsSolid "&& b".toList := by
    rintro c ⟨⟩
    decide
  have kept : ¬ LeavesReturn "RUN a \\\r".toList "b".toList := fun left =>
    absurd left.nothing (by decide)
  have blank : "\t ".toList.all isBlank = true := by decide
  exact ⟨(normalize_edits _ _ []).1 solid, ((normalize_edits _ _ _).2 blank).2 kept⟩

/-- A blank line at the end of a text takes a carriage return off a value, which can be put in for a
reference then. -/
theorem blank_line_takes_return :
    normalize ("RUN x $A\nENV A=1\r\r\r".toList ++ '\n' :: ([] ++ '\n' :: [])) =
        "RUN x 1\nENV A=1".toList ∧
      normalize ("RUN x $A\nENV A=1\r\r\r".toList ++ '\n' :: []) =
        "RUN x $A\nENV A=1\r".toList := by
  decide

end ImageAudit.Layout
