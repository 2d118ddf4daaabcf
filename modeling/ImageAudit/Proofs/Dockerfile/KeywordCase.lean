import ImageAudit.Proofs.Layout.FirstWord
import ImageAudit.Proofs.Layout.References
import ImageAudit.Proofs.Statement.Agreement
import ImageAudit.Proofs.Statement.Reading

/-!
# The case of keywords in recipes

The instructions of a recipe, their lines and the variables do not depend on the case of keywords at
the beginning of lines, unless such a line continues an earlier one.

* `logicalLinesFrom_append_of_closed`: where no logical line is open, the next ones are found as if
  they stood alone.
* `Recases`: texts whose keywords differ in case. With no white space but fillers and line feeds,
  `Recased.continues_eq` says which lines may not be changed.
* `Dockerfile.keyword_selects`: the first word of a line selects how the line is read.
-/

namespace ImageAudit

open Text Layout

/-! ## Open logical lines -/

/-- Whether a logical line is open after a physical line that is no comment. -/
def staysOpen (pending : Bool) (l : Text) : Bool :=
  if (trim l).isEmpty then pending else (trim l).getLast? == some '\\'

/-- Whether a logical line is open after physical lines that are no comments. -/
def leavesOpen (pending : Bool) (ls : List Text) : Bool := ls.foldl staysOpen pending

variable {s w r q : Text}

theorem leavesOpen_eq_false {ls : List Text} (closed : ∀ l ∈ ls, (trim l).getLast? ≠ some '\\') :
    leavesOpen false ls = false := by
  induction ls with
  | nil => rfl
  | cons l ls ih =>
    rw [leavesOpen, List.foldl_cons, staysOpen, beq_eq_false_iff_ne.2 (closed l List.mem_cons_self),
      ite_self]
    exact ih fun m member => closed m (List.mem_cons_of_mem l member)

/-- Where no logical line is open, what follows is read as if it stood alone. -/
theorem logicalLinesFrom_append_of_closed {ks : List Text} (code : ∀ k ∈ ks, isComment k = false)
    (ms : List Text) (n : Nat) (p : Option LogicalLine) (closed : leavesOpen p.isSome ks = false) :
    logicalLinesFrom n p (ks ++ ms) =
      logicalLinesFrom n p ks ++ logicalLinesFrom (n + ks.length) none ms := by
  -- A logical line is open just if there is one that is continued, and each line keeps it so.
  induction ks generalizing n p with
  | nil =>
    cases p with
    | none => rfl
    | some p => cases closed
  | cons k ks ih =>
    have ih := ih fun m member => code m (List.mem_cons_of_mem k member)
    have shifted : n + (k :: ks).length = n + 1 + ks.length := by
      rw [List.length_cons]
      omega
    have code := code k List.mem_cons_self
    rw [leavesOpen, List.foldl_cons, staysOpen] at closed
    rw [shifted, List.cons_append, logicalLinesFrom_cons code, logicalLinesFrom_cons code]
    by_cases blank : trim k = []
    · rw [if_pos (by simp [blank])] at closed
      rw [if_pos blank, if_pos blank]
      exact ih (n + 1) p closed
    · rw [if_neg (by simp [blank])] at closed
      rw [if_neg blank, if_neg blank]
      cases found : continued? (trim k) with
      | some head =>
        obtain ⟨x, split, -⟩ := continued?_eq_some_iff.1 found
        refine ih (n + 1) (some _) ?_
        rwa [split, List.getLast?_concat] at closed
      | none =>
        rw [beq_eq_false_iff_ne.2 (continued?_eq_none_iff.1 found)] at closed
        rw [List.append_assoc, ← ih (n + 1) none closed]

/-- What an open logical line goes on with does not depend on what it begins with. -/
theorem exists_logicalLinesFrom_pending (n m : Nat) (ls : List Text) :
    ∃ y qs, ∀ q, logicalLinesFrom n (some ⟨m, q⟩) ls = LogicalLine.finish ⟨m, q ++ y⟩ ++ qs := by
  induction ls generalizing n with
  | nil => exact ⟨[], [], fun q => by rw [List.append_nil, List.append_nil]; rfl⟩
  | cons l ls ih =>
    obtain ⟨y, qs, ih⟩ := ih (n + 1)
    simp only [logicalLinesFrom]
    split
    · exact ⟨y, qs, ih⟩
    · cases continued? (trim l) with
      | some head => exact ⟨head ++ [' '] ++ y, qs, fun q => by simp only [ih, List.append_assoc]⟩
      | none => exact ⟨trim l, logicalLinesFrom (n + 1) none ls, fun q => rfl⟩

/-! ## The first word of a logical line -/

theorem EndsWord.append (h : EndsWord r) (hq : EndsWord q) : EndsWord (r ++ q) := by
  intro c first
  cases r with
  | nil => exact hq c first
  | cons d r => exact h c first

theorem trimEnd_word (hw : IsPlainWord w) (r : Text) : trimEnd (w ++ r) = w ++ trimEnd r :=
  dropEndWhile_append_of_last (fun _ last => hw.solid (List.mem_of_getLast? last)) r

theorem trim_margin_word (spaces : s.all isSpace = true) (hw : IsPlainWord w) (r : Text) :
    trim (s ++ (w ++ r)) = w ++ trimEnd r := by
  rw [trim, stripWhile, dropWhile_margin_word (fun _ => hw.solid) hw.filled,
    List.dropWhile_eq_nil_iff.2 (by simpa using spaces), List.nil_append]
  exact trimEnd_word hw r

theorem continued?_word (hw : IsPlainWord w) (r : Text) :
    continued? (w ++ r) = (continued? r).map (w ++ ·) := by
  cases found : continued? r with
  | some head =>
    obtain ⟨x, rfl, rfl⟩ := continued?_eq_some_iff.1 found
    exact continued?_eq_some_iff.2 ⟨w ++ x, (List.append_assoc ..).symm, (trimEnd_word hw x).symm⟩
  | none =>
    refine continued?_eq_none_iff.2 fun last => ?_
    cases r with
    | nil =>
      rw [List.append_nil] at last
      exact (hw.plain _ (List.mem_of_getLast? last)).2.2.1 rfl
    | cons c r =>
      rw [List.getLast?_append_of_ne_nil _ (List.cons_ne_nil c r)] at last
      exact continued?_eq_none_iff.1 found last

theorem finish_word (hw : IsPlainWord w) (n : Nat) (r : Text) :
    LogicalLine.finish ⟨n, w ++ r⟩ = [⟨n, w ++ trimEnd r⟩] := by
  have trimmed := trim_margin_word (s := []) rfl hw r
  rw [List.nil_append] at trimmed
  rw [LogicalLine.finish_eq, trimmed, if_neg (by simp [hw.filled])]

/-- A physical line that begins with a word begins a logical line with this word. -/
theorem exists_logicalLinesFrom_word (hs : IsMargin s) (ends : EndsWord r) (n : Nat)
    (ls : List Text) :
    ∃ y qs, EndsWord y ∧ ∀ w, IsPlainWord w →
      logicalLinesFrom n none ((s ++ (w ++ r)) :: ls) = ⟨n, w ++ y⟩ :: qs := by
  have start {w : Text} (hw : IsPlainWord w) :=
    logicalLinesFrom_cons (isComment_margin_word hs hw r) n none ls
  have filled {w : Text} (hw : IsPlainWord w) : ¬ w ++ trimEnd r = [] := by simp [hw.filled]
  cases found : continued? (trimEnd r) with
  | none =>
    refine ⟨trimEnd (trimEnd r), logicalLinesFrom (n + 1) none ls,
      (ends.dropEndWhile isSpace).dropEndWhile isSpace, fun w hw => ?_⟩
    rw [start hw, trim_margin_word hs.spaces hw, if_neg (filled hw), continued?_word hw, found]
    exact congrArg (· ++ _) (finish_word hw n _)
  | some head =>
    obtain ⟨y, qs, rest⟩ := exists_logicalLinesFrom_pending (n + 1) n ls
    have goesOn : EndsWord (head ++ ([' '] ++ y)) := by
      obtain ⟨b, split, -⟩ := exists_of_continued? found
      have first : EndsWord (trimEnd r) := ends.dropEndWhile isSpace
      refine (first.of_isPrefix (split ▸ List.prefix_append head _)).append ?_
      rintro c ⟨⟩
      decide
    refine ⟨trimEnd (head ++ ([' '] ++ y)), qs, goesOn.dropEndWhile isSpace, fun w hw => ?_⟩
    rw [start hw, trim_margin_word hs.spaces hw, if_neg (filled hw), continued?_word hw, found]
    refine (rest (w ++ head ++ [' '])).trans ?_
    rw [List.append_assoc, List.append_assoc, finish_word hw]
    rfl

/-! ## Recasing -/

/-- A line of a text stands between the lines before it and something that ends a word. -/
theorem exists_unlines_append (ls ms : List Text) :
    ∃ rest, EndsWord rest ∧ ∀ l, unlines (ls ++ l :: ms) = endLines ls ++ (l ++ rest) := by
  have before (l : Text) : unlines (ls ++ l :: ms) = endLines ls ++ unlines (l :: ms) := by
    by_cases none : ls = []
    · rw [none]
      rfl
    · rw [unlines_append none (List.cons_ne_nil l ms), endLines_eq_unlines none]
      simp
  by_cases last : ms = []
  · refine ⟨[], fun c first => (nomatch first), fun l => ?_⟩
    rw [before, last, unlines_singleton, List.append_nil]
  · refine ⟨'\n' :: unlines ms, ?_, fun l => ?_⟩
    · rintro c ⟨⟩
      decide
    · rw [before, unlines_cons l last]

/-- A line and the same line with its keyword in other letters. -/
inductive Recased (l l' : Text) : Prop where
  | intro {k : Kind} {s w w' r : Text} (left : l = s ++ (w ++ r)) (right : l' = s ++ (w' ++ r))
      (spaces : s.all isSpace = true) (first : k.Spells w) (second : k.Spells w')
      (ends : EndsWord r) : Recased l l'

/-- Whether a line after other ones continues one of them: an open continuation runs on into it, or
an open logical line does after the lines have been laid out. -/
def continues (vars : Variables) (before : List Text) : Bool :=
  passesAfter false (unifyBreaks (endLines before)) ||
    leavesOpen false ((arrangedBefore (endLines before)).map (substituteIn vars))

/-- Lines and the same lines with some keywords in other letters, after the lines `before`. -/
inductive Recases (vars : Variables) : (before ls ls' : List Text) → Prop where
  | nil (before : List Text) : Recases vars before [] []
  | keep {before ls ls' : List Text} (l : Text) (rest : Recases vars (before ++ [l]) ls ls') :
      Recases vars before (l :: ls) (l :: ls')
  | change {before ls ls' : List Text} {l l' : Text} (closed : continues vars before = false)
      (first : Recased l l') (rest : Recases vars (before ++ [l]) ls ls') :
      Recases vars before (l :: ls) (l' :: ls')

/-- Both texts are laid out alike, but for the keyword. -/
theorem Recased.exists_laidOut {before : List Text} {l l' : Text} (h : Recased l l')
    (oneLine : '\n' ∉ l) (closed : passesAfter false (unifyBreaks (endLines before)) = false)
    (after : List Text) :
    ∃ vars s r ls, IsMargin s ∧ EndsWord r ∧ ∃ (k : Kind) (w w' : Text),
      (k.Spells w ∧ variablesOf (arrange (unlines (before ++ l :: after))) = vars ∧
        normalLines (unlines (before ++ l :: after)) =
          (arrangedBefore (endLines before)).map (substituteIn vars) ++ (s ++ (w ++ r)) :: ls) ∧
      k.Spells w' ∧ variablesOf (arrange (unlines (before ++ l' :: after))) = vars ∧
        normalLines (unlines (before ++ l' :: after)) =
          (arrangedBefore (endLines before)).map (substituteIn vars) ++ (s ++ (w' ++ r)) :: ls := by
  obtain ⟨rfl, rfl, spaces, first, second, ends⟩ := h
  next k s w w' r =>
  obtain ⟨rest, endsLine, joined⟩ := exists_unlines_append before after
  have texts (w : Text) : unlines (before ++ (s ++ (w ++ r)) :: after) =
      endLines before ++ (s ++ (w ++ (r ++ rest))) := by
    rw [joined, List.append_assoc, List.append_assoc]
  have margin : IsMargin s := ⟨spaces, fun inside => oneLine (List.mem_append_left _ inside)⟩
  obtain ⟨vars, s', r', ls, hs', hr', laidOut⟩ :=
    exists_normalLines_append (k := k) margin (ends.append endsLine) closed
  rw [texts, texts]
  exact ⟨vars, s', r', ls, hs', hr', k, w, w', ⟨first, laidOut w first⟩, second, laidOut w' second⟩

/-- Where all white space is fillers and line feeds, a line continues another one only if it is
joined to it before anything else. -/
theorem Recased.continues_eq {before after : List Text} {l l' : Text} (h : Recased l l')
    (oneLine : '\n' ∉ l)
    (spaces : ∀ c ∈ unlines (before ++ l :: after), isSpace c = true → isPassedOver c = true) :
    continues (variablesOf (arrange (unlines (before ++ l :: after)))) before =
      passesAfter false (unifyBreaks (endLines before)) := by
  cases closed : passesAfter false (unifyBreaks (endLines before)) with
  | true => rw [continues, closed, Bool.true_or]
  | false =>
    obtain ⟨vars, s, r, ls, -, -, k, w, w', ⟨-, gathered, laidOut⟩, -⟩ :=
      h.exists_laidOut oneLine closed after
    rw [continues, closed, Bool.false_or, gathered]
    refine leavesOpen_eq_false fun m member => ?_
    have laidOutLine : m ∈ normalLines (unlines (before ++ l :: after)) := by
      rw [laidOut]
      exact List.mem_append_left _ member
    have layout := isLayout_normalLines (unlines (before ++ l :: after))
    -- The white space on a line comes from the text, or it is a space.
    have fillers : ∀ c ∈ m, isSpace c = true → isFiller c = true := by
      intro c inside space
      by_cases same : c = ' '
      · rw [same]
        rfl
      · have source := (unifyBreaks_sublist _).subset
          (mem_of_mem_normalLines laidOutLine inside same)
        rw [← isPassedOver_of_ne]
        · exact spaces c source space
        · rintro rfl
          exact (layout.neat m laidOutLine).oneLine inside
    refine continued?_eq_none_iff.1 ((continued?_trim_eq_none_iff fillers).2 (layout.closed m ?_))
    rw [laidOut, List.dropLast_append_of_ne_nil (List.cons_ne_nil _ _)]
    exact List.mem_append_left _ member

namespace Dockerfile

/-- The instructions of a recipe with their lines, if it can be read. -/
def outline? (t : Text) : Option (List (Instruction × Nat)) :=
  (ofText t).toOption.map fun d => Statement.outline d.statements

/-- The outline of a recipe is that of its laid out text. -/
theorem outline?_eq_normalize (t : Text) : outline? t = Statement.outline? (normalize t) := by
  rw [outline?, ofText, Statement.outline?]
  cases Statement.readAll (normalize t) <;> rfl

theorem outline?_eq (t : Text) :
    outline? t =
      (logicalLinesFrom 1 none (normalLines t)).mapM fun l =>
        (Instruction.readLine? l.text).map (·, l.line) := by
  rw [outline?_eq_normalize, Statement.outline?_eq, logicalLines_normalize]

/-- One line with its keyword in other letters makes no difference. -/
theorem outline?_of_recased {before after : List Text} {l l' : Text} (change : Recased l l')
    (oneLine : '\n' ∉ l)
    (closed : continues (variablesOf (arrange (unlines (before ++ l :: after)))) before = false) :
    variablesOf (arrange (unlines (before ++ l' :: after))) =
        variablesOf (arrange (unlines (before ++ l :: after))) ∧
      outline? (unlines (before ++ l' :: after)) = outline? (unlines (before ++ l :: after)) := by
  rw [continues, Bool.or_eq_false_iff] at closed
  obtain ⟨vars, s, r, ls, hs, hr, k, w, w', ⟨first, gathered, laidOut⟩, second, gathered',
    laidOut'⟩ := change.exists_laidOut oneLine closed.1 after
  refine ⟨gathered'.trans gathered.symm, ?_⟩
  rw [gathered] at closed
  have code : ∀ m ∈ (arrangedBefore (endLines before)).map (substituteIn vars),
      isComment m = false := by
    intro m member
    refine ((isLayout_normalLines (unlines (before ++ l :: after))).neat m ?_).code
    rw [laidOut]
    exact List.mem_append_left _ member
  obtain ⟨y, qs, hy, logical⟩ := exists_logicalLinesFrom_word hs hr
    (1 + ((arrangedBefore (endLines before)).map (substituteIn vars)).length) ls
  rw [outline?_eq, outline?_eq, laidOut, laidOut',
    logicalLinesFrom_append_of_closed code _ 1 none closed.2,
    logicalLinesFrom_append_of_closed code _ 1 none closed.2,
    logical w (isPlainWord_of_spells first), logical w' (isPlainWord_of_spells second),
    List.mapM_append, List.mapM_append, List.mapM_cons, List.mapM_cons]
  dsimp only
  rw [Instruction.readLine?_congr second first hy]

/-- Any number of lines with their keywords in other letters make no difference. -/
theorem outline?_of_recases {vars : Variables} {before ls ls' : List Text}
    (h : Recases vars before ls ls') (oneLine : ∀ l ∈ ls, '\n' ∉ l)
    (gathered : variablesOf (arrange (unlines (before ++ ls))) = vars) :
    variablesOf (arrange (unlines (before ++ ls'))) = vars ∧
      outline? (unlines (before ++ ls')) = outline? (unlines (before ++ ls)) := by
  -- The last lines are changed first, so that the lines before the next one are as they were.
  induction h with
  | nil => exact ⟨gathered, rfl⟩
  | @keep before ls ls' l rest ih =>
    have ih := ih fun m member => oneLine m (List.mem_cons_of_mem l member)
    rw [← List.append_cons, ← List.append_cons] at ih
    exact ih gathered
  | @change before ls ls' l l' closed first rest ih =>
    have ih := ih fun m member => oneLine m (List.mem_cons_of_mem l member)
    rw [← List.append_cons, ← List.append_cons] at ih
    obtain ⟨kept, same⟩ := ih gathered
    have step := outline?_of_recased first (oneLine l List.mem_cons_self) (kept.symm ▸ closed)
    exact ⟨step.1.trans kept, step.2.trans same⟩

/-- The first word selects how a line is read. At most one kind reads the beginning of a text, so
the kinds may be tried in any order, and the first word of a logical line that is read names its
kind. Keywords in other letters at the beginning of lines that continue no other line change neither
the variables nor the instructions and their lines. -/
theorem keyword_selects (t : Text) :
    (∀ k l, (Instruction.readKind? k t).isSome → (Instruction.readKind? l t).isSome → k = l) ∧
      (∀ ks : List Kind, ks.Perm Kind.all →
        ks.findSome? (Instruction.readKind? · t) = Instruction.read? t) ∧
      (∀ l ∈ logicalLines t, ∀ s, Statement.read l = .ok s →
        s.kind = .comment ∧ l.text.head? = some '#' ∨
          (firstWord l.text).map Char.toUpper = s.kind.name) ∧
      ∀ t', Recases (variablesOf (arrange t)) [] (pieces '\n' t) (pieces '\n' t') →
        variablesOf (arrange t') = variablesOf (arrange t) ∧ outline? t' = outline? t := by
  refine ⟨fun k l => Instruction.eq_of_readKind?, fun ks => Instruction.findSome?_readKind?,
    fun l _ s read => ?_, fun t' recases => ?_⟩
  · exact Instruction.name_of_readLine? (Statement.readLine?_of_read read)
  · have same := outline?_of_recases recases (fun l => notMem_of_mem_pieces)
      (by rw [List.nil_append, unlines_pieces])
    rwa [List.nil_append, List.nil_append, unlines_pieces, unlines_pieces] at same

/-- Keywords of two lines and of one that is continued in other letters; the last line, which begins
with a keyword as well, continues it and stays as it is. -/
theorem keyword_selects_of_continued :
    ∃ t t', t = "user a\nenv B=c\nRUN d \\\n  USER $B".toList ∧
      t' = "USER a\nEnv B=c\nrun d \\\n  USER $B".toList ∧
      (∀ k, (Instruction.readKind? k t).isSome → .user = k) ∧
      Kind.all.reverse.findSome? (Instruction.readKind? · t) = Instruction.read? t ∧
      (firstWord "user a".toList).map Char.toUpper = Kind.user.name ∧
      Recases (variablesOf (arrange t)) [] (pieces '\n' t) (pieces '\n' t') ∧
      variablesOf (arrange t') = variablesOf (arrange t) ∧ outline? t' = outline? t := by
  obtain ⟨unique, order, named, same⟩ :=
    keyword_selects "user a\nenv B=c\nRUN d \\\n  USER $B".toList
  have user :
      (Instruction.readKind? .user "user a\nenv B=c\nRUN d \\\n  USER $B".toList).isSome := by
    decide +kernel
  have line :
      ⟨1, "user a".toList⟩ ∈ logicalLines "user a\nenv B=c\nRUN d \\\n  USER $B".toList := by
    decide +kernel
  have read : Statement.read ⟨1, "user a".toList⟩ =
      .ok ⟨.user ⟨"a".toList, none⟩, 1, "user a".toList⟩ := by
    decide +kernel
  have recased (k : Kind) {w w' r : Text} (first : k.Spells w) (second : k.Spells w')
      (ends : EndsWord r) : Recased (w ++ r) (w' ++ r) :=
    .intro (s := []) rfl rfl rfl first second ends
  have recases : Recases (variablesOf (arrange "user a\nenv B=c\nRUN d \\\n  USER $B".toList)) []
      (pieces '\n' "user a\nenv B=c\nRUN d \\\n  USER $B".toList)
      (pieces '\n' "USER a\nEnv B=c\nrun d \\\n  USER $B".toList) := by
    rw [show pieces '\n' "user a\nenv B=c\nRUN d \\\n  USER $B".toList =
        ["user".toList ++ " a".toList, "env".toList ++ " B=c".toList,
          "RUN".toList ++ " d \\".toList, "  USER $B".toList] by decide,
      show pieces '\n' "USER a\nEnv B=c\nrun d \\\n  USER $B".toList =
        ["USER".toList ++ " a".toList, "Env".toList ++ " B=c".toList,
          "run".toList ++ " d \\".toList, "  USER $B".toList] by decide]
    refine .change ?_ (recased .user (by decide) (by decide) (by decide))
      (.change ?_ (recased .env (by decide) (by decide) (by decide))
        (.change ?_ (recased .run (by decide) (by decide) (by decide)) (.keep _ (.nil _)))) <;>
    decide +kernel
  refine ⟨_, _, rfl, rfl, fun k => unique .user k user, order _ (List.reverse_perm _), ?_, recases,
    same _ recases⟩
  exact (named _ line _ read).resolve_left fun h => nomatch h.1

end Dockerfile

end ImageAudit
