import ImageAudit.Proofs.Layout.NormalForm

/-!
# Replaced references

`Replaced` relates a line to what becomes of it when some of its references are replaced by values,
and `replaced_substituteLine` puts substitution into this relation. Since values can be put into a
line as they are, a laid out line stays one: `IsLayout.substitute`.
-/

namespace ImageAudit

open Text Layout

/-! ## Values that can be put into a line -/

namespace Layout

theorem isInsertable_iff {value : Text} :
    isInsertable value = true ↔
      value ≠ [] ∧ (∀ c ∈ value, isActive c = false ∧ isControl c = false) ∧
        value.head? ≠ some ' ' ∧ value.getLast? ≠ some ' ' ∧ hasDoubleSpace value = false := by
  simp only [isInsertable, Bool.and_eq_true, Bool.not_eq_true', List.isEmpty_eq_false_iff,
    List.any_eq_false, Bool.not_eq_true, beq_eq_false_iff_ne, forall_and, and_assoc]

theorem isActive_of_mem {value : Text} (h : isInsertable value = true) {c : Char}
    (hc : c ∈ value) : isActive c = false :=
  ((isInsertable_iff.1 h).2.1 c hc).1

theorem isControl_of_mem {value : Text} (h : isInsertable value = true) {c : Char}
    (hc : c ∈ value) : isControl c = false :=
  ((isInsertable_iff.1 h).2.1 c hc).2

theorem isFiller_eq_false {c : Char} (space : c ≠ ' ') (control : isControl c = false) :
    isFiller c = false := by
  simp only [isFiller, Bool.or_eq_false_iff, beq_eq_false_iff_ne]
  refine ⟨⟨space, ?_⟩, ?_⟩
  all_goals
    rintro rfl
    exact absurd control (by decide)

/-- An insertable value begins with a character that is no filler. -/
theorem exists_cons_of_isInsertable {value : Text} (h : isInsertable value = true) :
    ∃ c r, value = c :: r ∧ isFiller c = false := by
  obtain ⟨filled, -, first, -, -⟩ := isInsertable_iff.1 h
  obtain ⟨c, r, rfl⟩ := List.exists_cons_of_ne_nil filled
  refine ⟨c, r, rfl, isFiller_eq_false ?_ (isControl_of_mem h List.mem_cons_self)⟩
  rintro rfl
  exact first rfl

theorem isFiller_of_getLast?_value {value : Text} (h : isInsertable value = true) {c : Char}
    (last : value.getLast? = some c) : isFiller c = false := by
  apply isFiller_eq_false
  · rintro rfl
    exact (isInsertable_iff.1 h).2.2.2.1 last
  · exact isControl_of_mem h (List.mem_of_getLast? last)

end Layout

/-! ## Variables of which all values can be put into a line -/

namespace Variables

/-- All values can be put into lines as they are. -/
def AreInsertable (vars : Variables) : Prop := ∀ v ∈ vars, isInsertable v.2 = true

theorem exists_of_mem_put {name value : Text} {vars : Variables} {w : Text × Text}
    (h : w ∈ put name value vars) : w ∈ vars ∨ w.2 = value := by
  fun_induction put name value vars with
  | case1 =>
    rw [List.mem_singleton] at h
    exact .inr (by rw [h])
  | case2 v vars _ =>
    rcases List.mem_cons.1 h with h | h
    · exact .inr (by rw [h])
    · exact .inl (List.mem_cons_of_mem v h)
  | case3 v vars _ ih =>
    rcases List.mem_cons.1 h with h | h
    · exact .inl (h ▸ List.mem_cons_self)
    · exact (ih h).imp_left (List.mem_cons_of_mem v)

theorem AreInsertable.assign {vars : Variables} (h : vars.AreInsertable) (name value : Text) :
    (assign vars name value).AreInsertable := by
  rw [Layout.assign]
  split
  · next insertable =>
    intro w member
    rcases exists_of_mem_put member with member | same
    · exact h w member
    · rw [same, insertable]
  · exact h

theorem AreInsertable.assignOlder {vars : Variables} (h : vars.AreInsertable) (line : Text) :
    (assignOlder vars line).AreInsertable := by
  rw [Layout.assignOlder]
  split
  · exact h.assign _ _
  · exact h

theorem AreInsertable.assignOne {vars : Variables} (h : vars.AreInsertable) (assignment : Text) :
    (assignOne vars assignment).AreInsertable := by
  rw [Layout.assignOne]
  split
  · split
    · exact h
    · exact h.assign _ _
  · exact h

theorem AreInsertable.foldl {α : Type} {step : Variables → α → Variables}
    (preserves : ∀ {vars : Variables}, vars.AreInsertable → ∀ a, (step vars a).AreInsertable)
    (as : List α) {vars : Variables} (h : vars.AreInsertable) :
    (as.foldl step vars).AreInsertable := by
  induction as generalizing vars with
  | nil => exact h
  | cons a as ih => exact ih (preserves h a)

theorem AreInsertable.assignNewer {vars : Variables} (h : vars.AreInsertable) (line : Text) :
    (assignNewer vars line).AreInsertable := by
  rw [Layout.assignNewer]
  split
  · exact AreInsertable.foldl AreInsertable.assignOne _ h
  · exact h

/-- Only insertable values are taken over from a text. -/
theorem areInsertable_variablesOf (t : Text) : (variablesOf t).AreInsertable := by
  apply AreInsertable.foldl AreInsertable.assignNewer
  apply AreInsertable.foldl AreInsertable.assignOlder
  exact fun v member => absurd member List.not_mem_nil

theorem AreInsertable.value {vars : Variables} (h : vars.AreInsertable) {name value : Text}
    (known : vars.value? name = some value) : isInsertable value = true := by
  obtain ⟨v, found, rfl⟩ := Option.map_eq_some_iff.1 known
  exact h v (List.mem_of_find?_eq_some found)

end Variables

namespace Layout

/-! ## Replaced references -/

/-- `Replaced vars started l m`: the text `m` is `l` with references replaced by their values. As
long as the line has not `started` with something else than white space, nothing is replaced. -/
inductive Replaced (vars : Variables) : (started : Bool) → Text → Text → Prop where
  | nil {started : Bool} : Replaced vars started [] []
  | keep {started : Bool} {c : Char} {r s : Text} :
      Replaced vars (started || !isSpace c) r s → Replaced vars started (c :: r) (c :: s)
  | replace {r s value : Text} {n : Nat} :
      reference? vars r = some (value, n) → Replaced vars true (r.drop n) s →
        Replaced vars true ('$' :: r) (value ++ s)

variable {vars : Variables}

theorem Replaced.keep_append (a : Text) {r s : Text} (h : Replaced vars true r s) :
    Replaced vars true (a ++ r) (a ++ s) := by
  induction a with
  | nil => exact h
  | cons c a ih => exact .keep ih

theorem exists_value?_of_reference? {t value : Text} {n : Nat}
    (h : reference? vars t = some (value, n)) : ∃ name, vars.value? name = some value := by
  rw [reference?.eq_def] at h
  split at h
  · next r =>
    obtain ⟨⟨body, rest⟩, -, h⟩ := Option.bind_eq_some_iff.1 h
    dsimp only at h
    split at h
    · obtain ⟨w, known, h⟩ := Option.bind_eq_some_iff.1 h
      cases h
      exact ⟨_, known⟩
    · cases h
  · dsimp only at h
    split at h
    · cases h
    · obtain ⟨w, known, h⟩ := Option.bind_eq_some_iff.1 h
      cases h
      exact ⟨_, known⟩

theorem isInsertable_of_reference? (insertable : vars.AreInsertable) {t value : Text} {n : Nat}
    (h : reference? vars t = some (value, n)) : isInsertable value = true := by
  obtain ⟨name, known⟩ := exists_value?_of_reference? h
  exact insertable.value known

theorem exists_cons_of_reference? (insertable : vars.AreInsertable) {t value : Text} {n : Nat}
    (h : reference? vars t = some (value, n)) : ∃ c r, value = c :: r ∧ isFiller c = false :=
  exists_cons_of_isInsertable (isInsertable_of_reference? insertable h)

/-! ## Substitution replaces references -/

theorem substituteFrom_skip (vars : Variables) (n : Nat) (g : Guard) (t : Text) :
    substituteFrom vars n g t = substituteFrom vars 0 g (t.drop n) := by
  induction t generalizing n with
  | nil => simp [substituteFrom]
  | cons c r ih =>
    cases n with
    | zero => rfl
    | succ n => rw [substituteFrom, ih, List.drop_succ_cons]

theorem substituteFrom_cons (vars : Variables) (g : Guard) {c : Char} (h : c ≠ '$') (r : Text) :
    substituteFrom vars 0 g (c :: r) = c :: substituteFrom vars 0 (g.after c) r := by
  rw [substituteFrom, if_neg h]

theorem substituteFrom_replace {g : Guard} {r value : Text} {n : Nat}
    (h : g.reference? vars r = some (value, n)) :
    substituteFrom vars 0 g ('$' :: r) = value ++ substituteFrom vars 0 .free (r.drop n) := by
  rw [substituteFrom, if_pos rfl, h]
  exact congrArg (value ++ ·) (substituteFrom_skip vars n .free r)

theorem drop_length_takeWhile (p : Char → Bool) (t : Text) :
    t.drop (t.takeWhile p).length = t.dropWhile p := by
  conv_lhs => arg 2; rw [← List.takeWhile_append_dropWhile (p := p) (l := t)]
  exact List.drop_left

theorem keptReference_append_drop (r : Text) :
    keptReference r ++ r.drop (keptReference r).length = r := by
  fun_cases keptReference r with
  | case1 t =>
    rw [List.length_cons, List.drop_succ_cons, drop_length_takeWhile, List.cons_append,
      List.takeWhile_append_dropWhile]
  | case2 => rw [drop_length_takeWhile, List.takeWhile_append_dropWhile]

theorem substituteFrom_kept {g : Guard} {r : Text} (h : g.reference? vars r = none) :
    substituteFrom vars 0 g ('$' :: r) =
      '$' :: keptReference r ++
        substituteFrom vars 0 .afterReference (r.drop (keptReference r).length) := by
  rw [substituteFrom, if_pos rfl, h]
  exact congrArg ('$' :: keptReference r ++ ·) (substituteFrom_skip vars _ .afterReference r)

theorem Guard.after_eq_lineStart {g : Guard} {c : Char} :
    g.after c = .lineStart ↔ g = .lineStart ∧ isSpace c = true := by
  rw [Guard.after]
  split
  · next h => simpa using h
  · next h => simpa using h

theorem Guard.reference?_eq_some_iff {g : Guard} {t : Text} {v : Text × Nat} :
    g.reference? vars t = some v ↔ g = .free ∧ Layout.reference? vars t = some v := by
  rw [Guard.reference?]
  split
  · next free => simp [free]
  · next guarded => simp [guarded]

/-- Substitution replaces references, none of them at the beginning of a line. -/
theorem replaced_substituteFrom (vars : Variables) (g : Guard) (t : Text) :
    Replaced vars (g != .lineStart) t (substituteFrom vars 0 g t) := by
  -- By the length of what is left: a reference is dealt with as a whole.
  induction h : t.length using Nat.strong_induction_on generalizing g t with
  | _ n ih =>
    subst h
    cases t with
    | nil => exact .nil
    | cons c r =>
      by_cases dollar : c = '$'
      · subst dollar
        have shorter (k : Nat) : (r.drop k).length < ('$' :: r).length := by
          rw [List.length_drop, List.length_cons]
          omega
        cases found : g.reference? vars r with
        | some v =>
          obtain ⟨value, k⟩ := v
          obtain ⟨rfl, known⟩ := Guard.reference?_eq_some_iff.1 found
          rw [substituteFrom_replace found]
          exact .replace known (ih _ (shorter k) .free _ rfl)
        | none =>
          rw [substituteFrom_kept found]
          have rest := ih _ (shorter (keptReference r).length) .afterReference _ rfl
          have kept := Replaced.keep_append (keptReference r) rest
          rw [keptReference_append_drop] at kept
          refine .keep ?_
          rwa [show isSpace '$' = false from by decide, Bool.not_false, Bool.or_true]
      · rw [substituteFrom_cons vars g dollar]
        refine .keep ?_
        have rest := ih _ (Nat.lt_succ_self _) (g.after c) r rfl
        -- The guard of the line start holds as long as the line has not started.
        have same : (g.after c != .lineStart) = (g != .lineStart || !isSpace c) := by
          rw [Bool.eq_iff_iff]
          simp only [bne_iff_ne, ne_eq, Guard.after_eq_lineStart, Bool.or_eq_true,
            Bool.not_eq_true']
          cases isSpace c <;> simp
        rwa [same] at rest

theorem replaced_substituteLine (vars : Variables) (l : Text) :
    Replaced vars false l (substituteLine vars l) :=
  replaced_substituteFrom vars .lineStart l

/-! ## What replacing keeps -/

theorem Replaced.eq_nil_iff (insertable : vars.AreInsertable) {started : Bool} {l m : Text}
    (h : Replaced vars started l m) : m = [] ↔ l = [] := by
  cases h with
  | nil => exact Iff.rfl
  | keep _ => exact iff_of_false (List.cons_ne_nil _ _) (List.cons_ne_nil _ _)
  | replace found _ =>
    obtain ⟨c, r, rfl, -⟩ := exists_cons_of_reference? insertable found
    exact iff_of_false (List.cons_ne_nil _ _) (List.cons_ne_nil _ _)

/-- A filler at the beginning of the result stood there before. -/
theorem Replaced.head?_eq (insertable : vars.AreInsertable) {started : Bool} {l m : Text}
    (h : Replaced vars started l m) {c : Char} (first : m.head? = some c)
    (filler : isFiller c = true) : l.head? = some c := by
  cases h with
  | nil => exact first
  | keep _ => exact first
  | replace found _ =>
    obtain ⟨d, r, rfl, hd⟩ := exists_cons_of_reference? insertable found
    rw [List.cons_append, List.head?_cons, Option.some.injEq] at first
    rw [← first, hd] at filler
    cases filler

/-- A filler at the end of the result stood there before. -/
theorem Replaced.getLast?_eq (insertable : vars.AreInsertable) {started : Bool} {l m : Text}
    (h : Replaced vars started l m) {c : Char} (last : m.getLast? = some c)
    (filler : isFiller c = true) : l.getLast? = some c := by
  induction h with
  | nil => exact last
  | @keep _ d r s rest ih =>
    rw [List.getLast?_cons] at last ⊢
    cases hs : s.getLast? with
    | none =>
      -- Nothing is left after `d`, and nothing was.
      have := (rest.eq_nil_iff insertable).1 (List.getLast?_eq_none_iff.1 hs)
      rw [hs] at last
      rw [this, ← last]
      rfl
    | some e =>
      rw [hs] at last
      rw [ih (by rw [hs, ← last]; rfl)]
      rfl
  | @replace r s value n found rest ih =>
    rw [List.getLast?_append] at last
    cases hs : s.getLast? with
    | none =>
      rw [hs] at last
      have := isFiller_of_getLast?_value (isInsertable_of_reference? insertable found) last
      rw [this] at filler
      cases filler
    | some e =>
      have hr := ih (by rw [hs] at last ⊢; exact last)
      rw [List.getLast?_drop] at hr
      split at hr
      · cases hr
      · rw [List.getLast?_cons, hr]
        rfl

theorem Replaced.hasDoubleSpace_eq (insertable : vars.AreInsertable) {started : Bool} {l m : Text}
    (h : Replaced vars started l m) (single : hasDoubleSpace l = false) :
    hasDoubleSpace m = false := by
  induction h with
  | nil => rfl
  | @keep _ c r s rest ih =>
    rw [hasDoubleSpace_cons, Bool.or_eq_false_iff] at single ⊢
    refine ⟨?_, ih single.2⟩
    by_contra double
    simp only [Bool.not_eq_false, Bool.and_eq_true, beq_iff_eq] at double
    have := rest.head?_eq insertable double.2 (by decide)
    simp [double.1, this] at single
  | @replace r s value n found rest ih =>
    have value := isInsertable_iff.1 (isInsertable_of_reference? insertable found)
    rw [hasDoubleSpace_append, value.2.2.2.2, ih, beq_eq_false_iff_ne.2 value.2.2.2.1]
    · rfl
    · -- What stands after the reference is a part of the line.
      rw [← List.take_append_drop n r, ← List.cons_append, hasDoubleSpace_append] at single
      simp only [Bool.or_eq_false_iff] at single
      exact single.1.2

theorem Replaced.count_le (insertable : vars.AreInsertable) {started : Bool} {l m : Text}
    (h : Replaced vars started l m) {c : Char} (control : isControl c = true) :
    m.count c ≤ l.count c := by
  induction h with
  | nil => exact Nat.le_refl _
  | keep rest ih =>
    rw [List.count_cons, List.count_cons]
    exact Nat.add_le_add_right ih _
  | @replace r s value n found rest ih =>
    have absent : c ∉ value := by
      intro member
      rw [isControl_of_mem (isInsertable_of_reference? insertable found) member] at control
      cases control
    rw [List.count_append, List.count_eq_zero_of_not_mem absent, Nat.zero_add]
    exact ih.trans (((List.drop_sublist n r).cons '$').count_le c)

/-- The characters that make references and continuations stood in the line before. -/
theorem Replaced.mem_of_isActive (insertable : vars.AreInsertable) {started : Bool} {l m : Text}
    (h : Replaced vars started l m) {c : Char} (active : isActive c = true) (member : c ∈ m) :
    c ∈ l := by
  induction h with
  | nil => exact member
  | keep rest ih =>
    rcases List.mem_cons.1 member with rfl | member
    · exact List.mem_cons_self
    · exact List.mem_cons_of_mem _ (ih member)
  | @replace r s value n found rest ih =>
    rcases List.mem_append.1 member with inside | member
    · rw [isActive_of_mem (isInsertable_of_reference? insertable found) inside] at active
      cases active
    · exact List.mem_cons_of_mem _ (List.mem_of_mem_drop (ih member))

theorem Replaced.newline_notMem (insertable : vars.AreInsertable) {started : Bool} {l m : Text}
    (h : Replaced vars started l m) (oneLine : '\n' ∉ l) : '\n' ∉ m := by
  have := h.count_le insertable (show isControl '\n' = true from by decide)
  rw [List.count_eq_zero_of_not_mem oneLine] at this
  exact List.count_eq_zero.1 (Nat.le_zero.1 this)

theorem Replaced.all_isFiller (insertable : vars.AreInsertable) {started : Bool} {l m : Text}
    (h : Replaced vars started l m) (fillers : m.all isFiller = true) : l.all isFiller = true := by
  induction h with
  | nil => rfl
  | keep rest ih =>
    rw [List.all_cons, Bool.and_eq_true] at fillers ⊢
    exact ⟨fillers.1, ih fillers.2⟩
  | replace found rest ih =>
    obtain ⟨d, r, rfl, hd⟩ := exists_cons_of_reference? insertable found
    rw [List.cons_append, List.all_cons, hd, Bool.false_and] at fillers
    cases fillers

theorem endsInBackslash_of_notMem {l : Text} (h : '\\' ∉ l) : endsInBackslash l = false := by
  induction l with
  | nil => rfl
  | cons c l ih =>
    simp only [List.mem_cons, not_or] at h
    rw [endsInBackslash_cons, ih h.2, beq_eq_false_iff_ne.2 (Ne.symm h.1)]
    rfl

/-- A line that does not run on into the next one still does not after replacing. -/
theorem Replaced.endsInBackslash (insertable : vars.AreInsertable) {started : Bool} {l m : Text}
    (h : Replaced vars started l m) (continued : endsInBackslash m = true) :
    endsInBackslash l = true := by
  induction h with
  | nil => exact continued
  | keep rest ih =>
    rw [endsInBackslash_cons, Bool.or_eq_true, Bool.and_eq_true] at continued ⊢
    exact continued.imp ih fun h => ⟨h.1, rest.all_isFiller insertable h.2⟩
  | @replace r s value n found rest ih =>
    have noBackslash : '\\' ∉ value := by
      intro member
      have := isActive_of_mem (isInsertable_of_reference? insertable found) member
      exact absurd this (by decide)
    rw [endsInBackslash_append, endsInBackslash_of_notMem noBackslash, Bool.and_false,
      Bool.or_false] at continued
    rw [← List.take_append_drop n r, ← List.cons_append, endsInBackslash_append, ih continued,
      Bool.true_or]

theorem Replaced.isComment_eq {l m : Text} (h : Replaced vars false l m) :
    isComment m = isComment l := by
  induction l generalizing m with
  | nil =>
    cases h
    rfl
  | cons c r ih =>
    cases h with
    | keep rest =>
      rw [isComment_cons, isComment_cons]
      cases hc : isSpace c with
      | true =>
        rw [hc] at rest
        rw [if_pos rfl, if_pos rfl, ih rest]
      | false => rw [if_neg Bool.false_ne_true, if_neg Bool.false_ne_true]

/-! ## Laid out lines stay laid out -/

theorem IsNeat.replaced (insertable : vars.AreInsertable) {l m : Text} (neat : IsNeat l)
    (h : Replaced vars false l m) : IsNeat m where
  filled := mt (h.eq_nil_iff insertable).1 neat.filled
  oneLine := h.newline_notMem insertable neat.oneLine
  first c hc := by
    by_contra blank
    rw [Bool.not_eq_false] at blank
    rw [neat.first c (h.head?_eq insertable hc (isFiller_of_isBlank blank))] at blank
    cases blank
  last c hc := by
    by_contra blank
    rw [Bool.not_eq_false] at blank
    rw [neat.last c (h.getLast?_eq insertable hc (isFiller_of_isBlank blank))] at blank
    cases blank
  single := h.hasDoubleSpace_eq insertable neat.single
  code := by rw [h.isComment_eq, neat.code]

/-- What becomes of a line: a line that sets variables stays as it is. -/
def substituteIn (vars : Variables) (l : Text) : Text :=
  if isEnvLine l then l else substituteLine vars l

/-- Laid out lines are laid out after the substitution of variables too. -/
theorem IsLayout.substitute (insertable : vars.AreInsertable) {ls : List Text} (h : IsLayout ls) :
    IsLayout (ls.map (substituteIn vars)) where
  neat m member := by
    obtain ⟨l, hl, rfl⟩ := List.mem_map.1 member
    rw [substituteIn]
    split
    · exact h.neat l hl
    · exact (h.neat l hl).replaced insertable (replaced_substituteLine vars l)
  closed m member := by
    rw [← List.map_dropLast] at member
    obtain ⟨l, hl, rfl⟩ := List.mem_map.1 member
    rw [substituteIn]
    split
    · exact h.closed l hl
    · rw [← Bool.not_eq_true]
      intro continued
      have := (replaced_substituteLine vars l).endsInBackslash insertable continued
      rw [h.closed l hl] at this
      cases this

end Layout

end ImageAudit
