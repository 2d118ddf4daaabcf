import ImageAudit.Proofs.Layout.Definitions
import ImageAudit.Proofs.Layout.Idempotence

/-!
# Texts that need to be laid out only once

What a text has to be like for laying out twice to be laying out once, told from the text itself
and not from the result.

* `reference?_brace_eq_none_iff`: when a name within braces is no reference to a known variable.
* `substituteFrom_substituteFrom`: the references that are left over stay left over, unless a value
  begins like a default.
* `normalize_normalize_of_isSettled`: laying out settles such a text, and a text without ENV lines
  is one by `isSettled_of_no_env`.
-/

namespace ImageAudit.Layout

open Text

variable {vars : Variables}

/-! ## References within braces -/

/-- The text ends a name within braces: it begins with the closing brace, or with a default and
the closing brace comes later. -/
def ClosesReference (s : Text) : Prop :=
  '}' ∈ s ∧ (s.head? = some '}' ∨ s.head? = some '-' ∨ [':', '-'] <+: s)

theorem isDefault_iff {d : Text} :
    isDefault d = true ↔ d = [] ∨ d.head? = some '-' ∨ [':', '-'] <+: d := by
  rw [isDefault.eq_def]
  split
  · simp
  · simp
  · simp
  · next empty hyphen colon =>
    refine iff_of_false Bool.false_ne_true ?_
    rintro (h | h | ⟨r, rfl⟩)
    · exact empty h
    · obtain ⟨r, rfl⟩ := List.head?_eq_some_iff.1 h
      exact hyphen r rfl
    · exact colon r rfl

theorem endsName_of_isDefault {c : Char} {d : Text} (h : isDefault (c :: d) = true) :
    endsName c = true := by
  rcases isDefault_iff.1 h with h | h | ⟨r, h⟩
  · cases h
  · cases h
    rfl
  · cases h
    rfl

theorem closesReference_iff {s : Text} :
    ClosesReference s ↔ ∃ d r, cut '}' s = some (d, r) ∧ isDefault d = true := by
  -- What stands before the closing brace tells it apart from other texts within two characters.
  have starts (d r : Text) (open' : '}' ∉ d) : isDefault d = true ↔
      (d ++ '}' :: r).head? = some '}' ∨ (d ++ '}' :: r).head? = some '-' ∨
        [':', '-'] <+: d ++ '}' :: r := by
    rw [isDefault_iff]
    rcases d with _ | ⟨c, _ | ⟨e, d⟩⟩
    · simp
    · simp at open' ⊢
      tauto
    · simp at open' ⊢
      tauto
  constructor
  · rintro ⟨closed, begins⟩
    obtain ⟨d, r, rfl, absent⟩ := List.eq_append_cons_of_mem closed
    exact ⟨d, r, cut_eq_some_iff.2 ⟨rfl, absent⟩, (starts d r absent).2 begins⟩
  · rintro ⟨d, r, found, default⟩
    obtain ⟨rfl, absent⟩ := cut_eq_some_iff.1 found
    exact ⟨by simp, (starts d r absent).1 default⟩

theorem takeWhile_append_of_head? {p : Char → Bool} {a t : Text} (all : a.all p = true)
    (ends : ∀ c, t.head? = some c → p c = false) : (a ++ t).takeWhile p = a := by
  rw [List.takeWhile_append_of_pos (List.all_eq_true.1 all)]
  cases t with
  | nil => simp
  | cons c t => simp [ends c rfl]

theorem endsName_eq_false {c : Char} (h : isReferenceChar c = true) : endsName c = false := by
  rw [endsName, Bool.or_eq_false_iff, beq_eq_false_iff_ne, beq_eq_false_iff_ne]
  constructor <;>
    · rintro rfl
      exact absurd h (by decide)

/-- The name ends before a default. -/
theorem takeWhile_of_isDefault {d : Text} (h : isDefault d = true) :
    (d.takeWhile fun c => !endsName c) = [] ∧ (d.dropWhile fun c => !endsName c) = d := by
  cases d with
  | nil => exact ⟨rfl, rfl⟩
  | cons c d =>
    have := endsName_of_isDefault h
    simp [this]

/-- A name that goes on with other characters is no name. -/
theorem not_isReferenceName_of_not_isDefault {d : Text} (h : isDefault d = false)
    (ends : ∀ c, d.head? = some c → isReferenceChar c = false) (name : Text) :
    (isDefault (d.dropWhile fun c => !endsName c) &&
      isReferenceName (name ++ d.takeWhile fun c => !endsName c)) = false := by
  cases d with
  | nil => cases h
  | cons c d =>
    cases hc : endsName c with
    | true => simp [hc, h]
    | false => simp [isReferenceName, hc, ends c rfl]

/-- A name within braces is a reference to a known variable only if it is closed. -/
theorem reference?_brace_eq_none_iff {name s : Text} (names : name.all isReferenceChar = true)
    (ends : ∀ c, s.head? = some c → isReferenceChar c = false) :
    reference? vars ('{' :: (name ++ s)) = none ↔
      (name ≠ [] → ClosesReference s → vars.value? name = none) := by
  have inside : ∀ c ∈ name, (!endsName c) = true := by
    intro c member
    rw [endsName_eq_false (List.all_eq_true.1 names c member)]
    rfl
  have absent : '}' ∉ name := fun member =>
    absurd (List.all_eq_true.1 names _ member) (by decide)
  rw [closesReference_iff, reference?, cut_append absent]
  cases found : cut '}' s with
  | none => simp
  | some q =>
    obtain ⟨d, r⟩ := q
    obtain ⟨rfl, -⟩ := cut_eq_some_iff.1 found
    simp only [Option.map_some, Option.bind_eq_bind, Option.bind_some,
      List.takeWhile_append_of_pos inside, List.dropWhile_append_of_pos inside]
    cases default : isDefault d with
    | true =>
      obtain ⟨taken, left⟩ := takeWhile_of_isDefault default
      rw [taken, left, List.append_nil, default, Bool.true_and]
      cases name with
      | nil => simp [isReferenceName]
      | cons c name =>
        have filled : isReferenceName (c :: name) = true := by rw [isReferenceName, names]; rfl
        rw [filled, if_pos rfl]
        cases known : vars.value? (c :: name) <;> simp [default]
    | false =>
      have first : ∀ c, d.head? = some c → isReferenceChar c = false := by
        intro c first
        exact ends c (by rw [List.head?_append, first]; rfl)
      rw [not_isReferenceName_of_not_isDefault default first, if_neg Bool.false_ne_true]
      refine iff_of_true rfl ?_
      rintro - ⟨d', r', same, h⟩
      cases same
      rw [default] at h
      cases h

theorem ne_brace {name s : Text} (names : name.all isReferenceChar = true)
    (bare : s.head? = some '{' → name ≠ []) (t : Text) : name ++ s ≠ '{' :: t := by
  intro brace
  cases name with
  | nil =>
    rw [List.nil_append] at brace
    exact bare (by rw [brace]; rfl) rfl
  | cons c name =>
    obtain rfl := (List.cons.inj brace).1
    exact absurd names (by simp [isReferenceChar])

/-- A name without braces is a reference to a known variable if it is the name of one. -/
theorem reference?_plain_eq_none_iff {name s : Text} (names : name.all isReferenceChar = true)
    (ends : ∀ c, s.head? = some c → isReferenceChar c = false)
    (bare : s.head? = some '{' → name ≠ []) :
    reference? vars (name ++ s) = none ↔ (name ≠ [] → vars.value? name = none) := by
  rw [reference?.eq_def]
  split
  · next t brace => exact absurd brace (ne_brace names bare t)
  · rw [takeWhile_append_of_head? names ends]
    cases name with
    | nil => exact iff_of_true rfl fun filled => absurd rfl filled
    | cons c name => cases known : vars.value? (c :: name) <;> simp [known]

/-! ## References that are left over -/

/-- No value begins like a default. -/
def StartsNoDefault (vars : Variables) : Prop := ∀ v ∈ vars, v.2.head? ≠ some '-'

theorem StartsNoDefault.value (h : StartsNoDefault vars) {t value : Text} {n : Nat}
    (found : reference? vars t = some (value, n)) : value.head? ≠ some '-' := by
  obtain ⟨name, known⟩ := exists_value?_of_reference? found
  obtain ⟨v, inside, rfl⟩ := Option.map_eq_some_iff.1 known
  exact h v (List.mem_of_find?_eq_some inside)

theorem head?_substituteFrom_afterReference (vars : Variables) (t : Text) :
    (substituteFrom vars 0 .afterReference t).head? = t.head? := by
  cases t with
  | nil => rfl
  | cons c r =>
    by_cases dollar : c = '$'
    · subst dollar
      rw [substituteFrom_kept rfl]
      rfl
    · rw [substituteFrom_cons vars _ dollar]
      rfl

/-- Substitution puts no hyphen in front of a text. -/
theorem head?_substituteFrom_eq_hyphen (insertable : vars.AreInsertable)
    (noDefault : StartsNoDefault vars) {g : Guard} {t : Text}
    (h : (substituteFrom vars 0 g t).head? = some '-') : t.head? = some '-' := by
  cases t with
  | nil => exact h
  | cons c r =>
    by_cases dollar : c = '$'
    · subst dollar
      cases found : g.reference? vars r with
      | some v =>
        obtain ⟨-, known⟩ := Guard.reference?_eq_some_iff.1 found
        obtain ⟨value, n⟩ := v
        obtain ⟨d, s, rfl, -⟩ := exists_cons_of_reference? insertable known
        rw [substituteFrom_replace found] at h
        exact absurd (show (d :: s).head? = some '-' from h) (noDefault.value known)
      | none =>
        rw [substituteFrom_kept found] at h
        cases h
    · rw [substituteFrom_cons vars g dollar] at h
      exact h

/-- What follows a reference that stayed closes it only if it did before. -/
theorem ClosesReference.of_substituteFrom (insertable : vars.AreInsertable)
    (noDefault : StartsNoDefault vars) {s : Text}
    (h : ClosesReference (substituteFrom vars 0 .afterReference s)) : ClosesReference s := by
  obtain ⟨closed, begins⟩ := h
  have replaced := replaced_substituteFrom vars .afterReference s
  refine ⟨replaced.mem_of_isActive insertable (by decide) closed, ?_⟩
  rw [head?_substituteFrom_afterReference] at begins
  refine begins.imp_right (Or.imp_right ?_)
  rintro ⟨r, split⟩
  cases s with
  | nil => cases split
  | cons c s =>
    have first := head?_substituteFrom_afterReference vars (c :: s)
    rw [← split] at first
    -- After the colon substitution is free again, but no value begins with the hyphen.
    obtain rfl : ':' = c := Option.some.inj first
    rw [substituteFrom_cons vars _ (by decide)] at split
    have second : (substituteFrom vars 0 (Guard.after .afterReference ':') s).head? = some '-' := by
      rw [← (List.cons.inj split).2]
      rfl
    obtain ⟨q, rfl⟩ :=
      List.head?_eq_some_iff.1 (head?_substituteFrom_eq_hyphen insertable noDefault second)
    exact ⟨q, rfl⟩

/-! ## Substituting twice -/

theorem substituteFrom_append (vars : Variables) {a : Text} (h : '$' ∉ a) (t : Text) :
    substituteFrom vars 0 .free (a ++ t) = a ++ substituteFrom vars 0 .free t := by
  induction a with
  | nil => rfl
  | cons c a ih =>
    rw [List.mem_cons, not_or] at h
    rw [List.cons_append, substituteFrom_cons vars _ (Ne.symm h.1)]
    exact congrArg (c :: ·) (ih h.2)

/-- What stays of a reference, with `s` after it: a name that ends there, perhaps after a brace. -/
inductive IsKept : Text → Text → Prop where
  | brace {name s : Text} (names : name.all isReferenceChar = true)
      (ends : ∀ c, s.head? = some c → isReferenceChar c = false) : IsKept ('{' :: name) s
  | plain {name s : Text} (names : name.all isReferenceChar = true)
      (ends : ∀ c, s.head? = some c → isReferenceChar c = false)
      (bare : s.head? = some '{' → name ≠ []) : IsKept name s

theorem isKept (r : Text) : IsKept (keptReference r) (r.drop (keptReference r).length) := by
  fun_cases keptReference r with
  | case1 t =>
    rw [List.length_cons, List.drop_succ_cons, drop_length_takeWhile]
    exact .brace List.all_takeWhile fun c => head?_dropWhile
  | case2 _ plain =>
    rw [drop_length_takeWhile]
    refine .plain List.all_takeWhile (fun c => head?_dropWhile) fun brace empty => ?_
    obtain ⟨t, brace⟩ := List.head?_eq_some_iff.1 brace
    have split := List.takeWhile_append_dropWhile (p := isReferenceChar) (l := r)
    rw [empty, brace] at split
    exact plain t split.symm

/-- Only the first character after it matters. -/
theorem IsKept.of_head? {k s s' : Text} (h : IsKept k s) (same : s'.head? = s.head?) :
    IsKept k s' := by
  cases h with
  | brace names ends => exact .brace names (same ▸ ends)
  | plain names ends bare => exact .plain names (same ▸ ends) (same ▸ bare)

theorem IsKept.keptReference_append {k s : Text} (h : IsKept k s) :
    keptReference (k ++ s) = k := by
  cases h with
  | brace names ends =>
    rw [List.cons_append, keptReference, takeWhile_append_of_head? names ends]
  | plain names ends bare =>
    rw [keptReference.eq_def]
    split
    · next t brace => exact absurd brace (ne_brace names bare t)
    · exact takeWhile_append_of_head? names ends

/-- A name that is no reference to a known variable is none after substitution either. -/
theorem IsKept.reference?_eq_none (insertable : vars.AreInsertable)
    (noDefault : StartsNoDefault vars) {k s : Text} (kept : IsKept k s)
    (h : reference? vars (k ++ s) = none) :
    reference? vars (k ++ substituteFrom vars 0 .afterReference s) = none := by
  have same := head?_substituteFrom_afterReference vars s
  cases kept with
  | brace names ends =>
    rw [List.cons_append, reference?_brace_eq_none_iff names ends] at h
    rw [List.cons_append, reference?_brace_eq_none_iff names (same ▸ ends)]
    exact fun filled closes => h filled (closes.of_substituteFrom insertable noDefault)
  | plain names ends bare =>
    rw [reference?_plain_eq_none_iff names ends bare] at h
    rwa [reference?_plain_eq_none_iff names (same ▸ ends) (same ▸ bare)]

/-- Substituting twice is substituting once. -/
theorem substituteFrom_substituteFrom (insertable : vars.AreInsertable)
    (noDefault : StartsNoDefault vars) (g : Guard) (t : Text) :
    substituteFrom vars 0 g (substituteFrom vars 0 g t) = substituteFrom vars 0 g t := by
  induction h : t.length using Nat.strong_induction_on generalizing g t with
  | _ n ih =>
    subst h
    cases t with
    | nil => rfl
    | cons c r =>
      by_cases dollar : c = '$'
      · subst dollar
        have shorter (k : Nat) : (r.drop k).length < ('$' :: r).length := by
          rw [List.length_drop, List.length_cons]
          omega
        cases found : g.reference? vars r with
        | some v =>
          obtain ⟨value, k⟩ := v
          obtain ⟨rfl, known⟩ := Guard.reference?_eq_some_iff.1 found
          -- The value is passed over by the second substitution.
          have noDollar : '$' ∉ value := fun inside =>
            absurd (isActive_of_mem (isInsertable_of_reference? insertable known) inside)
              (by decide)
          rw [substituteFrom_replace found, substituteFrom_append vars noDollar,
            ih _ (shorter k) _ _ rfl]
        | none =>
          -- What stayed is kept by the second substitution as well, and the rest is shorter.
          have kept := isKept r
          have again := kept.of_head? (head?_substituteFrom_afterReference vars _)
          have unknown : g.reference? vars (keptReference r ++ substituteFrom vars 0 .afterReference
              (r.drop (keptReference r).length)) = none := by
            rw [Guard.reference?] at found ⊢
            split
            · next free =>
              rw [if_pos free, ← keptReference_append_drop r] at found
              exact kept.reference?_eq_none insertable noDefault found
            · rfl
          rw [substituteFrom_kept found, List.cons_append, substituteFrom_kept unknown,
            again.keptReference_append, List.drop_left, ih _ (shorter _) _ _ rfl]
          rfl
      · rw [substituteFrom_cons vars g dollar, substituteFrom_cons vars _ dollar,
          ih _ (Nat.lt_succ_self _) _ _ rfl]

/-! ## Laying out twice -/

/-- Nothing that is put together while a text is laid out counts when it is laid out again: no stray
carriage return comes to stand before a line break, substitution makes no ENV lines, and no value
makes a default. -/
structure IsSettled (t : Text) : Prop where
  returns : ∀ l ∈ (arrangedLines t).dropLast, l.getLast? ≠ some '\r'
  others : ∀ l ∈ arrangedLines t, isEnvLine (substituteIn (variablesOf (arrange t)) l) = isEnvLine l
  values : StartsNoDefault (variablesOf (arrange t))

namespace IsSettled

variable {t : Text}

theorem getLast?_ne (h : IsSettled t) : ∀ l ∈ (normalLines t).dropLast, l.getLast? ≠ some '\r' := by
  intro m member stray
  rw [normalLines, ← List.map_dropLast] at member
  obtain ⟨l, inside, rfl⟩ := List.mem_map.1 member
  rw [substituteIn] at stray
  split at stray
  · exact h.returns l inside stray
  · have insertable := Variables.areInsertable_variablesOf (arrange t)
    exact h.returns l inside
      ((replaced_substituteLine _ l).getLast?_eq insertable stray (by decide))

/-- Lines that set no variables make no definitions, neither before substitution nor after. -/
theorem flatMap_normalLines (h : IsSettled t) {f : Text → List Pair}
    (other : ∀ {l}, isEnvLine l = false → f l = []) :
    (normalLines t).flatMap f = (arrangedLines t).flatMap f := by
  rw [normalLines, List.flatMap_map]
  refine List.flatMap_congr fun l member => ?_
  have same := h.others l member
  cases env : isEnvLine l with
  | true => rw [substituteIn, if_pos env]
  | false => rw [other env, other (same.trans env)]

theorem variablesOf_normalize (h : IsSettled t) :
    variablesOf (normalize t) = variablesOf (arrange t) := by
  have oneLine : ∀ m ∈ normalLines t, '\n' ∉ m := fun m member =>
    ((isLayout_normalLines t).neat m member).oneLine
  rw [variablesOf_eq, variablesOf_eq, normalize_eq, arrange_eq, gathered_unlines oneLine,
    gathered_unlines fun l => newline_notMem_of_mem_arrangedLines,
    h.flatMap_normalLines olderDefinitions_of_not_env,
    h.flatMap_normalLines newerDefinitions_of_not_env]

theorem substituteIn_substituteIn (h : IsSettled t) {l : Text} (member : l ∈ arrangedLines t) :
    substituteIn (variablesOf (arrange t)) (substituteIn (variablesOf (arrange t)) l) =
      substituteIn (variablesOf (arrange t)) l := by
  have same := h.others l member
  cases env : isEnvLine l with
  | true =>
    have kept : substituteIn (variablesOf (arrange t)) l = l := by rw [substituteIn, if_pos env]
    rw [kept, kept]
  | false =>
    have insertable := Variables.areInsertable_variablesOf (arrange t)
    rw [env] at same
    conv_lhs => rw [substituteIn, same]
    rw [substituteIn, env]
    exact substituteFrom_substituteFrom insertable h.values .lineStart l

end IsSettled

/-- A text is laid out for good at once if no line of it ends in a stray carriage return,
substitution makes no ENV lines and no value begins like a default. -/
theorem normalize_normalize_of_isSettled {t : Text} (h : IsSettled t) :
    normalize (normalize t) = normalize t := by
  by_cases lines : normalLines t = []
  · rw [normalize_eq t, lines]
    rfl
  · have cut := pieces_normalize lines
    rw [normalize_normalize_of_clean (by rw [cut]; exact h.getLast?_ne), h.variablesOf_normalize]
    change unlines ((pieces '\n' (normalize t)).map (substituteIn (variablesOf (arrange t)))) = _
    rw [cut, normalize_eq, map_eq_self_iff.2]
    intro m member
    obtain ⟨l, inside, rfl⟩ := List.mem_map.1 member
    exact h.substituteIn_substituteIn inside

theorem substituteIn_nil (l : Text) : substituteIn [] l = l := by
  have insertable : Variables.AreInsertable [] := fun v member => absurd member List.not_mem_nil
  rw [substituteIn]
  split
  · rfl
  · rw [substituteLine_eq_self_iff insertable]
    intro s _
    cases found : reference? [] s with
    | none => rfl
    | some v =>
      obtain ⟨name, known⟩ := exists_value?_of_reference? found
      cases known

theorem variablesOf_arrange_eq_nil {t : Text}
    (noEnv : ∀ l ∈ arrangedLines t, isEnvLine l = false) : variablesOf (arrange t) = [] := by
  have older : (arrangedLines t).flatMap olderDefinitions = [] :=
    List.flatMap_eq_nil_iff.2 fun l member => olderDefinitions_of_not_env (noEnv l member)
  have newer : (arrangedLines t).flatMap newerDefinitions = [] :=
    List.flatMap_eq_nil_iff.2 fun l member => newerDefinitions_of_not_env (noEnv l member)
  rw [variablesOf_eq, arrange_eq, gathered_unlines fun l => newline_notMem_of_mem_arrangedLines,
    older, newer]
  rfl

/-- In a text without ENV lines there is nothing to substitute. -/
theorem isSettled_of_no_env {t : Text} (noEnv : ∀ l ∈ arrangedLines t, isEnvLine l = false)
    (returns : ∀ l ∈ (arrangedLines t).dropLast, l.getLast? ≠ some '\r') : IsSettled t := by
  have none := variablesOf_arrange_eq_nil noEnv
  refine ⟨returns, fun l _ => ?_, fun v member => ?_⟩
  · rw [none, substituteIn_nil]
  · rw [none] at member
    cases member

end ImageAudit.Layout
