import ImageAudit.Proofs.Layout.Stability

/-!
# Whole references

Substitution replaces whole references to variables of the text and nothing else, and only where
something stands before them on their line.

* `exists_of_reference?`: what is taken for a reference is written in one of four forms.
* `resolved_substituteLine`: all other characters of a line are kept in their order.
* `substituteLine_of_unknown`: a line without names of variables is left alone.
* `normalize_resolves`: what becomes of the lines of a text when it is laid out.
* `mem_of_mem_normalLines`: laying out makes no characters but spaces.
-/

namespace ImageAudit

open Text

/-! ## Variables -/

namespace Variables

variable {vars : Variables}

theorem mem_of_value? {key value : Text} (known : vars.value? key = some value) :
    (key, value) ∈ vars := by
  obtain ⟨v, found, rfl⟩ := Option.map_eq_some_iff.1 known
  have same : v.1 = key := by simpa using List.find?_some found
  rw [← same]
  exact List.mem_of_find?_eq_some found

theorem map_fst_put (name value : Text) (vars : Variables) :
    (put name value vars).map Prod.fst =
      if name ∈ vars.map Prod.fst then vars.map Prod.fst else vars.map Prod.fst ++ [name] := by
  induction vars with
  | nil => rfl
  | cons v vars ih =>
    rw [put]
    by_cases same : v.1 = name
    · rw [if_pos (by simpa using same), if_pos (by simp [same])]
      rfl
    · rw [if_neg (by simpa using same), List.map_cons, ih, List.map_cons]
      have other : name ≠ v.1 := Ne.symm same
      split
      · next later => rw [if_pos (List.mem_cons_of_mem _ later)]
      · next new => rw [if_neg (List.not_mem_cons_of_ne_of_not_mem other new), List.cons_append]

theorem nodup_keys_put (name value : Text) (h : (vars.map Prod.fst).Nodup) :
    ((put name value vars).map Prod.fst).Nodup := by
  rw [map_fst_put]
  split
  · exact h
  · next absent => simpa using h.concat absent

end Variables

namespace Layout

theorem nodup_keys_assignPair {vars : Variables} (p : Pair) (h : (vars.map Prod.fst).Nodup) :
    ((assignPair vars p).map Prod.fst).Nodup := by
  rw [assignPair, assign]
  split
  · exact Variables.nodup_keys_put p.1 p.2 h
  · exact h

theorem nodup_keys_variablesOf (t : Text) : ((variablesOf t).map Prod.fst).Nodup := by
  rw [variablesOf_eq]
  exact List.foldlRecOn (b := []) (motive := fun vars => (vars.map Prod.fst).Nodup) (gathered t)
    assignPair List.nodup_nil fun _ h p _ => nodup_keys_assignPair p h

theorem exists_gathered_of_mem {t : Text} {v : Text × Text} (member : v ∈ variablesOf t) :
    ∃ p ∈ gathered t, v.2 = p.2 := by
  rw [variablesOf_eq] at member
  refine List.foldlRecOn (motive := fun vars => ∀ v ∈ vars, ∃ p ∈ gathered t, v.2 = p.2)
    (gathered t) assignPair (by simp) (fun vars ih p inside => ?_) v member
  rw [assignPair, assign]
  split
  · intro w hw
    rcases Variables.exists_of_mem_put hw with earlier | same
    · exact ih w earlier
    · exact ⟨p, inside, same⟩
  · exact ih

/-! ## References as they are written -/

variable {vars : Variables}

/-- `written` is a whole reference to `key` without its dollar sign, and `rest` comes after it. -/
inductive IsReferenceTo (key : Text) : (written rest : Text) → Prop where
  | plain {rest : Text} (maximal : ∀ c, rest.head? = some c → isReferenceChar c = false) :
      IsReferenceTo key key rest
  | braced {rest : Text} : IsReferenceTo key ('{' :: (key ++ ['}'])) rest
  | defaultUnset {d rest : Text} (closes : '}' ∉ d) :
      IsReferenceTo key ('{' :: (key ++ '-' :: (d ++ ['}']))) rest
  | defaultEmpty {d rest : Text} (closes : '}' ∉ d) :
      IsReferenceTo key ('{' :: (key ++ ':' :: '-' :: (d ++ ['}']))) rest

/-- The longest name a reference can have after its dollar sign. -/
def referenceName : Text → Text
  | '{' :: t => t.takeWhile isReferenceChar
  | t => t.takeWhile isReferenceChar

theorem isReferenceName_iff {t : Text} :
    isReferenceName t = true ↔ t ≠ [] ∧ t.all isReferenceChar = true := by
  simp [isReferenceName]

/-- A default as it is written before the closing brace. -/
theorem IsReferenceTo.of_isDefault {d : Text} (h : isDefault d = true) (closes : '}' ∉ d)
    (key rest : Text) : IsReferenceTo key ('{' :: (key ++ (d ++ ['}']))) rest := by
  rcases isDefault_iff.1 h with rfl | first | ⟨e, rfl⟩
  · exact .braced
  · obtain ⟨e, rfl⟩ := List.head?_eq_some_iff.1 first
    exact .defaultUnset fun inside => closes (List.mem_cons_of_mem _ inside)
  · exact .defaultEmpty fun inside => closes (List.mem_append_right _ inside)

theorem referenceName_brace {name d : Text} (names : name.all isReferenceChar = true)
    (default : isDefault d = true) (rest : Text) :
    referenceName ('{' :: (name ++ (d ++ '}' :: rest))) = name := by
  rw [referenceName, takeWhile_append_of_head? names]
  intro c first
  rcases isDefault_iff.1 default with rfl | hyphen | ⟨e, rfl⟩
  · cases first
    decide
  · obtain ⟨e, rfl⟩ := List.head?_eq_some_iff.1 hyphen
    cases first
    decide
  · cases first
    decide

/-- What is taken for a reference to a known variable is one of the four forms, with the longest
name that stands there. -/
theorem exists_of_reference? {r value : Text} {n : Nat} (h : reference? vars r = some (value, n)) :
    ∃ written rest, r = written ++ rest ∧ n = written.length ∧
      isReferenceName (referenceName r) = true ∧ IsReferenceTo (referenceName r) written rest ∧
      (referenceName r, value) ∈ vars := by
  rw [reference?.eq_def] at h
  split at h
  · next t =>
    obtain ⟨⟨body, rest⟩, found, read⟩ := Option.bind_eq_some_iff.1 h
    obtain ⟨rfl, closes⟩ := cut_eq_some_iff.1 found
    dsimp only at read
    split at read
    · next whole =>
      obtain ⟨default, name⟩ := Bool.and_eq_true_iff.1 whole
      obtain ⟨w, known, read⟩ := Option.bind_eq_some_iff.1 read
      cases read
      -- The body is the name and what stands for a default.
      generalize hk : body.takeWhile (fun c => !endsName c) = key at known name
      generalize hd : body.dropWhile (fun c => !endsName c) = d at default
      have split : key ++ d = body := by
        rw [← hk, ← hd]
        exact List.takeWhile_append_dropWhile
      subst split
      have longest : referenceName ('{' :: (key ++ d ++ '}' :: rest)) = key := by
        rw [List.append_assoc]
        exact referenceName_brace (isReferenceName_iff.1 name).2 default rest
      rw [longest]
      refine ⟨'{' :: (key ++ (d ++ ['}'])), rest, by simp, by simp; omega, name, ?_,
        Variables.mem_of_value? known⟩
      exact .of_isDefault default (fun inside => closes (List.mem_append_right _ inside)) key rest
    · cases read
  · next plain =>
    dsimp only at h
    split at h
    · cases h
    next filled =>
    obtain ⟨w, known, h⟩ := Option.bind_eq_some_iff.1 h
    cases h
    have longest : referenceName r = r.takeWhile isReferenceChar := by
      rw [referenceName.eq_def]
      split
      · next t => exact absurd rfl (plain t)
      · rfl
    rw [longest]
    refine ⟨_, r.dropWhile isReferenceChar, List.takeWhile_append_dropWhile.symm, rfl,
      isReferenceName_iff.2 ⟨by simpa using filled, List.all_takeWhile⟩, ?_,
      Variables.mem_of_value? known⟩
    exact .plain fun c first => head?_dropWhile first

/-! ## Lines -/

/-- The line `m` is `l` with whole references replaced by the values of their variables. As long as
the line has not `started` with something else than white space, nothing is replaced. -/
inductive Resolved (vars : Variables) : (started : Bool) → Text → Text → Prop where
  | nil {started : Bool} : Resolved vars started [] []
  | keep {started : Bool} {c : Char} {r s : Text} :
      Resolved vars (started || !isSpace c) r s → Resolved vars started (c :: r) (c :: s)
  | replace {key value written r s : Text} (name : isReferenceName key = true)
      (reference : IsReferenceTo key written r) (known : (key, value) ∈ vars) :
      Resolved vars true r s → Resolved vars true ('$' :: (written ++ r)) (value ++ s)

theorem Resolved.refl (started : Bool) (l : Text) : Resolved vars started l l := by
  induction l generalizing started with
  | nil => exact .nil
  | cons c l ih => exact .keep (ih _)

theorem Replaced.resolved {started : Bool} {l m : Text} (h : Replaced vars started l m) :
    Resolved vars started l m := by
  induction h with
  | nil => exact .nil
  | keep _ ih => exact .keep ih
  | @replace r s value n found _ ih =>
    obtain ⟨written, rest, rfl, rfl, name, reference, known⟩ := exists_of_reference? found
    rw [List.drop_left] at ih
    exact .replace name reference known ih

theorem resolved_substituteLine (vars : Variables) (l : Text) :
    Resolved vars false l (substituteLine vars l) :=
  (replaced_substituteLine vars l).resolved

theorem substituteLine_of_unknown (insertable : vars.AreInsertable) {l : Text}
    (unknown : ∀ q s, l = q ++ '$' :: s → referenceName s ∉ vars.map Prod.fst) :
    substituteLine vars l = l := by
  refine (substituteLine_eq_self_iff insertable l).2 ?_
  rintro s ⟨q, split, -⟩
  cases found : reference? vars s with
  | none => rfl
  | some v =>
    obtain ⟨-, -, -, -, -, -, known⟩ := exists_of_reference? found
    exact absurd (List.mem_map_of_mem known) (unknown q s split)

/-- What may become of the line `l` when references are replaced. -/
structure LineResolves (vars : Variables) (l m : Text) : Prop where
  /-- Lines that set variables are kept. -/
  env : isEnvLine l = true → m = l
  /-- Nothing but whole references is replaced, and none at the beginning of a line. -/
  resolved : Resolved vars false l m
  /-- Lines without names of variables are kept. -/
  unknown : (∀ q s, l = q ++ '$' :: s → referenceName s ∉ vars.map Prod.fst) → m = l

theorem lineResolves_substituteIn (insertable : vars.AreInsertable) (l : Text) :
    LineResolves vars l (substituteIn vars l) := by
  rw [substituteIn]
  split
  · exact ⟨fun _ => rfl, .refl false l, fun _ => rfl⟩
  · next other =>
    exact ⟨fun env => absurd env other, resolved_substituteLine vars l,
      substituteLine_of_unknown insertable⟩

theorem forall₂_map {α β : Type} {R : α → β → Prop} {f : α → β} (h : ∀ x, R x (f x))
    (xs : List α) : List.Forall₂ R xs (xs.map f) :=
  List.forall₂_map_right_iff.2 (List.forall₂_same.2 fun x _ => h x)

/-- The variables of an arranged text have different names and insertable values, and each line of
the text becomes one line: an ENV line or one without names of variables stays as it is, and any
other has whole references to variables replaced, none of them with only white space before it. -/
theorem normalize_resolves (t : Text) :
    let vars := variablesOf (arrange t)
    (vars.map Prod.fst).Nodup ∧ (∀ v ∈ vars, isInsertable v.2 = true) ∧
      List.Forall₂ (LineResolves vars) (pieces '\n' (arrange t)) (pieces '\n' (normalize t)) := by
  intro vars
  have insertable : vars.AreInsertable := Variables.areInsertable_variablesOf _
  refine ⟨nodup_keys_variablesOf _, insertable, ?_⟩
  rw [normalize, pieces_substitute insertable]
  exact forall₂_map (lineResolves_substituteIn insertable) _

-- The first reference begins its line, the last one comes after a reference that stays.
example : normalize "ENV A=1\n$A $\x7bA:-x\x7d$A $AB$A".toList = "ENV A=1\n$A 11 $AB$A".toList := by
  decide

/-! ## Where characters come from -/

theorem unquoteFrom_sublist (quote : Option Char) (t : Text) :
    (unquoteFrom quote t).Sublist t := by
  fun_induction unquoteFrom quote t with
  | case1 => exact .slnil
  | case2 => exact List.nil_sublist _
  | case3 => exact .refl _
  | case4 quote c d r _ ih => exact (ih.cons_cons d).cons c
  | case5 quote c d r _ _ ih => exact ih.cons c
  | case6 quote c d r _ _ ih => exact ih.cons_cons c

theorem flatten_assignmentsFrom_sublist (quote : Option Char) (t : Text) :
    ((assignmentsFrom quote t).1 ++ (assignmentsFrom quote t).2.flatten).Sublist t := by
  fun_induction assignmentsFrom quote t with
  | case1 => exact .slnil
  | case2 => exact .refl _
  | case3 quote c r a rest found ih =>
    rw [found] at ih
    exact (ih.cons_cons c).cons_cons '\\'
  | case4 quote c r _ _ a rest found blank ih =>
    rw [found] at ih
    refine List.Sublist.cons c ?_
    split
    · next empty =>
      rw [List.isEmpty_iff.1 empty] at ih
      exact ih
    · exact ih
  | case5 quote c r _ _ a rest found _ ih =>
    rw [found] at ih
    exact ih.cons_cons c

theorem flatten_assignments_sublist (t : Text) : (assignments t).flatten.Sublist t := by
  have parts := flatten_assignmentsFrom_sublist none t
  rw [assignments]
  split
  next a rest found =>
  rw [found] at parts
  split
  · exact (List.sublist_append_right a _).trans parts
  · exact parts

theorem envBody?_suffix {line body : Text} (h : envBody? line = some body) : body <:+ line := by
  obtain ⟨w, rfl, -⟩ := exists_of_dropWord? h
  exact List.suffix_append w body

theorem olderAssignment?_suffix {line name value : Text}
    (h : olderAssignment? line = some (name, value)) : value <:+ line := by
  obtain ⟨body, env, read⟩ := Option.bind_eq_some_iff.1 h
  refine List.IsSuffix.trans ?_ (envBody?_suffix env)
  dsimp only at read
  split at read
  · next c v rest =>
    split at read
    · cases read
    · cases read
      have suffix := List.dropWhile_suffix (l := body) isNameChar
      rw [rest] at suffix
      exact (List.suffix_cons ' ' _).trans suffix
  · cases read

theorem newerAssignments?_suffix {line body : Text} (h : newerAssignments? line = some body) :
    body <:+ line := by
  obtain ⟨b, env, read⟩ := Option.bind_eq_some_iff.1 h
  split at read
  · cases read
  · split at read
    · cases read
      exact envBody?_suffix env
    · cases read

theorem mem_of_definition? {assignment : Text} {p : Pair} (h : definition? assignment = some p)
    {c : Char} (inside : c ∈ p.2) : c ∈ assignment := by
  rw [definition?] at h
  split at h
  · next name value found =>
    split at h
    · cases h
    · cases h
      rw [(cut_eq_some_iff.1 found).1]
      have inside := (unquoteFrom_sublist none value).subset inside
      exact List.mem_append_right _ (List.mem_cons_of_mem _ inside)
  · cases h

theorem mem_of_mem_lineDefinitions {line : Text} {p : Pair} (defined : p ∈ lineDefinitions line)
    {c : Char} (inside : c ∈ p.2) : c ∈ line := by
  rcases List.mem_append.1 defined with older | newer
  · rw [olderDefinitions] at older
    split at older
    · next name value found =>
      rw [List.mem_singleton.1 older] at inside
      have inside := (stripWhile_sublist isSpace value).subset
        ((unquoteFrom_sublist none (trim value)).subset inside)
      exact (olderAssignment?_suffix found).subset inside
    · cases older
  · rw [newerDefinitions] at newer
    split at newer
    · next body found =>
      obtain ⟨a, member, definition⟩ := List.mem_filterMap.1 newer
      have inside := (flatten_assignments_sublist body).subset
        (List.mem_flatten_of_mem member (mem_of_definition? definition inside))
      exact (newerAssignments?_suffix found).subset inside
    · cases newer

theorem mem_of_mem_variablesOf {t : Text} {v : Text × Text} (member : v ∈ variablesOf t)
    {c : Char} (inside : c ∈ v.2) : c ∈ t := by
  obtain ⟨p, defined, same⟩ := exists_gathered_of_mem member
  obtain ⟨l, piece, defined⟩ := List.mem_flatMap.1 (mem_definitions_of_mem_gathered defined)
  rw [same] at inside
  exact mem_of_mem_pieces piece (mem_of_mem_lineDefinitions defined inside)

theorem Resolved.mem_or {started : Bool} {l m : Text} (h : Resolved vars started l m) {c : Char}
    (inside : c ∈ m) : c ∈ l ∨ ∃ v ∈ vars, c ∈ v.2 := by
  induction h with
  | nil => cases inside
  | keep _ ih =>
    rcases List.mem_cons.1 inside with rfl | inside
    · exact .inl List.mem_cons_self
    · exact (ih inside).imp_left (List.mem_cons_of_mem _)
  | replace _ _ known _ ih =>
    rcases List.mem_append.1 inside with inside | inside
    · exact .inr ⟨_, known, inside⟩
    · exact (ih inside).imp_left fun h => List.mem_cons_of_mem _ (List.mem_append_right _ h)

/-- Laying out makes no characters but spaces. -/
theorem mem_of_mem_normalLines {t l : Text} (member : l ∈ normalLines t) {c : Char}
    (inside : c ∈ l) (space : c ≠ ' ') : c ∈ unifyBreaks t := by
  have lineFeed : c ≠ '\n' := by
    rintro rfl
    exact ((isLayout_normalLines t).neat l member).oneLine inside
  obtain ⟨k, arranged, rfl⟩ := List.mem_map.1 member
  have insertable := Variables.areInsertable_variablesOf (arrange t)
  have resolved := (lineResolves_substituteIn insertable k).resolved
  rcases resolved.mem_or inside with kept | ⟨v, known, put⟩
  · exact mem_of_mem_arrangedLines space lineFeed arranged kept
  · have arranged := mem_of_mem_variablesOf known put
    rw [← List.count_pos_iff] at arranged ⊢
    exact arranged.trans_le (count_arrange_le space lineFeed t)

end Layout

end ImageAudit
