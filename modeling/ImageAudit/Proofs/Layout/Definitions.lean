import ImageAudit.Proofs.Instruction.Keyword
import ImageAudit.Proofs.Instruction.Pair
import ImageAudit.Proofs.Layout.NormalForm
import Mathlib.Data.List.Infix

/-!
# Definitions of variables

The definitions a text makes, in the order they stand in it, and what is kept of them.

* `value?_variablesOf`: of the insertable definitions, those of the older form first, the last one
  is kept.
* `lineDefinitions_eq`: the definitions of a plain line are the pairs of the instruction it is.
-/

namespace ImageAudit

open Text

namespace Layout

/-! ## The definitions of a text -/

/-- The definition an assignment makes. -/
def definition? (assignment : Text) : Option Pair :=
  match cut '=' assignment with
  | some (name, value) => if name.isEmpty then none else some (name, unquote value)
  | none => none

/-- The definition of a line in the older form. -/
def olderDefinitions (line : Text) : List Pair :=
  match olderAssignment? line with
  | some (name, value) => [(name, unquote (trim value))]
  | none => []

/-- The definitions of a line in the newer form. -/
def newerDefinitions (line : Text) : List Pair :=
  match newerAssignments? line with
  | some body => (assignments body).filterMap definition?
  | none => []

/-- The definitions of a line. -/
def lineDefinitions (line : Text) : List Pair := olderDefinitions line ++ newerDefinitions line

/-- The definitions of a text in the order they stand in it. -/
def definitions (t : Text) : List Pair := (pieces '\n' t).flatMap lineDefinitions

/-- The definitions of a text in the order they are gathered. -/
def gathered (t : Text) : List Pair :=
  (pieces '\n' t).flatMap olderDefinitions ++ (pieces '\n' t).flatMap newerDefinitions

theorem mem_definitions_of_mem_gathered {t : Text} {p : Pair} (h : p ∈ gathered t) :
    p ∈ definitions t := by
  rcases List.mem_append.1 h with h | h
  · obtain ⟨l, member, hp⟩ := List.mem_flatMap.1 h
    exact List.mem_flatMap.2 ⟨l, member, List.mem_append_left _ hp⟩
  · obtain ⟨l, member, hp⟩ := List.mem_flatMap.1 h
    exact List.mem_flatMap.2 ⟨l, member, List.mem_append_right _ hp⟩

end Layout

/-! ## What is kept of them -/

namespace Variables

theorem value?_put (vars : Variables) (name value key : Text) :
    (put name value vars).value? key = if name = key then some value else vars.value? key := by
  induction vars with
  | nil =>
    rw [put, value?]
    by_cases h : name = key <;> simp [h, value?]
  | cons v vars ih =>
    rw [put]
    by_cases same : v.1 = name
    · rw [if_pos (by simpa using same)]
      by_cases h : name = key <;> simp [value?, same, h]
    · rw [if_neg (by simpa using same)]
      by_cases h : v.1 = key
      · have : name ≠ key := fun e => same (h.trans e.symm)
        simp [value?, h, this]
      · have cons (rest : Variables) : value? (v :: rest) key = value? rest key := by
          simp [value?, h]
        rw [cons, cons, ih]

end Variables

namespace Layout

/-- Takes over a definition, unless its value is not insertable. -/
def assignPair (vars : Variables) (p : Pair) : Variables := assign vars p.1 p.2

theorem value?_foldl_assignPair (ps : List Pair) (vars : Variables) (key : Text) :
    (ps.foldl assignPair vars).value? key =
      (Pair.lookup (ps.filter fun p => isInsertable p.2) key).or (vars.value? key) := by
  induction ps generalizing vars with
  | nil => rfl
  | cons p ps ih =>
    rw [List.foldl_cons, ih, assignPair, assign]
    cases insertable : isInsertable p.2 with
    | false =>
      rw [if_neg Bool.false_ne_true, List.filter_cons_of_neg (by simp [insertable])]
    | true =>
      rw [if_pos rfl, List.filter_cons_of_pos (by exact insertable), Variables.value?_put,
        ← List.singleton_append, Pair.lookup_append, Option.or_assoc]
      congr 1
      by_cases same : p.1 = key <;> simp [Pair.lookup, same]

theorem assignOlder_eq (vars : Variables) (line : Text) :
    assignOlder vars line = (olderDefinitions line).foldl assignPair vars := by
  rw [assignOlder, olderDefinitions]
  cases olderAssignment? line <;> rfl

theorem assignOne_eq (vars : Variables) (assignment : Text) :
    assignOne vars assignment = (definition? assignment).toList.foldl assignPair vars := by
  rw [assignOne, definition?]
  cases cut '=' assignment with
  | none => rfl
  | some a => cases empty : a.1.isEmpty <;> simp [empty, assignPair]

theorem foldl_assignOne (vars : Variables) (as : List Text) :
    as.foldl assignOne vars = (as.filterMap definition?).foldl assignPair vars := by
  induction as generalizing vars with
  | nil => rfl
  | cons a as ih =>
    rw [List.foldl_cons, ih, assignOne_eq, List.filterMap_cons]
    cases definition? a <;> rfl

theorem assignNewer_eq (vars : Variables) (line : Text) :
    assignNewer vars line = (newerDefinitions line).foldl assignPair vars := by
  rw [assignNewer, newerDefinitions]
  cases newerAssignments? line with
  | none => rfl
  | some body => exact foldl_assignOne vars (assignments body)

/-- The variables of a text are its definitions, taken over one after the other. -/
theorem variablesOf_eq (t : Text) : variablesOf t = (gathered t).foldl assignPair [] := by
  have older : assignOlder = fun vars line => (olderDefinitions line).foldl assignPair vars := by
    funext vars line
    exact assignOlder_eq vars line
  have newer : assignNewer = fun vars line => (newerDefinitions line).foldl assignPair vars := by
    funext vars line
    exact assignNewer_eq vars line
  rw [variablesOf, gathered, List.foldl_append, older, newer, List.foldl_flatMap,
    List.foldl_flatMap]

/-- Of the definitions with insertable values, those of the older form first, the last is kept. -/
theorem value?_variablesOf (t key : Text) :
    (variablesOf t).value? key =
      Pair.lookup ((gathered t).filter fun p => isInsertable p.2) key := by
  rw [variablesOf_eq, value?_foldl_assignPair]
  exact Option.or_none

theorem olderDefinitions_of_not_env {line : Text} (h : isEnvLine line = false) :
    olderDefinitions line = [] := by
  rw [isEnvLine, Option.isSome_eq_false_iff, Option.isNone_iff_eq_none] at h
  rw [olderDefinitions, olderAssignment?, h]
  rfl

theorem newerDefinitions_of_not_env {line : Text} (h : isEnvLine line = false) :
    newerDefinitions line = [] := by
  rw [isEnvLine, Option.isSome_eq_false_iff, Option.isNone_iff_eq_none] at h
  rw [newerDefinitions, newerAssignments?, h]
  rfl

theorem gathered_unlines {ls : List Text} (h : ∀ l ∈ ls, '\n' ∉ l) :
    gathered (unlines ls) = ls.flatMap olderDefinitions ++ ls.flatMap newerDefinitions := by
  rw [gathered, flatMap_pieces_unlines h (olderDefinitions_of_not_env rfl),
    flatMap_pieces_unlines h (newerDefinitions_of_not_env rfl)]

/-! ## Plain lines -/

-- Decided by going through the text: the library knows how to go through all characters as well.
instance (t : Text) (p : Char → Prop) [DecidablePred p] : Decidable (∀ c ∈ t, p c) :=
  List.decidableBAll p t

/-- A value of the older form has no quotation marks and backslashes, or it is one word. -/
def IsPlainValue (value : Text) : Prop :=
  (∀ c ∈ value, isMark c = false) ∨ (Pair.value? value).map Prod.snd = some []

instance (value : Text) : Decidable (IsPlainValue value) := inferInstanceAs (Decidable (_ ∨ _))

/-- What follows ENV on a line is plainly written: there is no white space but spaces, and no
backslash at the end, before a single quotation mark or in a name; names are not quoted, and a value
of the older form is plain. -/
structure IsPlainBody (body : Text) : Prop where
  spaces : ∀ c ∈ body, isSpace c = true → c = ' '
  noEscape : ¬ ['\\', singleQuote] <:+: body
  last : body.getLast? ≠ some '\\'
  name : ∀ c ∈ body.takeWhile isNameChar, isMark c = false
  value : (body.dropWhile isNameChar).head? = some ' ' →
    IsPlainValue (body.dropWhile isNameChar).tail
  names : (body.dropWhile isNameChar).head? = some '=' →
    ∀ a ∈ assignments body, ∀ c ∈ a.takeWhile (· != '='), isMark c = false

instance (body : Text) : Decidable (IsPlainBody body) :=
  decidable_of_iff
    ((∀ c ∈ body, isSpace c = true → c = ' ') ∧ ¬ ['\\', singleQuote] <:+: body ∧
      body.getLast? ≠ some '\\' ∧ (∀ c ∈ body.takeWhile isNameChar, isMark c = false) ∧
      ((body.dropWhile isNameChar).head? = some ' ' →
        IsPlainValue (body.dropWhile isNameChar).tail) ∧
      ((body.dropWhile isNameChar).head? = some '=' →
        ∀ a ∈ assignments body, ∀ c ∈ a.takeWhile (· != '='), isMark c = false))
    ⟨fun ⟨spaces, noEscape, last, name, value, names⟩ =>
        ⟨spaces, noEscape, last, name, value, names⟩,
      fun h => ⟨h.spaces, h.noEscape, h.last, h.name, h.value, h.names⟩⟩

theorem getLast?_of_suffix {s t : Text} (h : s <:+ t) {c : Char} (last : s.getLast? = some c) :
    t.getLast? = some c := by
  obtain ⟨p, rfl⟩ := h
  rw [List.getLast?_append, last]
  rfl

theorem assignments_trimStart {t : Text} (spaces : ∀ c ∈ t, isSpace c = true → c = ' ') :
    assignments (trimStart t) = assignments t := by
  induction t with
  | nil => rfl
  | cons c r ih =>
    rw [trimStart, List.dropWhile_cons]
    split
    · next space =>
      obtain rfl := spaces c List.mem_cons_self space
      rw [assignments_blank (by decide)]
      exact ih fun d member => spaces d (List.mem_cons_of_mem _ member)
    · rfl

theorem definition?_append {name : Text} (filled : name ≠ []) (noEquals : '=' ∉ name)
    (value : Text) : definition? (name ++ '=' :: value) = some (name, unquote value) := by
  rw [definition?, cut_eq_some_iff.2 ⟨rfl, noEquals⟩]
  exact if_neg (by simpa using filled)

/-- The first pair of an instruction is the first assignment of its text. -/
theorem assignments_of_read? {t r : Text} {p : Pair} (h : Pair.read? t = some (p, r))
    (spaces : ∀ c ∈ t, isSpace c = true → c = ' ') (noEscape : ¬ ['\\', singleQuote] <:+: t)
    (last : t.getLast? ≠ some '\\')
    (names : ∀ a ∈ assignments t, ∀ c ∈ a.takeWhile (· != '='), isMark c = false) :
    r <:+ t ∧ ∃ a, assignments t = a :: assignments r ∧ definition? a = some p := by
  have bare : ∀ c ∈ t.takeWhile isNameChar, isMark c = false := by
    apply bare_of_assignmentsFrom
    by_cases filled : (assignmentsFrom none t).1 = []
    · simp [filled]
    · apply names
      rw [assignments_cons rfl filled]
      exact List.mem_cons_self
  -- The key is the name the text begins with, and an equals sign stands after it.
  obtain ⟨⟨key, rest⟩, hkey, h⟩ := Option.bind_eq_some_iff.1 h
  rw [key?_eq bare] at hkey
  split at hkey
  · cases hkey
  next filled =>
  cases hkey
  dsimp only at h
  split at h
  · next s tail =>
    obtain ⟨⟨w, s'⟩, hvalue, h⟩ := Option.bind_eq_some_iff.1 h
    cases h
    have split : t = t.takeWhile isNameChar ++ '=' :: s := by
      conv_lhs => rw [← List.takeWhile_append_dropWhile (p := isNameChar) (l := t)]
      rw [tail]
    have suffix : s <:+ t := ⟨t.takeWhile isNameChar ++ ['='], by
      rw [List.append_assoc]
      exact split.symm⟩
    -- The value is spelled by what stands before the next blank.
    obtain ⟨u, rfl, spelled, stops⟩ :=
      exists_spelled hvalue isOpen_none fun h => last (getLast?_of_suffix suffix h)
    have suffix' : s' <:+ t := (List.suffix_append u s').trans suffix
    have ends (c : Char) (m : Text) (hc : s' = c :: m) : isBlank c = true := by
      have member : c ∈ t := suffix'.subset (by rw [hc]; exact List.mem_cons_self)
      rw [spaces c member (stops c m hc)]
      rfl
    have first := assignmentsFrom_of_spelled bare tail spelled ends fun inside =>
      noEscape (inside.trans suffix.isInfix)
    have noEquals : '=' ∉ t.takeWhile isNameChar := fun member =>
      absurd (List.mem_takeWhile_imp member) (by decide)
    refine ⟨(List.dropWhile_suffix _).trans suffix', t.takeWhile isNameChar ++ '=' :: u, ?_, ?_⟩
    · rw [assignments_trimStart fun c member => spaces c (suffix'.subset member)]
      exact assignments_cons first (by simp)
    · rw [definition?_append (by simpa using filled) noEquals, unquote, spelled.unquoteFrom_eq]
  · cases h

/-- The pairs of an instruction are the assignments of its text. -/
theorem filterMap_assignments {t : Text} {ps : List Pair} (h : Pair.all? t = some ps)
    (spaces : ∀ c ∈ t, isSpace c = true → c = ' ') (noEscape : ¬ ['\\', singleQuote] <:+: t)
    (last : t.getLast? ≠ some '\\')
    (names : ∀ a ∈ assignments t, ∀ c ∈ a.takeWhile (· != '='), isMark c = false) :
    (assignments t).filterMap definition? = ps := by
  fun_induction Pair.all? t generalizing ps with
  | case1 t empty =>
    cases h
    obtain rfl := List.isEmpty_iff.1 empty
    rfl
  | case2 => cases h
  | case3 t _ p r read ih =>
    obtain ⟨qs, later, rfl⟩ := Option.map_eq_some_iff.1 h
    obtain ⟨suffix, a, split, first⟩ := assignments_of_read? read spaces noEscape last names
    have rest := ih later (fun c member => spaces c (suffix.subset member))
      (fun inside => noEscape (inside.trans suffix.isInfix))
      (fun h => last (getLast?_of_suffix suffix h))
      fun b member => names b (by rw [split]; exact List.mem_cons_of_mem a member)
    rw [split, List.filterMap_cons, first, rest]

/-! ## Lines that set variables -/

theorem dropWord?_of_envBody? {line body : Text} (h : envBody? line = some body) :
    dropWord? "ENV".toList line = some (' ' :: body) := by
  rw [envBody?, show "ENV ".toList = "ENV".toList ++ " ".toList from by decide, dropWord?_append]
    at h
  obtain ⟨r, keyword, h⟩ := Option.bind_eq_some_iff.1 h
  obtain ⟨w, rfl, hw⟩ := exists_of_dropWord? h
  obtain ⟨c, rfl, hc⟩ := List.map_eq_singleton_iff.1 hw
  have space : c.toLower = ' ' := hc
  have same : c.toLower = c := toLower_of_isSpace_toLower (by rw [space]; rfl)
  rwa [← same, space] at keyword

/-- What follows ENV on a laid out line neither begins nor ends with a space. -/
theorem IsNeat.envBody {line body : Text} (neat : IsNeat line) (h : envBody? line = some body) :
    body.head? ≠ some ' ' ∧ body ≠ [] ∧ body.getLast? ≠ some ' ' ∧ hasDoubleSpace body = false := by
  obtain ⟨w, rfl, -⟩ := exists_of_dropWord? (dropWord?_of_envBody? h)
  have single := neat.single
  rw [hasDoubleSpace_append, hasDoubleSpace_cons] at single
  simp only [Bool.or_eq_false_iff, Bool.and_eq_false_imp, beq_iff_eq] at single
  have filled : body ≠ [] := by
    rintro rfl
    have := neat.last ' ' (by simp)
    exact absurd this (by decide)
  have last : body.getLast? ≠ some ' ' := by
    intro last
    have := neat.last ' ' (by rw [List.getLast?_append, List.getLast?_cons, last]; rfl)
    exact absurd this (by decide)
  exact ⟨by simpa using single.1.2.1, filled, last, single.1.2.2⟩

theorem trim_eq_self {t : Text} (spaces : ∀ c ∈ t, isSpace c = true → c = ' ')
    (first : t.head? ≠ some ' ') (last : t.getLast? ≠ some ' ') : trim t = t := by
  refine stripWhile_eq_self (fun c hc => ?_) fun c hc => ?_
  · by_contra space
    rw [Bool.not_eq_false] at space
    exact first (spaces c (List.mem_of_mem_head? hc) space ▸ hc)
  · by_contra space
    rw [Bool.not_eq_false] at space
    exact last (spaces c (List.mem_of_getLast? hc) space ▸ hc)

/-- The part of a body that the older form takes for a value. -/
theorem exists_value_of_not_assignment {body : Text} (plain : IsPlainBody body)
    (last : body.getLast? ≠ some ' ') (single : hasDoubleSpace body = false)
    (older : (body.dropWhile isNameChar).head? ≠ some '=') :
    body.dropWhile isNameChar = [] ∨
      ∃ value, body.dropWhile isNameChar = ' ' :: value ∧ value ≠ [] ∧ trim value = value := by
  have suffix := List.dropWhile_suffix (l := body) isNameChar
  cases rest : body.dropWhile isNameChar with
  | nil => exact .inl rfl
  | cons c value =>
    rw [rest] at suffix older
    have notName : isNameChar c = false := head?_dropWhile (t := body) (by rw [rest]; rfl)
    have space : isSpace c = true := by
      by_contra notSpace
      rw [Bool.not_eq_true] at notSpace
      rw [isNameChar, notSpace, Bool.not_false, Bool.true_and, bne_eq_false_iff_eq] at notName
      exact older (by rw [notName]; rfl)
    -- Only one space stands there, and the body does not end in it.
    obtain rfl := plain.spaces c (suffix.subset List.mem_cons_self) space
    have filled : value ≠ [] := by
      rintro rfl
      exact last (getLast?_of_suffix suffix rfl)
    have first : value.head? ≠ some ' ' := by
      intro first
      obtain ⟨p, rfl⟩ := suffix
      rw [hasDoubleSpace_append, hasDoubleSpace_cons] at single
      simp [first] at single
    have inside : value <:+ body := (List.suffix_cons ' ' value).trans suffix
    refine .inr ⟨value, rfl, filled, trim_eq_self ?_ first ?_⟩
    · exact fun d member => plain.spaces d (inside.subset member)
    · exact fun h => last (getLast?_of_suffix inside h)

/-- A value of the older form is the same for both readers. -/
theorem restValue?_eq {value : Text} (filled : value ≠ []) (trimmed : trim value = value)
    (last : value.getLast? ≠ some '\\')
    (plain : IsPlainValue value) :
    Pair.restValue? (' ' :: value) = some (unquote value) := by
  have rest : trim (' ' :: value) = value := by
    conv_rhs => rw [← trimmed]
    rfl
  -- A value of one word is read with its marks taken off, any other as it is.
  have word {w : Text} (h : Pair.value? value = some (w, [])) : w = unquote value := by
    obtain ⟨u, split, spelled, -⟩ := exists_spelled h isOpen_none last
    rw [List.append_nil] at split
    rw [split, unquote, spelled.unquoteFrom_eq]
  rw [Pair.restValue?, rest, if_neg (by simpa using filled)]
  rcases plain with bare | single
  · split
    · next w h => rw [word h]
    · rw [unquote_eq_self bare]
  · obtain ⟨⟨w, r⟩, h, rfl⟩ := Option.map_eq_some_iff.1 single
    rw [h, ← word h]

/-- The definitions of a plain line are the pairs of the instruction it is. -/
theorem lineDefinitions_eq {line body : Text} {ps : List Pair} (neat : IsNeat line)
    (env : envBody? line = some body) (plain : IsPlainBody body)
    (read : Pair.settings? body = some ps) : lineDefinitions line = ps := by
  obtain ⟨first, filled, last, single⟩ := neat.envBody env
  have trimmed : trim body = body := trim_eq_self plain.spaces first last
  rw [Pair.settings?, trimmed, key?_eq plain.name] at read
  split at read
  · cases read
  next named =>
  change (if (body.dropWhile isNameChar).head? == some '=' then Pair.all? body else _) = _ at read
  by_cases newer : (body.dropWhile isNameChar).head? = some '='
  · -- The newer form: the line has no definition of the older one.
    rw [if_pos (by simpa using newer)] at read
    obtain ⟨value, tail⟩ := List.head?_eq_some_iff.1 newer
    have older : olderDefinitions line = [] := by
      simp [olderDefinitions, olderAssignment?, env, tail]
    have assignments : newerAssignments? line = some body := by
      rw [newerAssignments?, env]
      exact (if_neg named).trans (if_pos (by simpa using newer))
    rw [lineDefinitions, older, newerDefinitions, assignments]
    exact filterMap_assignments read plain.spaces plain.noEscape plain.last (plain.names newer)
  · -- The older form: the line has one definition, of the rest of the line.
    rw [if_neg (by simpa using newer)] at read
    have assignments : newerDefinitions line = [] := by
      simp [newerDefinitions, newerAssignments?, env, newer]
    rcases exists_value_of_not_assignment plain last single newer with
      tail | ⟨value, tail, filled, trimmed⟩
    · rw [tail] at read
      cases read
    · have suffix : value <:+ body := by
        have := List.dropWhile_suffix (l := body) isNameChar
        rw [tail] at this
        exact (List.suffix_cons ' ' value).trans this
      have rest := restValue?_eq filled trimmed (fun h => plain.last (getLast?_of_suffix suffix h))
        (by simpa [tail] using plain.value)
      rw [tail, rest] at read
      cases read
      have older : olderAssignment? line = some (body.takeWhile isNameChar, value) := by
        obtain ⟨c, v, rfl⟩ := List.exists_cons_of_ne_nil filled
        simp only [olderAssignment?, env, Option.bind_eq_bind, Option.bind_some, tail]
        exact if_neg named
      rw [lineDefinitions, olderDefinitions, older, assignments, List.append_nil]
      dsimp only
      rw [trimmed]

end Layout

end ImageAudit
