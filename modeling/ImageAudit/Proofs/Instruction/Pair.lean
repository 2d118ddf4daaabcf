import ImageAudit.Instruction.Pair
import ImageAudit.Layout.Variables
import Mathlib.Tactic.ByContra

/-!
# Spelled values

ENV is read twice: as an instruction, and when a text is laid out. Either time quotation marks and
backslashes are resolved. `Spelled` says how, and both ways of reading are compared with it.

* `exists_spelled`: what the reader of instructions takes for a value is spelled.
* `Spelled.unquoteFrom_eq`: unquoting gives the value that is spelled.
* `Spelled.assignmentsFrom_eq`: a spelled value is not parted into assignments.
* `filterMap_assignments`: the pairs of an instruction are the assignments of its text.
-/

namespace ImageAudit

open Text Layout

/-! ## Looking up -/

namespace Pair

theorem lookup_append (ps qs : List Pair) (key : Text) :
    lookup (ps ++ qs) key = (lookup qs key).or (lookup ps key) := by
  rw [lookup, List.reverse_append, List.find?_append, Option.map_or]
  rfl

theorem mem_of_lookup {ps : List Pair} {key value : Text} (h : lookup ps key = some value) :
    (key, value) ∈ ps := by
  obtain ⟨p, found, rfl⟩ := Option.map_eq_some_iff.1 h
  have member := List.mem_reverse.1 (List.mem_of_find?_eq_some found)
  have same : p.1 = key := by simpa using List.find?_some found
  rwa [← same]

theorem exists_lookup_of_mem {ps : List Pair} {key value : Text} (h : (key, value) ∈ ps) :
    ∃ last, lookup ps key = some last := by
  rw [← Option.isSome_iff_exists, lookup, Option.isSome_map, List.find?_isSome]
  exact ⟨(key, value), List.mem_reverse.2 h, by simp⟩

theorem lookup_flatMap {α : Type} (f : α → List Pair) (xs : List α) (key : Text) :
    lookup (xs.flatMap f) key = xs.reverse.findSome? fun x => lookup (f x) key := by
  induction xs with
  | nil => rfl
  | cons x xs ih =>
    rw [List.flatMap_cons, lookup_append, ih, List.reverse_cons, List.findSome?_append]
    simp

theorem all?_nil : all? [] = some [] := by
  rw [all?]
  rfl

theorem all?_of_read? {t r : Text} {p : Pair} (filled : t ≠ []) (h : read? t = some (p, r)) :
    all? t = (all? r).map (p :: ·) := by
  rw [all?, if_neg (by simpa using filled)]
  split
  · next none =>
    rw [none] at h
    cases h
  · next some =>
    rw [some] at h
    cases h
    rfl

end Pair

/-! ## Quotation marks -/

namespace Layout

/-- Quotation marks and the backslash, which change how other characters are read. -/
def isMark (c : Char) : Bool := isQuote c || c == '\\'

theorem toggleQuote_of_not_isMark {c : Char} (h : isMark c = false) :
    toggleQuote none c = none := by
  rw [isMark, Bool.or_eq_false_iff] at h
  rw [toggleQuote, h.1]
  rfl

theorem isMark_eq_false_of_isSpace {c : Char} (h : isSpace c = true) : isMark c = false := by
  by_contra mark
  simp only [isMark, isQuote, Bool.not_eq_false, Bool.or_eq_true, beq_iff_eq] at mark
  rcases mark with (rfl | rfl) | rfl <;> exact absurd h (by decide)

/-- An open quotation mark is one. -/
def IsOpen (quote : Option Char) : Prop := ∀ q, quote = some q → isQuote q = true

theorem isOpen_none : IsOpen none := fun _ h => by cases h

theorem IsOpen.toggle {quote : Option Char} (h : IsOpen quote) (c : Char) :
    IsOpen (toggleQuote quote c) := by
  intro q hq
  cases quote with
  | none =>
    rw [toggleQuote] at hq
    split at hq
    · next mark => rwa [← Option.some.inj hq]
    · cases hq
  | some p =>
    rw [toggleQuote] at hq
    split at hq
    · cases hq
    · exact h q hq

theorem IsOpen.isQuote_of_toggle {quote : Option Char} (h : IsOpen quote) {c : Char}
    (changes : toggleQuote quote c ≠ quote) : isQuote c = true := by
  cases quote with
  | none =>
    by_contra notQuote
    exact changes (by rw [toggleQuote, if_neg notQuote])
  | some p =>
    by_contra notQuote
    refine changes ?_
    have : c ≠ p := by
      rintro rfl
      exact notQuote (h c rfl)
    simp [toggleQuote, this]

/-! ## Spelled values -/

/-- How a value is spelled where `quote` is open: a backslash keeps the next character as it is,
except between single quotation marks, and white space is quoted or kept. -/
inductive Spelled : (quote : Option Char) → (spelling value : Text) → Prop where
  | done : Spelled none [] []
  | escape {quote : Option Char} {c : Char} {u w : Text} :
      quote ≠ some singleQuote → Spelled quote u w → Spelled quote ('\\' :: c :: u) (c :: w)
  | mark {quote : Option Char} {c : Char} {u w : Text} :
      isQuote c = true → toggleQuote quote c ≠ quote → Spelled (toggleQuote quote c) u w →
        Spelled quote (c :: u) w
  | plain {quote : Option Char} {c : Char} {u w : Text} :
      toggleQuote quote c = quote → (c = '\\' → quote = some singleQuote) →
        (quote = none → isSpace c = false) → Spelled quote u w → Spelled quote (c :: u) (c :: w)

theorem getLast?_ne_of_cons {c d : Char} {r : Text} (h : (c :: r).getLast? ≠ some d) :
    r.getLast? ≠ some d := by
  rw [List.getLast?_cons] at h
  intro last
  rw [last] at h
  exact h rfl

/-- What is read as a value is spelled, and ends where white space begins. -/
theorem exists_spelled {quote : Option Char} {t w r : Text}
    (h : Pair.tokenFrom? false quote t = some (w, r)) (opened : IsOpen quote)
    (last : t.getLast? ≠ some '\\') :
    ∃ u, t = u ++ r ∧ Spelled quote u w ∧ ∀ c s, r = c :: s → isSpace c = true := by
  generalize key : false = isKey at h
  fun_induction Pair.tokenFrom? isKey quote t generalizing w r with
  | case1 quote closed =>
    cases h
    obtain rfl := Option.isNone_iff_eq_none.1 closed
    exact ⟨[], rfl, .done, fun c s same => by cases same⟩
  | case2 => cases h
  | case3 quote c t inSingle ih =>
    obtain ⟨⟨v, s⟩, rest, same⟩ := Option.map_eq_some_iff.1 h
    cases same
    have inSingle : quote = some singleQuote := by simpa using inSingle
    subst inSingle
    obtain ⟨u, split, spelled, stops⟩ := ih opened (getLast?_ne_of_cons last) rest
    -- Between single quotation marks a backslash is a character like others.
    refine ⟨'\\' :: u, by rw [split]; rfl, ?_, stops⟩
    exact .plain rfl (fun _ => rfl) (fun e => by cases e) spelled
  | case4 quote c t notSingle ih =>
    obtain ⟨⟨v, s⟩, rest, same⟩ := Option.map_eq_some_iff.1 h
    cases same
    have later := getLast?_ne_of_cons (getLast?_ne_of_cons last)
    obtain ⟨u, rfl, spelled, stops⟩ := ih opened later rest
    exact ⟨'\\' :: c :: u, rfl, .escape (by simpa using notSingle) spelled, stops⟩
  | case5 quote c t _ quoting ih =>
    have changes : toggleQuote quote c ≠ quote := by simpa using quoting
    obtain ⟨u, rfl, spelled, stops⟩ := ih (opened.toggle c) (getLast?_ne_of_cons last) h
    exact ⟨c :: u, rfl, .mark (opened.isQuote_of_toggle changes) changes spelled, stops⟩
  | case6 quote c t _ _ ends =>
    cases h
    subst key
    rw [Bool.and_eq_true, Option.isNone_iff_eq_none] at ends
    obtain ⟨rfl, ends⟩ := ends
    refine ⟨[], rfl, .done, fun d s same => ?_⟩
    rw [← (List.cons.inj same).1]
    simpa [Pair.endsToken] using ends
  | case7 quote c t notEscape notQuoting goesOn ih =>
    obtain ⟨⟨v, s⟩, rest, same⟩ := Option.map_eq_some_iff.1 h
    cases same
    obtain ⟨u, rfl, spelled, stops⟩ := ih opened (getLast?_ne_of_cons last) rest
    have same : toggleQuote quote c = quote := by simpa using notQuoting
    refine ⟨c :: u, rfl, .plain same (fun escape => ?_) (fun e => ?_) spelled, stops⟩
    · -- A backslash would be the last character, or would have been read as an escape.
      cases tail : u ++ r with
      | nil =>
        rw [tail, escape] at last
        exact absurd rfl last
      | cons d t => exact (notEscape d t escape tail).elim
    · subst e key
      simpa [Pair.endsToken] using goesOn

/-! ## Unquoting -/

theorem unquoteFrom_escape {quote : Option Char} (h : quote ≠ some singleQuote) (c : Char)
    (r : Text) : unquoteFrom quote ('\\' :: c :: r) = c :: unquoteFrom quote r := by
  rw [unquoteFrom, if_pos (by simp [h])]

theorem unquoteFrom_quote {quote : Option Char} {c : Char} (h : toggleQuote quote c ≠ quote)
    (notEscape : c ≠ '\\') (r : Text) :
    unquoteFrom quote (c :: r) = unquoteFrom (toggleQuote quote c) r := by
  cases r with
  | nil => simp [unquoteFrom, h]
  | cons d r =>
    have : (c == '\\') = false := beq_eq_false_iff_ne.2 notEscape
    rw [unquoteFrom, this, Bool.false_and, if_neg Bool.false_ne_true, if_pos (by simpa using h)]

theorem unquoteFrom_plain {quote : Option Char} {c : Char} (h : toggleQuote quote c = quote)
    (notEscape : c = '\\' → quote = some singleQuote) (r : Text) :
    unquoteFrom quote (c :: r) = c :: unquoteFrom quote r := by
  cases r with
  | nil => simp [unquoteFrom, h]
  | cons d r =>
    have : (c == '\\' && quote != some singleQuote) = false := by
      rw [Bool.and_eq_false_imp, beq_iff_eq]
      intro escape
      simp [notEscape escape]
    rw [unquoteFrom, this, if_neg Bool.false_ne_true, if_neg (by simpa using h)]

/-- Unquoting gives the value that is spelled. -/
theorem Spelled.unquoteFrom_eq {quote : Option Char} {u w : Text} (h : Spelled quote u w) :
    unquoteFrom quote u = w := by
  induction h with
  | done => rw [unquoteFrom]
  | escape notSingle _ ih => rw [unquoteFrom_escape notSingle, ih]
  | @mark quote c u w isQuote changes _ ih =>
    have : c ≠ '\\' := by
      rintro rfl
      exact absurd isQuote (by decide)
    rw [unquoteFrom_quote changes this, ih]
  | plain same notEscape _ _ ih => rw [unquoteFrom_plain same notEscape, ih]

/-- A text without quotation marks and backslashes is left alone. -/
theorem unquote_eq_self {t : Text} (h : ∀ c ∈ t, isMark c = false) : unquote t = t := by
  induction t with
  | nil => rw [unquote, unquoteFrom]
  | cons c r ih =>
    have first := h c List.mem_cons_self
    have notEscape : c ≠ '\\' := by
      rintro rfl
      exact absurd first (by decide)
    rw [unquote, unquoteFrom_plain (toggleQuote_of_not_isMark first) fun e => absurd e notEscape]
    exact congrArg (c :: ·) (ih fun d member => h d (List.mem_cons_of_mem c member))

/-! ## Parting assignments -/

theorem assignmentsFrom_escape (quote : Option Char) (c : Char) (r : Text) :
    assignmentsFrom quote ('\\' :: c :: r) =
      ('\\' :: c :: (assignmentsFrom quote r).1, (assignmentsFrom quote r).2) := by
  rw [assignmentsFrom]

theorem assignmentsFrom_cons {quote : Option Char} {c : Char} (notEscape : c ≠ '\\')
    (inside : quote = none → isBlank c = false) (r : Text) :
    assignmentsFrom quote (c :: r) =
      (c :: (assignmentsFrom (toggleQuote quote c) r).1,
        (assignmentsFrom (toggleQuote quote c) r).2) := by
  have goesOn : (isBlank c && quote.isNone) = false := by
    cases quote with
    | none => rw [inside rfl, Bool.false_and]
    | some q => exact Bool.and_false _
  rw [assignmentsFrom]
  · simp only [goesOn, Bool.false_eq_true, if_false]
  · rintro rfl
    exact absurd rfl notEscape
  · rintro d s rfl
    exact absurd rfl notEscape

theorem assignmentsFrom_blank {c : Char} (h : isBlank c = true) (r : Text) :
    assignmentsFrom none (c :: r) = ([], assignments r) := by
  have notMark := isMark_eq_false_of_isSpace (isSpace_of_isBlank h)
  have notEscape : c ≠ '\\' := by
    rintro rfl
    exact absurd h (by decide)
  rw [assignmentsFrom, toggleQuote_of_not_isMark notMark, h]
  · rfl
  · rintro rfl
    exact absurd rfl notEscape
  · rintro d s rfl
    exact absurd rfl notEscape

theorem assignments_blank {c : Char} (h : isBlank c = true) (r : Text) :
    assignments (c :: r) = assignments r := by
  rw [assignments, assignmentsFrom_blank h]
  rfl

theorem assignments_cons {t a : Text} {as : List Text} (h : assignmentsFrom none t = (a, as))
    (filled : a ≠ []) : assignments t = a :: as := by
  rw [assignments, h]
  exact if_neg (by simpa using filled)

/-- Between single quotation marks a text is taken character by character, if no backslash stands
before the closing mark. -/
theorem assignmentsFrom_inSingle {c : Char} {r : Text} (notQuote : c ≠ singleQuote)
    (noEscape : ¬ ['\\', singleQuote] <:+: c :: r) :
    assignmentsFrom (some singleQuote) (c :: r) =
      (c :: (assignmentsFrom (some singleQuote) r).1,
        (assignmentsFrom (some singleQuote) r).2) := by
  induction r generalizing c with
  | nil =>
    by_cases escape : c = '\\'
    · rw [escape]
      simp [assignmentsFrom]
    · rw [assignmentsFrom_cons escape fun e => by cases e]
      simp [assignmentsFrom]
  | cons d r ih =>
    by_cases escape : c = '\\'
    · -- Both characters are taken at once, and the second does not close the quotation.
      subst escape
      have next : d ≠ singleQuote := by
        rintro rfl
        exact noEscape ⟨[], r, rfl⟩
      rw [assignmentsFrom_escape, ih next fun inside => noEscape (List.infix_cons inside)]
    · have same : toggleQuote (some singleQuote) c = some singleQuote := by
        simp [toggleQuote, notQuote]
      rw [assignmentsFrom_cons escape fun e => by cases e]
      rw [same]

/-- A spelled value is not parted: other assignments begin after the blank that ends it. -/
theorem Spelled.assignmentsFrom_eq {quote : Option Char} {u w r : Text} (h : Spelled quote u w)
    (ends : ∀ c s, r = c :: s → isBlank c = true)
    (noEscape : ¬ ['\\', singleQuote] <:+: u ++ r) :
    assignmentsFrom quote (u ++ r) = (u, assignments r) := by
  induction h with
  | done =>
    cases r with
    | nil => rfl
    | cons c s =>
      have blank := ends c s rfl
      rw [List.nil_append, assignmentsFrom_blank blank, assignments_blank blank]
  | @escape quote c u w _ _ ih =>
    have rest := ih fun inside => noEscape (List.infix_cons (List.infix_cons inside))
    rw [List.cons_append, List.cons_append, assignmentsFrom_escape, rest]
  | @mark quote c u w isQuote _ _ ih =>
    have rest := ih fun inside => noEscape (List.infix_cons inside)
    have notEscape : c ≠ '\\' := by
      rintro rfl
      exact absurd isQuote (by decide)
    have notBlank : isBlank c = false := by
      by_contra blank
      have := isMark_eq_false_of_isSpace (isSpace_of_isBlank (Bool.not_eq_false _ ▸ blank))
      rw [isMark, isQuote] at this
      cases this
    rw [List.cons_append, assignmentsFrom_cons notEscape fun _ => notBlank, rest]
  | @plain quote c u w same notEscape notSpace _ ih =>
    have rest := ih fun inside => noEscape (List.infix_cons inside)
    by_cases escape : c = '\\'
    · -- A backslash is plain between single quotation marks only.
      obtain rfl := notEscape escape
      subst escape
      have whole := assignmentsFrom_inSingle (c := '\\') (r := u ++ r) (by decide) noEscape
      rwa [rest] at whole
    · have inside : quote = none → isBlank c = false := by
        intro e
        by_contra blank
        have := isSpace_of_isBlank (Bool.not_eq_false _ ▸ blank)
        rw [notSpace e] at this
        cases this
      rw [List.cons_append, assignmentsFrom_cons escape inside, same, rest]

/-! ## Names -/

theorem tokenFrom?_cons {isKey : Bool} {c : Char} (notMark : isMark c = false)
    (goesOn : Pair.endsToken isKey c = false) (r : Text) :
    Pair.tokenFrom? isKey none (c :: r) = (Pair.tokenFrom? isKey none r).map (Pair.push c) := by
  rw [Pair.tokenFrom?, toggleQuote_of_not_isMark notMark, goesOn]
  · rfl
  · rintro d s rfl
    exact absurd notMark (by decide)

theorem tokenFrom?_ends {isKey : Bool} {c : Char} (notMark : isMark c = false)
    (ends : Pair.endsToken isKey c = true) (r : Text) :
    Pair.tokenFrom? isKey none (c :: r) = some ([], c :: r) := by
  rw [Pair.tokenFrom?, toggleQuote_of_not_isMark notMark, ends]
  · rfl
  · rintro d s rfl
    exact absurd notMark (by decide)

theorem endsToken_of_isNameChar (c : Char) : Pair.endsToken true c = !isNameChar c := by
  rw [Pair.endsToken, isNameChar, Bool.true_and, Bool.not_and, Bool.not_not, bne, Bool.not_not]

theorem isMark_eq_false_of_not_isNameChar {c : Char} (h : isNameChar c = false) :
    isMark c = false := by
  rw [isNameChar, Bool.and_eq_false_iff, Bool.not_eq_false', bne_eq_false_iff_eq] at h
  rcases h with space | rfl
  · exact isMark_eq_false_of_isSpace space
  · decide

theorem isBlank_eq_false_of_isNameChar {c : Char} (h : isNameChar c = true) :
    isBlank c = false := by
  by_contra blank
  rw [isNameChar, isSpace_of_isBlank (Bool.not_eq_false _ ▸ blank)] at h
  cases h

/-- A name without quotation marks and backslashes is the key an instruction has. -/
theorem key?_eq {t : Text} (bare : ∀ c ∈ t.takeWhile isNameChar, isMark c = false) :
    Pair.key? t =
      if (t.takeWhile isNameChar).isEmpty then none
      else some (t.takeWhile isNameChar, t.dropWhile isNameChar) := by
  have token : Pair.tokenFrom? true none t =
      some (t.takeWhile isNameChar, t.dropWhile isNameChar) := by
    induction t with
    | nil => rfl
    | cons c r ih =>
      cases name : isNameChar c with
      | true =>
        rw [List.takeWhile_cons_of_pos name] at bare ⊢
        have rest := ih fun d member => bare d (List.mem_cons_of_mem c member)
        rw [List.dropWhile_cons_of_pos name, tokenFrom?_cons (bare c List.mem_cons_self), rest]
        · rfl
        · rw [endsToken_of_isNameChar, name]
          rfl
      | false =>
        have ends : ¬ isNameChar c = true := by simp [name]
        rw [List.takeWhile_cons_of_neg ends, List.dropWhile_cons_of_neg ends]
        apply tokenFrom?_ends (isMark_eq_false_of_not_isNameChar name)
        rw [endsToken_of_isNameChar, name]
        rfl
  rw [Pair.key?, token]
  rfl

theorem assignmentsFrom_name {t : Text} (bare : ∀ c ∈ t.takeWhile isNameChar, isMark c = false) :
    assignmentsFrom none t =
      (t.takeWhile isNameChar ++ (assignmentsFrom none (t.dropWhile isNameChar)).1,
        (assignmentsFrom none (t.dropWhile isNameChar)).2) := by
  induction t with
  | nil => rfl
  | cons c r ih =>
    cases name : isNameChar c with
    | true =>
      rw [List.takeWhile_cons_of_pos name] at bare ⊢
      have notMark := bare c List.mem_cons_self
      have rest := ih fun d member => bare d (List.mem_cons_of_mem c member)
      have notEscape : c ≠ '\\' := by
        rintro rfl
        exact absurd notMark (by decide)
      have notBlank := isBlank_eq_false_of_isNameChar name
      rw [List.dropWhile_cons_of_pos name, assignmentsFrom_cons notEscape fun _ => notBlank,
        toggleQuote_of_not_isMark notMark, rest]
      rfl
    | false =>
      have ends : ¬ isNameChar c = true := by simp [name]
      rw [List.takeWhile_cons_of_neg ends, List.dropWhile_cons_of_neg ends, List.nil_append]

/-- An assignment with a bare name and a spelled value is taken as a whole. -/
theorem assignmentsFrom_of_spelled {t u w r : Text}
    (bare : ∀ c ∈ t.takeWhile isNameChar, isMark c = false)
    (tail : t.dropWhile isNameChar = '=' :: (u ++ r)) (spelled : Spelled none u w)
    (ends : ∀ c s, r = c :: s → isBlank c = true)
    (noEscape : ¬ ['\\', singleQuote] <:+: u ++ r) :
    assignmentsFrom none t = (t.takeWhile isNameChar ++ '=' :: u, assignments r) := by
  have equals : toggleQuote none '=' = none := by decide
  rw [assignmentsFrom_name bare, tail, assignmentsFrom_cons (by decide) (by decide), equals,
    spelled.assignmentsFrom_eq ends noEscape]

/-- If the first assignment has no quotation mark or backslash before its equals sign, nor has the
name the text begins with. -/
theorem bare_of_assignmentsFrom {t : Text}
    (h : ∀ c ∈ (assignmentsFrom none t).1.takeWhile (· != '='), isMark c = false) :
    ∀ c ∈ t.takeWhile isNameChar, isMark c = false := by
  induction t with
  | nil => simp
  | cons c r ih =>
    cases name : isNameChar c with
    | false => simp [name]
    | true =>
      have notEquals : (c != '=') = true := by
        rw [isNameChar, Bool.and_eq_true] at name
        exact name.2
      have notBlank := isBlank_eq_false_of_isNameChar name
      by_cases escape : c = '\\'
      · -- An escaping backslash is a part of the assignment, and a mark.
        have member : c ∈ (assignmentsFrom none (c :: r)).1.takeWhile (· != '=') := by
          rw [escape]
          cases r with
          | nil => simp [assignmentsFrom]
          | cons d r => simp [assignmentsFrom_escape]
        have notMark := h c member
        rw [escape] at notMark
        exact absurd notMark (by decide)
      · rw [assignmentsFrom_cons escape fun _ => notBlank] at h
        simp only [List.takeWhile_cons, notEquals, if_true] at h
        have notMark := h c List.mem_cons_self
        rw [toggleQuote_of_not_isMark notMark] at h
        rw [List.takeWhile_cons_of_pos name]
        intro d member
        rcases List.mem_cons.1 member with rfl | member
        · exact notMark
        · exact ih (fun e inside => h e (List.mem_cons_of_mem c inside)) d member

end Layout

end ImageAudit
