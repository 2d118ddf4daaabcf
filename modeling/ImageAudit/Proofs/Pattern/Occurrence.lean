import ImageAudit.Proofs.Pattern.WholeWord

/-!
# Where whole words occur

A match is searched from all places of a text at once: each part of a pattern takes the places at
which it may begin to those at which it may end. A place is known by the text before it and the text
after it, and so is the condition for a place to be reached.

* `ArePlaces`: a list of cursors consists of the places that satisfy a condition.
* `occursIn_wholeWord_iff`: the pattern of a whole word occurs where neither a letter nor a digit is
  next to the word.
-/

namespace ImageAudit

open Text

namespace Pattern

/-! ## Places -/

theorem CharSet.mem_single_iff {x y : Char} : (CharSet.single x).mem y = true ↔ y = x := by
  simp only [CharSet.single, CharSet.mem, Bool.and_eq_true, decide_eq_true_eq]
  exact ⟨fun h => Char.le_antisymm h.2 h.1, fun h => h ▸ ⟨Char.le_refl _, Char.le_refl _⟩⟩

theorem CharSet.mem_asciiAlphanumeric (c : Char) :
    CharSet.asciiAlphanumeric.mem c = c.isAlphanum := by
  rw [Bool.eq_iff_iff]
  delta Char.isAlphanum Char.isAlpha Char.isUpper Char.isLower Char.isDigit
  simp only [CharSet.asciiAlphanumeric, CharSet.ofRanges, List.foldr, CharSet.mem,
    Bool.or_eq_true, Bool.and_eq_true, decide_eq_true_eq, Char.le_def]
  change (48 ≤ c.val ∧ c.val ≤ 57 ∨ 65 ≤ c.val ∧ c.val ≤ 90 ∨ 97 ≤ c.val ∧ c.val ≤ 122 ∨ _) ↔ _
  simp only [Bool.false_eq_true, or_false, ge_iff_le]
  grind

namespace Cursor

/-- The place between two parts of a text. -/
def between (u r : Text) : Cursor := ⟨u.length, u.getLast?, r⟩

theorem between_concat (u : Text) (x : Char) (r : Text) :
    between (u ++ [x]) r = ⟨u.length + 1, some x, r⟩ := by
  simp [between]

theorem step?_between_cons (set : CharSet) (u : Text) (x : Char) (r : Text) :
    step? set (between u (x :: r)) = if set.mem x then some (between (u ++ [x]) r) else none := by
  rw [between_concat]
  rfl

/-- The places of the rest of a text. -/
theorem mem_allFrom {c : Cursor} (before rest : Text) :
    c ∈ allFrom before.length before.getLast? rest ↔
      ∃ u r, u ++ r = rest ∧ c = between (before ++ u) r := by
  induction rest generalizing before with
  | nil =>
    rw [allFrom, List.mem_singleton]
    constructor
    · rintro rfl
      exact ⟨[], [], rfl, by rw [List.append_nil]; rfl⟩
    · rintro ⟨u, r, none, rfl⟩
      obtain ⟨rfl, rfl⟩ := List.append_eq_nil_iff.1 none
      rw [List.append_nil]
      rfl
  | cons x rest ih =>
    have next := ih (before ++ [x])
    rw [List.length_append, List.getLast?_concat] at next
    rw [allFrom, List.mem_cons]
    refine (or_congr_right next).trans ?_
    constructor
    · rintro (rfl | ⟨u, r, rfl, rfl⟩)
      · exact ⟨[], x :: rest, rfl, by rw [List.append_nil]; rfl⟩
      · exact ⟨x :: u, r, rfl, by rw [List.append_assoc]; rfl⟩
    · rintro ⟨_ | ⟨y, u⟩, r, split, rfl⟩
      · exact .inl (by rw [List.append_nil, ← split]; rfl)
      · obtain ⟨rfl, rfl⟩ := List.cons.inj split
        exact .inr ⟨u, r, rfl, by rw [List.append_assoc]; rfl⟩

end Cursor

/-- Whether cursors are the places of a text at which a condition holds on what stands before and
after. -/
def ArePlaces (s : Text) (P : Text → Text → Prop) (cs : List Cursor) : Prop :=
  ∀ c, c ∈ cs ↔ ∃ u r, u ++ r = s ∧ P u r ∧ c = .between u r

theorem arePlaces_all (s : Text) : ArePlaces s (fun _ _ => True) (Cursor.all s) := fun c => by
  have everywhere := Cursor.mem_allFrom (c := c) [] s
  simpa [Cursor.all] using everywhere

namespace ArePlaces

variable {s : Text} {P Q : Text → Text → Prop} {cs ds : List Cursor}

theorem congr (places : ArePlaces s P cs) (same : ∀ u r, P u r ↔ Q u r) : ArePlaces s Q cs := by
  intro c
  simp only [places c, same]

theorem ne_nil_iff (places : ArePlaces s P cs) : cs ≠ [] ↔ ∃ u r, u ++ r = s ∧ P u r := by
  constructor
  · intro filled
    obtain ⟨c, inside⟩ := List.exists_mem_of_ne_nil cs filled
    obtain ⟨u, r, split, here, -⟩ := (places c).1 inside
    exact ⟨u, r, split, here⟩
  · rintro ⟨u, r, split, here⟩
    exact List.ne_nil_of_mem ((places _).2 ⟨u, r, split, here, rfl⟩)

/-- Behind one character of a set. -/
theorem oneOf (places : ArePlaces s P cs) (set : CharSet) :
    ArePlaces s (fun u r => ∃ v x, u = v ++ [x] ∧ set.mem x = true ∧ P v (x :: r))
      ((oneOf set).advance cs) := by
  intro c
  rw [advance, List.mem_filterMap]
  constructor
  · rintro ⟨b, inside, step⟩
    obtain ⟨u, _ | ⟨x, r⟩, split, here, rfl⟩ := (places b).1 inside
    · cases step
    · rw [Cursor.step?_between_cons, Option.ite_none_right_eq_some] at step
      obtain ⟨member, step⟩ := step
      exact ⟨u ++ [x], r, by simp [← split], ⟨u, x, rfl, member, here⟩, (Option.some.inj step).symm⟩
  · rintro ⟨_, r, split, ⟨u, x, rfl, member, here⟩, rfl⟩
    refine ⟨.between u (x :: r), (places _).2 ⟨u, x :: r, by simp [← split], here, rfl⟩, ?_⟩
    rw [Cursor.step?_between_cons, if_pos member]

/-- Where an assertion holds that looks at both sides. -/
theorem assertion (places : ArePlaces s P cs) {a : Assertion}
    (holds : ∀ u r, a.holds (.between u r) = true ↔ Q u r) :
    ArePlaces s (fun u r => Q u r ∧ P u r) ((assertion a).advance cs) := by
  intro c
  rw [advance, List.mem_filter, places c]
  constructor
  · rintro ⟨⟨u, r, split, here, rfl⟩, asserted⟩
    exact ⟨u, r, split, ⟨(holds u r).1 asserted, here⟩, rfl⟩
  · rintro ⟨u, r, split, ⟨asserted, here⟩, rfl⟩
    exact ⟨⟨u, r, split, here, rfl⟩, (holds u r).2 asserted⟩

theorem merge (left : ArePlaces s P cs) (right : ArePlaces s Q ds) :
    ArePlaces s (fun u r => P u r ∨ Q u r) (merge cs ds) := by
  intro c
  have either : c ∈ Pattern.merge cs ds ↔ c ∈ cs ∨ c ∈ ds := by
    by_cases inside : c ∈ cs <;> simp [Pattern.merge, inside]
  rw [either, left c, right c]
  constructor
  · rintro (⟨u, r, split, here, rfl⟩ | ⟨u, r, split, here, rfl⟩)
    · exact ⟨u, r, split, .inl here, rfl⟩
    · exact ⟨u, r, split, .inr here, rfl⟩
  · rintro ⟨u, r, split, here | here, rfl⟩
    · exact .inl ⟨u, r, split, here, rfl⟩
    · exact .inr ⟨u, r, split, here, rfl⟩

/-- Behind a text as it stands. -/
theorem literal (places : ArePlaces s P cs) (t : Text) :
    ArePlaces s (fun u r => ∃ v, u = v ++ t ∧ P v (t ++ r)) ((literal t).advance cs) := by
  induction t generalizing P cs with
  | nil => simpa [Pattern.literal, advance] using places
  | cons x t ih =>
    rw [Pattern.literal, advance]
    refine (ih (places.oneOf (.single x))).congr fun u r => ?_
    simp only [CharSet.mem_single_iff]
    constructor
    · rintro ⟨_, rfl, v, _, rfl, rfl, here⟩
      exact ⟨v, by simp, here⟩
    · rintro ⟨v, rfl, here⟩
      exact ⟨v ++ [x], by simp, v, x, rfl, rfl, here⟩

end ArePlaces

/-! ## Whole words -/

/-- Whether the character next to a word, if there is one, is neither an ASCII letter nor a
digit. -/
def IsApart (c : Option Char) : Prop := ∀ x ∈ c, x.isAlphanum = false

/-- Whether a word is a part of a text with neither an ASCII letter nor a digit next to it. -/
def IsWholeWord (p s : Text) : Prop :=
  ∃ u v, s = u ++ p ++ v ∧ IsApart u.getLast? ∧ IsApart v.head?

theorem mem_other_iff {c : Char} :
    (CharSet.complement .asciiAlphanumeric).mem c = true ↔ c.isAlphanum = false := by
  rw [CharSet.mem, CharSet.mem_asciiAlphanumeric, Bool.not_eq_true']

/-- The places where a whole word may begin. -/
theorem arePlaces_wordFront (s : Text) :
    ArePlaces s (fun u _ => IsApart u.getLast?)
      ((alt (assertion .textStart) (oneOf (.complement .asciiAlphanumeric))).advance
        (Cursor.all s)) := by
  have start := (arePlaces_all s).assertion (a := .textStart) (Q := fun u _ => u = [])
    (by simp [Assertion.holds, Cursor.between])
  have other := (arePlaces_all s).oneOf (.complement .asciiAlphanumeric)
  refine (start.merge other).congr fun u r => ?_
  simp only [mem_other_iff, and_true]
  constructor
  · rintro (rfl | ⟨v, x, rfl, other⟩)
    · rintro x ⟨⟩
    · intro y last
      rw [List.getLast?_concat, Option.mem_some] at last
      exact last ▸ other
  · intro apart
    rcases u.eq_nil_or_concat with rfl | ⟨v, x, rfl⟩
    · exact .inl rfl
    · exact .inr ⟨v, x, by simp, apart x (by simp)⟩

/-- A whole word ends at one of the given places if there is neither a letter nor a digit after
it. -/
theorem ArePlaces.wordBack {s : Text} {P : Text → Text → Prop} {cs : List Cursor}
    (places : ArePlaces s P cs) :
    (alt (.oneOf (.complement .asciiAlphanumeric)) (.assertion .textEnd)).advance cs ≠ [] ↔
      ∃ u v, u ++ v = s ∧ P u v ∧ IsApart v.head? := by
  have stop := places.assertion (a := .textEnd) (Q := fun _ r => r = [])
    (by simp [Assertion.holds, Cursor.between])
  refine ((places.oneOf (.complement .asciiAlphanumeric)).merge stop).ne_nil_iff.trans ?_
  simp only [mem_other_iff]
  constructor
  · rintro ⟨u, r, split, ⟨v, x, rfl, other, here⟩ | ⟨rfl, here⟩⟩
    · exact ⟨v, x :: r, by simp [← split], here, by rintro y ⟨⟩; exact other⟩
    · exact ⟨u, [], split, here, by rintro y ⟨⟩⟩
  · rintro ⟨u, _ | ⟨x, r⟩, split, here, apart⟩
    · exact ⟨u, [], split, .inr ⟨rfl, here⟩⟩
    · exact ⟨u ++ [x], r, by simp [← split], .inl ⟨u, x, rfl, apart x rfl, here⟩⟩

/-- The pattern of a whole word occurs in a text exactly if the text has the word as a whole. -/
theorem occursIn_wholeWord_iff {p s : Text} :
    (wholeWord p).occursIn s = true ↔ IsWholeWord p s := by
  rw [occursIn, Bool.not_eq_true', List.isEmpty_eq_false_iff]
  refine ((arePlaces_wordFront s).literal p).wordBack.trans ?_
  constructor
  · rintro ⟨_, v, rfl, ⟨u, rfl, front⟩, back⟩
    exact ⟨u, v, rfl, front, back⟩
  · rintro ⟨u, v, rfl, front, back⟩
    exact ⟨_, v, rfl, ⟨u, rfl, front⟩, back⟩

instance decidableIsWholeWord (p s : Text) : Decidable (IsWholeWord p s) :=
  decidable_of_iff _ occursIn_wholeWord_iff

/-- However a word is written, its escaped form is read as a pattern of the word as a whole. -/
theorem exists_read?_wholeWordText (p : Text) :
    ∃ pattern, read? (wholeWordText p) = some pattern ∧
      ∀ s, pattern.occursIn s = true ↔ IsWholeWord p s := by
  refine ⟨_, read?_wholeWordText p, fun s => ?_⟩
  rw [occursIn, advance_wholeWordProgress]
  exact occursIn_wholeWord_iff

end Pattern

/-- What a name is matched against with is a pattern of the name as a whole word. -/
theorem SourcePattern.occursIn_iff_of_wholeWordText {p : Text} {q : SourcePattern}
    (compiled : ofText? (Pattern.wholeWordText p) = some q) {s : Text} :
    q.pattern.occursIn s = true ↔ Pattern.IsWholeWord p s := by
  obtain ⟨pattern, read, occurs⟩ := Pattern.exists_read?_wholeWordText p
  simp only [ofText?, read, Option.bind_eq_bind, Option.bind_some] at compiled
  split at compiled
  · obtain rfl := Option.some.inj compiled
    exact occurs s
  · cases compiled

end ImageAudit
