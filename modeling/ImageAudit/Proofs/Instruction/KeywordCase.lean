import ImageAudit.Layout.Variables
import ImageAudit.Proofs.Basic
import ImageAudit.Proofs.Instruction.Keyword
import ImageAudit.Proofs.Text.Words
import ImageAudit.Statement

/-!
# The case of keywords

The first word of a line selects how the line is read, and its case does not matter. Neither does it
matter where variables are gathered.

* `Kind.Spells`: a word that is the keyword of a kind.
* `Kind.body?_append`, `Layout.envBody?_congr`: only the first word of a line decides.
* `Instruction.findSome?_readKind?`: the kinds may be tried in any order.
* `Instruction.name_of_readLine?`: the first word of a line that is read names the kind.
-/

namespace ImageAudit

open Text

/-! ## The first word -/

/-- A text that a word may end before: it is empty or begins with white space. -/
def EndsWord (r : Text) : Prop := ∀ c, r.head? = some c → isSpace c = true

instance (r : Text) : Decidable (EndsWord r) :=
  decidable_of_iff (r.head?.all isSpace = true) (Option.all_eq_true isSpace r.head?)

namespace Text

theorem sameWord_cons (x c : Char) (p w : Text) :
    sameWord (x :: p) (c :: w) = (x.toLower == c.toLower && sameWord p w) := rfl

/-- Reading a word, and something after it that begins with white space, is to compare the word with
the first one of the text. -/
theorem dropWord?_bind {β : Type} {f : Text → Option β} {p w r : Text}
    (hp : ∀ c ∈ p, isSpace c = false) (hw : ∀ c ∈ w, isSpace c = false) (ends : EndsWord r)
    (solid : ∀ c t, isSpace c = false → f (c :: t) = none) :
    (dropWord? p (w ++ r)).bind f = if sameWord p w then f r else none := by
  induction p generalizing w with
  | nil =>
    cases w with
    | nil => rw [dropWord?_nil]; rfl
    | cons c w =>
      rw [dropWord?_nil, List.cons_append, Option.bind_some, solid c _ (hw c List.mem_cons_self)]
      rfl
  | cons x p ih =>
    rw [List.forall_mem_cons] at hp
    cases w with
    | nil =>
      cases r with
      | nil => rfl
      | cons c r =>
        -- No character of a word is white space in lower case.
        have other : x.toLower ≠ c.toLower := by
          intro same
          rw [toLower_of_isSpace (ends c rfl)] at same
          have space : isSpace x.toLower = true := by rw [same, ends c rfl]
          rw [← toLower_of_isSpace_toLower space, space] at hp
          cases hp.1
        rw [List.nil_append, dropWord?, if_neg other]
        rfl
    | cons c w =>
      rw [List.forall_mem_cons] at hw
      rw [List.cons_append, dropWord?, sameWord_cons]
      by_cases same : x.toLower = c.toLower
      · rw [if_pos same, ih hp.2 hw.2, same, beq_self_eq_true, Bool.true_and]
      · rw [if_neg same, beq_eq_false_iff_ne.2 same, Bool.false_and]
        rfl

theorem sameWord_congr {w w' : Text} (same : w.map Char.toLower = w'.map Char.toLower)
    (p : Text) : sameWord p w = sameWord p w' := by
  rw [sameWord, sameWord, same]

theorem toUpper_toLower (c : Char) : c.toLower.toUpper = c.toUpper := by
  by_cases changed : c.toLower = c
  · rw [changed]
  · have letters : ∀ n < 91, 65 ≤ n → (Char.ofNat n).toLower.toUpper = (Char.ofNat n).toUpper := by
      decide
    obtain ⟨least, most, -⟩ := toNat_of_toLower_ne changed
    rw [← Char.ofNat_toNat c]
    exact letters c.toNat (Nat.lt_succ_of_le most) least

theorem map_toUpper_eq {w w' : Text} (same : w.map Char.toLower = w'.map Char.toLower) :
    w.map Char.toUpper = w'.map Char.toUpper := by
  have through (t : Text) : t.map Char.toUpper = (t.map Char.toLower).map Char.toUpper := by
    rw [List.map_map]
    exact List.map_congr_left fun c _ => (toUpper_toLower c).symm
  rw [through, same, ← through]

theorem firstWord_append {w r : Text} (filled : w ≠ []) (solid : ∀ c ∈ w, isSpace c = false)
    (ends : EndsWord r) : firstWord (w ++ r) = w := by
  obtain ⟨c, w, rfl⟩ := List.exists_cons_of_ne_nil filled
  have goesOn : ∀ d ∈ c :: w, (!isSpace d) = true := fun d inside => by simp [solid d inside]
  have rest : r.takeWhile (fun d => !isSpace d) = [] := by
    cases r with
    | nil => rfl
    | cons d r => simp [ends d rfl]
  have start : trimStart (c :: w ++ r) = c :: w ++ r :=
    List.dropWhile_cons_of_neg (by simp [solid c List.mem_cons_self])
  rw [firstWord, start, List.takeWhile_append_of_pos goesOn, rest, List.append_nil]

end Text

/-! ## Keywords -/

namespace Kind

/-- A word is the keyword of a kind, in letters of any case. -/
structure Spells (k : Kind) (w : Text) : Prop where
  code : k ≠ .comment
  same : sameWord k.name w = true

instance (k : Kind) (w : Text) : Decidable (k.Spells w) :=
  decidable_of_iff (k ≠ .comment ∧ sameWord k.name w = true)
    ⟨fun h => ⟨h.1, h.2⟩, fun h => ⟨h.code, h.same⟩⟩

variable {k : Kind} {w w' r : Text}

theorem Spells.map_toLower (h : k.Spells w) : w.map Char.toLower = k.name.map Char.toLower :=
  (beq_iff_eq.1 h.same).symm

/-- A property of all lower-case letters is one of all letters, if it does not change with case. -/
theorem Spells.plain (h : k.Spells w) :
    w ≠ [] ∧ ∀ c ∈ w, isSpace c = false ∧ c ≠ '#' ∧ c ≠ '\\' ∧ c ≠ '$' := by
  obtain ⟨filled, letters⟩ : k.name.map Char.toLower ≠ [] ∧
      (k ≠ .comment → ∀ c ∈ k.name.map Char.toLower,
        isSpace c = false ∧ c ≠ '#' ∧ c ≠ '\\' ∧ c ≠ '$') := by
    cases k <;> decide
  rw [← h.map_toLower] at filled
  refine ⟨fun none => filled (by rw [none]; rfl), fun c inside => ?_⟩
  have lower : c.toLower ∈ k.name.map Char.toLower := by
    rw [← h.map_toLower]
    exact List.mem_map_of_mem inside
  have letter := letters h.code _ lower
  refine ⟨?_, ?_, ?_, ?_⟩
  · by_contra space
    rw [toLower_of_isSpace (by simpa using space)] at letter
    exact space letter.1
  all_goals
    rintro rfl
    revert letter
    decide

theorem Spells.congr (h : k.Spells w) (h' : k.Spells w') :
    w.map Char.toLower = w'.map Char.toLower :=
  h.map_toLower.trans h'.map_toLower.symm

/-- What follows the keyword of a kind can be found if the first word is this keyword. -/
theorem body?_append {l : Kind} (code : l ≠ .comment) (solid : ∀ c ∈ w, isSpace c = false)
    (ends : EndsWord r) : l.body? (w ++ r) = if sameWord l.name w then blanks? r else none := by
  have name : ∀ c ∈ l.name, isSpace c = false := by
    have : l.name.all (fun c => !isSpace c) = true := by
      revert code
      cases l <;> decide
    exact fun c inside => by simpa using List.all_eq_true.1 this c inside
  rw [body?_eq code, dropWord?_bind name solid ends]
  intro c t notSpace
  rw [blanks?, isBlank_eq_false_of_isSpace notSpace]
  rfl

/-- The case of the keyword makes no difference to any kind. -/
theorem body?_congr (h : k.Spells w) (h' : k.Spells w') (ends : EndsWord r) (l : Kind) :
    l.body? (w ++ r) = l.body? (w' ++ r) := by
  have uncommented {w : Text} (h : k.Spells w) : comment.body? (w ++ r) = none := by
    obtain ⟨filled, plain⟩ := h.plain
    obtain ⟨c, w, rfl⟩ := List.exists_cons_of_ne_nil filled
    exact if_neg (Ne.symm (plain c List.mem_cons_self).2.1)
  by_cases code : l = .comment
  · rw [code, uncommented h, uncommented h']
  · rw [body?_append code (fun c inside => (h.plain.2 c inside).1) ends,
      body?_append code (fun c inside => (h'.plain.2 c inside).1) ends,
      sameWord_congr (h.congr h')]

end Kind

namespace Instruction

variable {k : Kind} {t w w' r : Text} {i : Instruction}

theorem readLine?_congr (h : k.Spells w) (h' : k.Spells w') (ends : EndsWord r) :
    readLine? (w ++ r) = readLine? (w' ++ r) := by
  simp only [readLine?, read?, readKind?, Kind.body?_congr h h' ends]

/-- At most one kind reads the beginning of a text. -/
theorem eq_of_readKind? {l : Kind} (hk : (readKind? k t).isSome) (hl : (readKind? l t).isSome) :
    k = l := by
  obtain ⟨x, hx⟩ := Option.isSome_iff_exists.1 hk
  obtain ⟨y, hy⟩ := Option.isSome_iff_exists.1 hl
  obtain ⟨a, ha, -⟩ := Option.bind_eq_some_iff.1 hx
  obtain ⟨b, hb, -⟩ := Option.bind_eq_some_iff.1 hy
  exact Kind.eq_of_body? ha hb

/-- The kinds may be tried in any order. -/
theorem findSome?_readKind? {ks : List Kind} (permuted : ks.Perm Kind.all) :
    ks.findSome? (readKind? · t) = read? t := by
  refine findSome?_eq_of_perm permuted fun k _ l _ => eq_of_readKind?

/-- The first word of a line that is read names the kind, unless the line is a comment. -/
theorem name_of_readLine? (h : readLine? t = some i) :
    i.kind = .comment ∧ t.head? = some '#' ∨ (firstWord t).map Char.toUpper = i.kind.name := by
  obtain ⟨r, read⟩ := read?_of_readLine? h
  obtain ⟨k, b, keyword, body⟩ := exists_of_read? read
  rw [kind_of_body? body]
  by_cases code : k = .comment
  · subst code
    have sign : t = '#' :: b := dropPrefix?_eq_some_iff.1 keyword
    exact .inl ⟨rfl, by rw [sign]; rfl⟩
  · rw [Kind.body?_eq code] at keyword
    obtain ⟨s, word, blanks⟩ := Option.bind_eq_some_iff.1 keyword
    obtain ⟨w, rfl, same⟩ := exists_of_dropWord? word
    obtain ⟨c, s, rfl, blank, -⟩ := exists_of_blanks? blanks
    have spells : k.Spells w := ⟨code, beq_iff_eq.2 same.symm⟩
    have ends : EndsWord (c :: s) := by
      rintro d ⟨⟩
      exact isSpace_of_isBlank blank
    have upper : k.name.map Char.toUpper = k.name := by cases k <;> decide
    refine .inr ?_
    rw [firstWord_append spells.plain.1 (fun d inside => (spells.plain.2 d inside).1) ends,
      map_toUpper_eq same, upper]

end Instruction

/-! ## Variables -/

namespace Layout

variable {k : Kind} {w w' r s : Text}

/-- The case of the keyword makes no difference to whether a line sets variables. -/
theorem envBody?_congr (h : k.Spells w) (h' : k.Spells w') (spaces : s.all isSpace = true)
    (ends : EndsWord r) : envBody? (s ++ (w ++ r)) = envBody? (s ++ (w' ++ r)) := by
  cases s with
  | cons c s =>
    -- ENV is at the very beginning of a line that sets variables.
    have other : 'E'.toLower ≠ c.toLower := by
      rw [List.all_cons, Bool.and_eq_true] at spaces
      rw [toLower_of_isSpace spaces.1]
      rintro rfl
      exact absurd spaces.1 (by decide)
    rw [envBody?, envBody?]
    exact (if_neg other).trans (if_neg other).symm
  | nil =>
    have only {w : Text} (h : k.Spells w) :
        envBody? (w ++ r) = if sameWord "ENV".toList w then dropWord? " ".toList r else none := by
      rw [envBody?, show "ENV ".toList = "ENV".toList ++ " ".toList from by decide,
        dropWord?_append, dropWord?_bind (by decide) (fun c inside => (h.plain.2 c inside).1) ends]
      intro c t solid
      refine if_neg fun same => ?_
      have space : isSpace c.toLower = true := by
        rw [← same]
        decide
      rw [← toLower_of_isSpace_toLower space, space] at solid
      cases solid
    rw [List.nil_append, List.nil_append, only h, only h', sameWord_congr (h.congr h')]

end Layout

end ImageAudit
