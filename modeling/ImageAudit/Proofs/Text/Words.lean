import ImageAudit.Proofs.Text.Ends
import ImageAudit.Proofs.Text.Lines

/-!
# Words

The words of a text do not depend on how much white space stands between them and at the ends.

* `words_append`: white space parts words.
* `collapseBlanks_eq_join`: a text whose white space is blanks within it is its words, up to how
  many blanks part them.
-/

namespace ImageAudit.Text

variable {c : Char} {a b t : Text}

theorem words_eq (t : Text) :
    words t = if (wordsFrom t).1 = [] then (wordsFrom t).2
      else (wordsFrom t).1 :: (wordsFrom t).2 := by
  simp [words]

theorem wordsFrom_of_isSpace (h : isSpace c = true) (r : Text) :
    wordsFrom (c :: r) = ([], words r) := by
  simp [wordsFrom, words_eq, h]

theorem wordsFrom_of_not_isSpace (h : isSpace c = false) (r : Text) :
    wordsFrom (c :: r) = (c :: (wordsFrom r).1, (wordsFrom r).2) := by
  simp [wordsFrom, h]

theorem words_of_isSpace (h : isSpace c = true) (r : Text) : words (c :: r) = words r := by
  simp [words_eq (c :: r), wordsFrom_of_isSpace h]

theorem words_of_not_isSpace (h : isSpace c = false) (r : Text) :
    words (c :: r) = (c :: (wordsFrom r).1) :: (wordsFrom r).2 := by
  simp [words_eq, wordsFrom_of_not_isSpace h]

/-! ## White space between words -/

theorem words_of_wordsFrom {ws : List Text}
    (h : wordsFrom t = ((wordsFrom a).1, (wordsFrom a).2 ++ ws)) : words t = words a ++ ws := by
  rw [words_eq, words_eq, h]
  split <;> rfl

theorem wordsFrom_append (h : isSpace c = true) (a b : Text) :
    wordsFrom (a ++ c :: b) = ((wordsFrom a).1, (wordsFrom a).2 ++ words b) := by
  induction a with
  | nil =>
    rw [List.nil_append, wordsFrom_of_isSpace h]
    rfl
  | cons d a ih =>
    cases hd : isSpace d with
    | true =>
      rw [List.cons_append, wordsFrom_of_isSpace hd, wordsFrom_of_isSpace hd,
        words_of_wordsFrom ih]
    | false => rw [List.cons_append, wordsFrom_of_not_isSpace hd, ih, wordsFrom_of_not_isSpace hd]

/-- White space parts words. -/
theorem words_append (h : isSpace c = true) (a b : Text) :
    words (a ++ c :: b) = words a ++ words b :=
  words_of_wordsFrom (wordsFrom_append h a b)

theorem words_eq_nil_iff : words t = [] ↔ t.all isSpace = true := by
  induction t with
  | nil => simp [words, wordsFrom]
  | cons d t ih =>
    cases hd : isSpace d with
    | true => simp [words_of_isSpace hd, ih, hd]
    | false => simp [words_of_not_isSpace hd, hd]

theorem words_append_eq_nil_iff : words (a ++ b) = [] ↔ words a = [] ∧ words b = [] := by
  simp only [words_eq_nil_iff, List.all_append, Bool.and_eq_true]

theorem words_spaces_append (h : a.all isSpace = true) (b : Text) : words (a ++ b) = words b := by
  induction a with
  | nil => rfl
  | cons d a ih =>
    simp only [List.all_cons, Bool.and_eq_true] at h
    rw [List.cons_append, words_of_isSpace h.1, ih h.2]

theorem words_append_spaces (a : Text) (h : b.all isSpace = true) : words (a ++ b) = words a := by
  cases b with
  | nil => rw [List.append_nil]
  | cons d b =>
    simp only [List.all_cons, Bool.and_eq_true] at h
    rw [words_append h.1, words_eq_nil_iff.2 h.2, List.append_nil]

theorem words_stripWhile {p : Char → Bool} (spaces : ∀ d, p d = true → isSpace d = true)
    (t : Text) : words (stripWhile p t) = words t := by
  have allSpace {x : Text} (h : x.all p = true) : x.all isSpace = true := by
    rw [List.all_eq_true] at h ⊢
    exact fun d member => spaces d (h d member)
  obtain ⟨x, y, hx, hy, split⟩ := exists_append_of_stripWhile p t
  conv_rhs => rw [split]
  rw [words_append_spaces _ (allSpace hy), words_spaces_append (allSpace hx)]

@[simp] theorem words_trim (t : Text) : words (trim t) = words t :=
  words_stripWhile (fun _ h => h) t

@[simp] theorem words_trimBlanks (t : Text) : words (trimBlanks t) = words t :=
  words_stripWhile (fun _ => isSpace_of_isBlank) t

@[simp] theorem words_dropReturn (t : Text) : words (dropReturn t) = words t := by
  rcases eq_dropReturn_or t with h | h
  · rw [← h]
  · conv_rhs => rw [h]
    exact (words_append_spaces _ (by decide)).symm

theorem trim_eq_nil_iff : trim t = [] ↔ words t = [] := by
  constructor
  · intro h
    rw [← words_trim, h]
    rfl
  · intro h
    have := stripWhile_append [] (words_eq_nil_iff.1 h)
    rwa [List.nil_append] at this

theorem trim_eq_of_words_eq (single : words t = [[c]]) : trim t = [c] := by
  rw [← words_trim] at single
  cases whole : trim t with
  | nil =>
    rw [whole] at single
    cases single
  | cons d r =>
    have first : isSpace d = false := head?_stripWhile (by rw [← trim, whole]; rfl)
    rw [whole, words_of_not_isSpace first] at single
    obtain ⟨word, others⟩ := List.cons.inj single
    obtain rfl := (List.cons.inj word).1
    -- White space after the character would end the line, which it does not.
    have spaces : r.all isSpace = true := by
      rw [← words_eq_nil_iff, words_eq, (List.cons.inj word).2, if_pos rfl, others]
    cases last : r.getLast? with
    | none => rw [List.getLast?_eq_none_iff.1 last]
    | some e =>
      have solid : isSpace e = false := getLast?_stripWhile (by
        rw [← trim, whole, List.getLast?_cons, last]
        rfl)
      rw [List.all_eq_true.1 spaces e (List.mem_of_getLast? last)] at solid
      cases solid

/-- The first character that is no white space begins the first word. -/
theorem head?_trimStart (t : Text) : (trimStart t).head? = (words t).head?.bind List.head? := by
  induction t with
  | nil => rfl
  | cons d t ih =>
    cases hd : isSpace d with
    | true => rw [words_of_isSpace hd, ← ih, trimStart, trimStart, List.dropWhile_cons_of_pos hd]
    | false =>
      rw [words_of_not_isSpace hd, trimStart, List.dropWhile_cons_of_neg (by simp [hd])]
      rfl

/-! ## Runs of blanks -/

/-- Writes one space for each run of blanks. -/
def collapseBlanks : Text → Text
  | [] => []
  | c :: r =>
    if isBlank c then
      if r.head?.any isBlank then collapseBlanks r else ' ' :: collapseBlanks r
    else c :: collapseBlanks r

example : collapseBlanks "a \t b\tc ".toList = "a b c ".toList := by decide

theorem exists_collapseBlanks_of_isBlank (h : isBlank c = true) (r : Text) :
    ∃ s, collapseBlanks (c :: r) = ' ' :: s := by
  induction r generalizing c with
  | nil => exact ⟨[], by simp [collapseBlanks, h]⟩
  | cons d r ih =>
    cases hd : isBlank d with
    | true =>
      obtain ⟨s, hs⟩ := ih hd
      exact ⟨s, by simp [collapseBlanks, h, hd] at hs ⊢; exact hs⟩
    | false => exact ⟨collapseBlanks (d :: r), by simp [collapseBlanks, h, hd]⟩

/-- The word at the beginning of a text stays. -/
theorem takeWhile_collapseBlanks (t : Text) :
    (collapseBlanks t).takeWhile (fun d => !isBlank d) = t.takeWhile fun d => !isBlank d := by
  induction t with
  | nil => rfl
  | cons d t ih =>
    cases hd : isBlank d with
    | true =>
      obtain ⟨s, hs⟩ := exists_collapseBlanks_of_isBlank hd t
      rw [hs, List.takeWhile_cons_of_neg (by decide), List.takeWhile_cons_of_neg (by simp [hd])]
    | false => simp [collapseBlanks, hd, ih]

theorem isBlank_eq_false_of_isSpace (h : isSpace c = false) : isBlank c = false := by
  by_contra blank
  rw [isSpace_of_isBlank (by simpa using blank)] at h
  cases h

/-- Of white space that is blanks, only the number between two words is lost, and what stands
before the first one. -/
theorem collapseBlanks_eq_join (spaces : ∀ d ∈ t, isSpace d = true → isBlank d = true)
    (last : ∀ d, t.getLast? = some d → isSpace d = false) :
    collapseBlanks t = join [' '] ((wordsFrom t).1 :: (wordsFrom t).2) := by
  induction t with
  | nil => rfl
  | cons d t ih =>
    have rest := ih (fun e member => spaces e (List.mem_cons_of_mem d member)) fun e he => by
      apply last
      rw [List.getLast?_cons, he]
      rfl
    cases hd : isSpace d with
    | false =>
      have notBlank := isBlank_eq_false_of_isSpace hd
      rw [wordsFrom_of_not_isSpace hd, collapseBlanks, if_neg (by simp [notBlank]), rest]
      cases (wordsFrom t).2 <;> simp [join]
    | true =>
      have blank := spaces d List.mem_cons_self hd
      rw [wordsFrom_of_isSpace hd]
      -- Something follows the blank: either another one, or a word.
      cases t with
      | nil => simp [last d rfl] at hd
      | cons e t =>
        cases he : isSpace e with
        | true =>
          have blank' := spaces e (by simp) he
          rw [wordsFrom_of_isSpace he] at rest
          rw [words_of_isSpace he, ← rest]
          simp [collapseBlanks, blank, blank']
        | false =>
          have notBlank := isBlank_eq_false_of_isSpace he
          rw [wordsFrom_of_not_isSpace he] at rest
          rw [words_of_not_isSpace he, collapseBlanks, if_pos blank, rest]
          simp [notBlank, join]

/-- Of a text without white space at its ends, only the number of blanks between words is lost. -/
theorem collapseBlanks_eq_join_words (spaces : ∀ d ∈ t, isSpace d = true → isBlank d = true)
    (trimmed : trim t = t) : collapseBlanks t = join [' '] (words t) := by
  have last (d : Char) (hd : t.getLast? = some d) : isSpace d = false := by
    rw [← trimmed] at hd
    exact getLast?_stripWhile hd
  rw [collapseBlanks_eq_join spaces last]
  cases t with
  | nil => rfl
  | cons d t =>
    have first : isSpace d = false := by
      rw [trim] at trimmed
      exact head?_stripWhile (t := d :: t) (by rw [trimmed]; rfl)
    rw [words_of_not_isSpace first, wordsFrom_of_not_isSpace first]

end ImageAudit.Text
