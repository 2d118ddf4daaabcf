import ImageAudit.Pattern.Reader

/-!
# Escaped texts as patterns

An escaped text is read as the pattern of the text as it stands. So the written form of a whole word
is read as a pattern that occurs wherever `Pattern.wholeWord` does, unless it is too large.

* `Pattern.readFrom?_escape`: one unit comes of each character.
* `SourcePattern.exists_of_wholeWordText`: names of packages are patterns once they are escaped.
-/

namespace ImageAudit

namespace Pattern

/-! ## Units one after another -/

namespace Progress

variable (p : Progress)

theorem advance_branch_push (unit : Pattern) :
    (p.push unit).branch.advance = unit.advance ∘ p.branch.advance := by
  funext cs
  obtain ⟨settings, names, earlier, row, last⟩ := p
  cases row <;> cases last <;> simp [push, branch, joined, advance]

theorem weight_branch_push_le (unit : Pattern) :
    (p.push unit).branch.weight ≤ p.branch.weight + unit.weight := by
  obtain ⟨settings, names, earlier, row, last⟩ := p
  cases row <;> cases last <;> simp [push, branch, joined, weight]

/-- Adds the characters of a text as they stand. -/
def pushAll (t : Text) : Progress := t.foldl (fun p c => p.push (.oneOf (.single c))) p

theorem pushAll_eq (t : Text) :
    p.pushAll t = { p with row := (p.pushAll t).row, last := (p.pushAll t).last } := by
  induction t generalizing p with
  | nil => rfl
  | cons c t ih => exact ih (p.push (.oneOf (.single c)))

theorem advance_branch_pushAll (t : Text) :
    (p.pushAll t).branch.advance = (literal t).advance ∘ p.branch.advance := by
  induction t generalizing p with
  | nil => rfl
  | cons c t ih =>
    have step := ih (p.push (.oneOf (.single c)))
    rw [advance_branch_push] at step
    exact step

theorem weight_branch_pushAll_le (t : Text) :
    (p.pushAll t).branch.weight ≤ p.branch.weight + t.length * (3 * stateBytes) := by
  induction t generalizing p with
  | nil => simp [pushAll]
  | cons c t ih =>
    have unit : (oneOf (.single c)).weight ≤ 3 * stateBytes := by
      simp only [weight, CharSet.single, CharSet.weight]
      split <;> simp [stateBytes]
    have step := ih (p.push (.oneOf (.single c)))
    have pushed := p.weight_branch_push_le (.oneOf (.single c))
    have counted : (c :: t).length * (3 * stateBytes) =
        t.length * (3 * stateBytes) + 3 * stateBytes := by
      rw [List.length_cons, Nat.add_mul, Nat.one_mul]
    rw [counted]
    change ((p.push (.oneOf (.single c))).pushAll t).branch.weight ≤ _
    omega

end Progress

/-! ## Reading an escaped text -/

theorem length_le_length_escape (t : Text) : t.length ≤ (escape t).length := by
  induction t with
  | nil => simp
  | cons c t ih =>
    rw [escape, List.flatMap_cons, ← escape]
    split <;> simp <;> omega

theorem escaped?_of_mem {c : Char} (inside : c ∈ metaCharacters) (s : Settings) (r : Text) :
    Atom.escaped? s (c :: r) = some (.char c, r) := by
  have plain : ∀ c ∈ metaCharacters, hexLength? c = none ∧ c ≠ 'b' ∧ isEscapable c := by decide
  obtain ⟨no_code, no_boundary, escapable⟩ := plain c inside
  simp [Atom.escaped?, no_code, no_boundary, escapable]

theorem skip_initial (t : Text) : Settings.initial.skip t = t := rfl

theorem readFrom?_escaped (fuel : Nat) {p : Progress} (initial : p.settings = .initial) (c : Char)
    (r : Text) :
    readFrom? (fuel + 1) p (escape [c] ++ r) = readFrom? fuel (p.push (.oneOf (.single c))) r := by
  by_cases inside : c ∈ metaCharacters
  · have escaped : escape [c] = ['\\', c] := by simp [escape, inside]
    have unit : unit? .initial ('\\' :: c :: r) = some (.oneOf (.single c), r) := by
      rw [unit?, escaped?_of_mem inside]
      rfl
    simp [escaped, readFrom?, initial, skip_initial, unit]
  · have plain : escape [c] = [c] := by simp [escape, inside]
    -- The reader looks for meta characters alone, and `c` is none of them.
    have ordinary := inside
    simp only [metaCharacters, List.mem_cons, not_or] at ordinary
    have unit : unit? .initial (c :: r) = some (.oneOf (.single c), r) := by
      simp [unit?, ordinary, Atom.pattern, Settings.fold, Settings.initial]
    simp [plain, readFrom?, initial, skip_initial, unit, ordinary]

theorem readFrom?_escape (fuel : Nat) {p : Progress} (initial : p.settings = .initial)
    (t r : Text) :
    readFrom? (fuel + t.length) p (escape t ++ r) = readFrom? fuel (p.pushAll t) r := by
  induction t generalizing p with
  | nil => rfl
  | cons c t ih =>
    have parted : escape (c :: t) ++ r = escape [c] ++ (escape t ++ r) := by
      simp [escape]
    rw [parted, List.length_cons, ← Nat.add_assoc, readFrom?_escaped _ initial]
    exact ih initial

/-! ## Whole words -/

/-- The set of what is neither a letter nor a digit, as it is written. -/
def otherSet : CharSet :=
  .complement (.union (.union (.union .empty (.range 'a' 'z')) (.range 'A' 'Z')) (.range '0' '9'))

theorem advance_otherSet :
    (oneOf otherSet).advance = (oneOf (.complement .asciiAlphanumeric)).advance := by
  have same (c : Char) : otherSet.mem c = (CharSet.complement .asciiAlphanumeric).mem c := by
    simp only [otherSet, CharSet.asciiAlphanumeric, CharSet.ofRanges, List.foldr, CharSet.mem]
    grind
  have step : Cursor.step? otherSet = Cursor.step? (.complement .asciiAlphanumeric) := by
    funext c
    simp only [Cursor.step?, same]
  funext cs
  rw [advance, advance, step]

/-- What stands before a whole word. -/
def wordFront : Pattern := .alt (.assertion .textStart) (.oneOf otherSet)

/-- What stands behind a whole word. -/
def wordBack : Pattern := .alt (.oneOf otherSet) (.assertion .textEnd)

/-- What has been read where the text of a whole word begins. -/
def atWord : Progress := (Progress.start .initial []).push wordFront

theorem readFrom?_wordFront (fuel : Nat) (r : Text) :
    readFrom? (fuel + 5) (.start .initial []) (wordFrontText ++ r) =
      readFrom? (fuel + 4) atWord r := rfl

theorem readFrom?_wordBack (fuel : Nat) {p : Progress} (initial : p.settings = .initial) :
    readFrom? (fuel + 5) p wordBackText = some (p.push wordBack, []) := by
  obtain ⟨settings, names, earlier, row, last⟩ := p
  obtain rfl : settings = .initial := initial
  rfl

/-- What has been read at the end of a whole word. -/
def wholeWordProgress (t : Text) : Progress := (atWord.pushAll t).push wordBack

theorem length_wholeWordText (t : Text) : (wholeWordText t).length = (escape t).length + 32 := by
  have front : wordFrontText.length = 16 := rfl
  have back : wordBackText.length = 16 := rfl
  simp [wholeWordText, front, back]
  omega

theorem read?_wholeWordText (t : Text) :
    read? (wholeWordText t) = some (wholeWordProgress t).branch := by
  have settled : (atWord.pushAll t).settings = .initial := by
    rw [Progress.pushAll_eq]
    rfl
  have alone : (wholeWordProgress t).pattern = (wholeWordProgress t).branch := by
    rw [wholeWordProgress, Progress.pushAll_eq]
    rfl
  have result : readFrom? ((wholeWordText t).length + 1) (.start .initial []) (wholeWordText t) =
      some (wholeWordProgress t, []) := by
    -- An escaped character takes one step for two characters, so there is fuel to spare.
    have longer := length_le_length_escape t
    have enough : (wholeWordText t).length + 1 =
        (escape t).length - t.length + 28 + t.length + 5 := by
      rw [length_wholeWordText]
      omega
    have passed (n : Nat) : n + 28 + t.length + 4 = n + 27 + 5 + t.length := by omega
    rw [enough, wholeWordText, List.append_assoc, readFrom?_wordFront, passed,
      readFrom?_escape _ rfl, readFrom?_wordBack _ settled]
    rfl
  rw [read?, result, ← alone]

theorem advance_wholeWordProgress (t : Text) :
    (wholeWordProgress t).branch.advance = (wholeWord t).advance := by
  have front : wordFront.advance =
      (alt (assertion .textStart) (oneOf (.complement .asciiAlphanumeric))).advance := by
    funext cs
    exact congrArg (merge _) (congrFun advance_otherSet cs)
  have back : wordBack.advance =
      (alt (oneOf (.complement .asciiAlphanumeric)) (assertion .textEnd)).advance := by
    funext cs
    exact congrArg (merge · _) (congrFun advance_otherSet cs)
  rw [wholeWordProgress, Progress.advance_branch_push, Progress.advance_branch_pushAll, atWord,
    Progress.advance_branch_push, front, back]
  rfl

theorem weight_wholeWordProgress_le (t : Text) :
    (wholeWordProgress t).branch.weight ≤ 2000 + t.length * (3 * stateBytes) := by
  have middle := atWord.weight_branch_pushAll_le t
  have whole := (atWord.pushAll t).weight_branch_push_le wordBack
  have sides : atWord.branch.weight + wordBack.weight ≤ 2000 := by decide
  rw [wholeWordProgress]
  omega

end Pattern

/-- Names of fewer than a hundred thousand characters are patterns once they are escaped, and these
occur wherever the names do as whole words. -/
theorem SourcePattern.exists_of_wholeWordText {t : Text} (short : t.length < 100000) :
    ∃ p, ofText? (Pattern.wholeWordText t) = some p ∧
      ∀ s, p.pattern.occursIn s = (Pattern.wholeWord t).occursIn s := by
  refine ⟨⟨Pattern.wholeWordText t, (Pattern.wholeWordProgress t).branch⟩, ?_, fun s => ?_⟩
  · have light : (Pattern.wholeWordProgress t).branch.weight ≤ Pattern.weightLimit := by
      have := Pattern.weight_wholeWordProgress_le t
      simp only [Pattern.stateBytes] at this
      simp only [Pattern.weightLimit]
      omega
    simp [ofText?, Pattern.read?_wholeWordText, light]
  · rw [Pattern.occursIn, Pattern.occursIn, Pattern.advance_wholeWordProgress]

end ImageAudit
