import ImageAudit.Text.Basic

/-!
# White space

White space is Unicode's White_Space property; blanks are only the space and the tab.

* `trim` and its halves take white space off the ends, `trimBlanks` takes blanks off.
* `words` are the parts between white space.
* `word?` reads one such part, `blanks?` reads at least one blank.
-/

namespace ImageAudit.Text

/-- The characters with the White_Space property. -/
def isSpace (c : Char) : Bool :=
  (9 ≤ c.toNat && c.toNat ≤ 13) || c.toNat == 0x20 || c.toNat == 0x85 || c.toNat == 0xA0 ||
    c.toNat == 0x1680 || (0x2000 ≤ c.toNat && c.toNat ≤ 0x200A) || c.toNat == 0x2028 ||
    c.toNat == 0x2029 || c.toNat == 0x202F || c.toNat == 0x205F || c.toNat == 0x3000

/-- The space and the tab. -/
def isBlank (c : Char) : Bool := c == ' ' || c == '\t'

/-- The control characters: the general category Cc. -/
def isControl (c : Char) : Bool := c.toNat < 0x20 || (0x7F ≤ c.toNat && c.toNat ≤ 0x9F)

theorem isSpace_of_isBlank {c : Char} (h : isBlank c = true) : isSpace c = true := by
  simp only [isBlank, Bool.or_eq_true, beq_iff_eq] at h
  rcases h with h | h <;> subst h <;> decide

/-! ## Taking characters off the ends -/

/-- Takes the longest ending of characters with property `p` off. -/
def dropEndWhile (p : Char → Bool) : Text → Text
  | [] => []
  | c :: r =>
    match dropEndWhile p r with
    | [] => if p c then [] else [c]
    | d :: s => c :: d :: s

/-- Takes characters with property `p` off both ends. -/
def stripWhile (p : Char → Bool) (t : Text) : Text := dropEndWhile p (t.dropWhile p)

/-- Takes white space off the beginning. -/
def trimStart (t : Text) : Text := t.dropWhile isSpace

/-- Takes white space off the end. -/
def trimEnd (t : Text) : Text := dropEndWhile isSpace t

/-- Takes white space off both ends. -/
def trim (t : Text) : Text := stripWhile isSpace t

/-- Takes blanks off both ends. -/
def trimBlanks (t : Text) : Text := stripWhile isBlank t

/-! ## Words -/

/-- The word in progress at the front of a text, and the words after it. -/
def wordsFrom : Text → Text × List Text
  | [] => ([], [])
  | c :: r =>
    let (w, ws) := wordsFrom r
    if isSpace c then ([], if w.isEmpty then ws else w :: ws) else (c :: w, ws)

/-- The non-empty parts between white space. -/
def words (t : Text) : List Text :=
  let (w, ws) := wordsFrom t
  if w.isEmpty then ws else w :: ws

/-- The first word; empty if there is none. -/
def firstWord (t : Text) : Text := (trimStart t).takeWhile fun c => !isSpace c

/-- Reads a non-empty run of characters that are no white space. -/
def word? (t : Text) : Option (Text × Text) :=
  let w := t.takeWhile fun c => !isSpace c
  if w.isEmpty then none else some (w, t.dropWhile fun c => !isSpace c)

/-- Passes over blanks. -/
def skipBlanks (t : Text) : Text := t.dropWhile isBlank

/-- Passes over at least one blank. -/
def blanks? : Text → Option Text
  | [] => none
  | c :: r => if isBlank c then some (skipBlanks r) else none

/-! ## Lengths

Every reader of at least one character leaves a shorter text; this is what the loops over flags,
items and pairs rest on. -/

theorem length_dropWhile_le (p : Char → Bool) (t : Text) : (t.dropWhile p).length ≤ t.length :=
  List.Sublist.length_le (List.dropWhile_sublist p)

theorem length_lt_of_word? {t w r : Text} (h : word? t = some (w, r)) : r.length < t.length := by
  cases t with
  | nil => simp [word?] at h
  | cons c s =>
    simp only [word?] at h
    split at h
    · cases h
    · next hw =>
      simp only [Option.some.injEq, Prod.mk.injEq] at h
      obtain ⟨-, rfl⟩ := h
      cases hc : isSpace c with
      | true => simp [hc] at hw
      | false =>
        simp only [List.dropWhile_cons, hc, Bool.not_false, if_true, List.length_cons]
        exact Nat.lt_succ_of_le (length_dropWhile_le _ s)

theorem length_lt_of_blanks? {t r : Text} (h : blanks? t = some r) : r.length < t.length := by
  cases t with
  | nil => simp [blanks?] at h
  | cons c s =>
    simp only [blanks?] at h
    split at h
    · simp only [Option.some.injEq] at h
      subst h
      exact Nat.lt_succ_of_le (length_dropWhile_le _ s)
    · cases h

end ImageAudit.Text
