import ImageAudit.Proofs.Shell.Quoting

/-!
# Places in a line

Between two characters of a line the reader of tokens stands at one of eight places. The place
decides what the rest of the line comes to, so that a line can be cut anywhere.

* `Place.exists_rest_cons` and `Place.exists_rest_append`: what one character and what a text adds.
* `exists_tokenize_append`: the tokens of a text in two parts.
* `tokenize_eq_error_iff`: the place at the end of a line tells what is not closed there.
-/

namespace ImageAudit.Shell

open Text

/-! ## Places -/

/-- Where the reader stands between two characters of a line. -/
inductive Place where
  /-- No word is in progress. -/
  | between
  /-- After an ampersand that another one may follow. -/
  | ampersand
  /-- After a bar that another one may follow. -/
  | bar
  /-- Within a word, outside quotes. -/
  | word
  /-- After a backslash that escapes what follows. -/
  | escape
  /-- Within single quotes. -/
  | single
  /-- Within double quotes. -/
  | double
  /-- Within double quotes, after a backslash that may escape what follows. -/
  | doubleEscape
  deriving DecidableEq

namespace Place

/-- The place after a character that is neither quoted nor escaped, nor the second one of `&&` or
`||`. -/
def ofPlain (c : Char) : Place :=
  if isSpace c then between
  else if c = '\\' then escape
  else if c = singleQuote then single
  else if c = doubleQuote then double
  else if c = '&' then ampersand
  else if c = '|' then bar
  else if c = ';' then between
  else word

/-- The place after one more character. -/
def next : Place → Char → Place
  | between, c | word, c => ofPlain c
  | ampersand, c => if c = '&' then between else ofPlain c
  | bar, c => if c = '|' then between else ofPlain c
  | escape, _ => word
  | single, c => if c = singleQuote then word else single
  | double, c => if c = doubleQuote then word else if c = '\\' then doubleEscape else double
  | doubleEscape, _ => double

/-- Whether a word is in progress. -/
def inWord : Place → Bool
  | between | ampersand | bar => false
  | word | escape | single | double | doubleEscape => true

/-- Whether the place is outside quotes and no escape is unfinished. -/
def isPlain : Place → Bool
  | between | ampersand | bar | word => true
  | escape | single | double | doubleEscape => false

/-- Whether the place is outside single quotes and no escape is unfinished. -/
def isSettled (p : Place) : Bool := p.isPlain || p == double

/-- What is wrong with a text that ends at the place. -/
def fault? : Place → Option Fault
  | single => some (.unterminatedQuote singleQuote)
  | double | doubleEscape => some (.unterminatedQuote doubleQuote)
  | between | ampersand | bar | word | escape => none

/-! ## Reading on from a place -/

/-- What has been read without being taken over yet. -/
def pending : Place → Text
  | ampersand => ['&']
  | bar => ['|']
  | escape | doubleEscape => ['\\']
  | between | word | single | double => []

/-- How the next character is to be read. -/
def mode : Place → Mode
  | between | ampersand | bar | word | escape => .plain
  | single => .single
  | double | doubleEscape => .double

/-- What the tokens that follow are put behind. -/
def front : Place → Piece
  | between => .space
  | ampersand | bar | escape => .nothing
  | word | single | double | doubleEscape => .text []

/-- Reads what follows a place. -/
def rest (p : Place) (r : Text) : Except Fault Scanned :=
  (scan p.mode (p.pending ++ r)).map p.front.add

theorem map_addAll_nil (x : Except Fault Scanned) : x.map (Piece.addAll []) = x := by
  cases x <;> rfl

/-- What a character adds to the tokens that follow, if it is neither quoted nor escaped. -/
theorem exists_scan_cons (c : Char) :
    ∃ ps, ∀ r, scan .plain (c :: r) = ((ofPlain c).rest r).map (Piece.addAll ps) := by
  by_cases space : isSpace c = true
  · refine ⟨[], fun r => ?_⟩
    rw [map_addAll_nil, scan_of_isSpace space, ofPlain, if_pos space]
    rfl
  by_cases special : c = '\\' ∨ c = singleQuote ∨ c = doubleQuote ∨ c = '&' ∨ c = '|'
  · -- Nothing is taken over yet, or a quoted part begins.
    refine ⟨[], fun r => ?_⟩
    rw [map_addAll_nil]
    obtain rfl | rfl | rfl | rfl | rfl := special
    · exact (map_add_nothing _).symm
    · exact scan_singleQuote r
    · cases r <;> rfl
    · exact (map_add_nothing _).symm
    · exact (map_add_nothing _).symm
  · simp only [not_or] at special
    obtain ⟨no_escape, no_single, no_double, no_ampersand, no_bar⟩ := special
    have no_pair (d : Char) : pair? .plain c d = none := by
      simp [pair?, no_escape, doubled?, no_ampersand, no_bar]
    have alone_here (r : Text) := scan_cons_alone (r := r) fun d _ => no_pair d
    by_cases semicolon : c = ';'
    · subst semicolon
      refine ⟨[.operator .sequence], fun r => ?_⟩
      rw [alone_here, rest, map_map]
      rfl
    · refine ⟨[.text [c]], fun r => ?_⟩
      have other : ofPlain c = word := by
        simp [ofPlain, space, no_escape, no_single, no_double, no_ampersand, no_bar, semicolon]
      have adds : alone .plain c = (.plain, .text [c]) := by
        simp [alone, operator?, space, no_single, no_double, no_ampersand, no_bar, semicolon]
      rw [alone_here, adds, other, rest, map_map]
      rfl

/-- A half operator stands alone, unless the same character follows. -/
theorem scan_half {c : Char} {half : Operator}
    (alone_here : alone .plain c = (.plain, .operator half)) (no_escape : c ≠ '\\') {r : Text}
    (apart : r.head? ≠ some c) :
    scan .plain (c :: r) = (scan .plain r).map (Piece.operator half).add := by
  have no_pair : ∀ d, r.head? = some d → pair? .plain c d = none := by
    rintro d first
    have different : c ≠ d := by
      rintro rfl
      exact apart first
    simp [pair?, no_escape, different]
  rw [scan_cons_alone no_pair, alone_here]

theorem exists_rest_half {p : Place} {c : Char} {half whole : Operator}
    (pending : ∀ r, p.rest r = scan .plain (c :: r))
    (next : ∀ d, p.next d = if d = c then between else ofPlain d)
    (alone_here : alone .plain c = (.plain, .operator half)) (no_escape : c ≠ '\\')
    (pair : pair? .plain c c = some (.operator whole)) (d : Char) :
    ∃ ps, ∀ r, p.rest (d :: r) = ((p.next d).rest r).map (Piece.addAll ps) := by
  by_cases same : d = c
  · -- The operator is whole.
    subst same
    refine ⟨[.operator whole], fun r => ?_⟩
    rw [pending, next, if_pos rfl, scan_cons_pair pair, rest, map_map]
    rfl
  · -- It ends in front of `d`, which is read as if it came first.
    obtain ⟨ps, plain⟩ := exists_scan_cons d
    refine ⟨.operator half :: ps, fun r => ?_⟩
    rw [pending, next, if_neg same, scan_half alone_here no_escape (by simpa using same), plain,
      map_map]
    rfl

/-- Text in front of text is one text. -/
theorem map_text_text (t u : Text) (x : Except Fault Scanned) :
    (x.map (Piece.text t).add).map (Piece.text u).add = x.map (Piece.text (u ++ t)).add := by
  rw [map_map]
  exact congrArg (Except.map · x) (Scanned.extend_comp u t)

/-- Within double quotes every character but a backslash and the closing mark stands for itself. -/
theorem rest_double_cons {c : Char} (no_quote : c ≠ doubleQuote) (no_escape : c ≠ '\\')
    (r : Text) : double.rest (c :: r) = (double.rest r).map (Piece.text [c]).add := by
  have no_pair (d : Char) : pair? .double c d = none := by simp [pair?, no_escape]
  have adds : alone .double c = (.double, .text [c]) := if_neg no_quote
  change (scan .double (c :: r)).map (Piece.text []).add =
    ((scan .double r).map (Piece.text []).add).map (Piece.text [c]).add
  rw [scan_cons_alone fun d _ => no_pair d, adds, map_text_text, map_text_text]
  rfl

theorem rest_double_quote (r : Text) : double.rest (doubleQuote :: r) = word.rest r := by
  have no_pair (d : Char) : pair? .double doubleQuote d = none := by
    have other : doubleQuote ≠ '\\' := by decide
    simp [pair?, other]
  change (scan .double (doubleQuote :: r)).map (Piece.text []).add =
    (scan .plain r).map (Piece.text []).add
  rw [scan_cons_alone fun d _ => no_pair d]
  exact congrArg _ (map_add_nothing _)

/-- What a backslash in double quotes comes to: what it escapes, or both characters. -/
theorem exists_rest_doubleEscape (c : Char) :
    ∃ t, ∀ r, doubleEscape.rest (c :: r) = (double.rest r).map (Piece.text t).add := by
  by_cases escapable : isEscapable c = true
  · refine ⟨escaped c, fun r => ?_⟩
    have pair : pair? .double '\\' c = some (.text (escaped c)) := by simp [pair?, escapable]
    change (scan .double ('\\' :: c :: r)).map (Piece.text []).add =
      ((scan .double r).map (Piece.text []).add).map (Piece.text (escaped c)).add
    rw [scan_cons_pair pair, map_text_text, map_text_text, List.append_nil, List.nil_append]
  · have no_quote : c ≠ doubleQuote := by
      rintro rfl
      exact escapable (by decide)
    have no_escape : c ≠ '\\' := by
      rintro rfl
      exact escapable (by decide)
    refine ⟨['\\', c], fun r => ?_⟩
    have no_pair : ∀ e, (c :: r).head? = some e → pair? .double '\\' e = none := by
      rintro e ⟨⟩
      simp [pair?, escapable]
    calc doubleEscape.rest (c :: r)
        = ((scan .double (c :: r)).map (Piece.text ['\\']).add).map (Piece.text []).add := by
          change (scan .double ('\\' :: c :: r)).map (Piece.text []).add = _
          rw [scan_cons_alone no_pair]
          rfl
      _ = (double.rest (c :: r)).map (Piece.text ['\\']).add := by
          change _ = ((scan .double (c :: r)).map (Piece.text []).add).map (Piece.text ['\\']).add
          rw [map_text_text, map_text_text, List.append_nil, List.nil_append]
      _ = (double.rest r).map (Piece.text ['\\', c]).add := by
          rw [rest_double_cons no_quote no_escape, map_text_text]
          rfl

theorem exists_rest_single (c : Char) :
    ∃ ps, ∀ r, single.rest (c :: r) = ((single.next c).rest r).map (Piece.addAll ps) := by
  by_cases closes : c = singleQuote
  · subst closes
    exact ⟨[], fun r => (map_addAll_nil _).symm⟩
  · refine ⟨[.text [c]], fun r => ?_⟩
    have adds : alone .single c = (.single, .text [c]) := if_neg closes
    rw [next, if_neg closes]
    change (scan .single (c :: r)).map (Piece.text []).add =
      ((scan .single r).map (Piece.text []).add).map (Piece.text [c]).add
    rw [scan_cons_alone fun d _ => rfl, adds, map_text_text, map_text_text]
    rfl

/-- One step: what a character adds to the tokens that follow depends on the place alone. -/
theorem exists_rest_cons (p : Place) (c : Char) :
    ∃ ps, ∀ r, p.rest (c :: r) = ((p.next c).rest r).map (Piece.addAll ps) := by
  obtain ⟨ps, plain⟩ := exists_scan_cons c
  cases p with
  | between =>
    refine ⟨.space :: ps, fun r => ?_⟩
    change (scan .plain (c :: r)).map Piece.space.add = _
    rw [plain, map_map]
    rfl
  | word =>
    refine ⟨.text [] :: ps, fun r => ?_⟩
    change (scan .plain (c :: r)).map (Piece.text []).add = _
    rw [plain, map_map]
    rfl
  | ampersand =>
    exact exists_rest_half (p := ampersand) (c := '&') (fun r => map_add_nothing _) (fun d => rfl)
      (by rfl) (by decide) (by rfl) c
  | bar =>
    exact exists_rest_half (p := bar) (c := '|') (fun r => map_add_nothing _) (fun d => rfl)
      (by rfl) (by decide) (by rfl) c
  | escape =>
    refine ⟨[.text (escaped c)], fun r => ?_⟩
    change (scan .plain ('\\' :: c :: r)).map Piece.nothing.add =
      ((scan .plain r).map (Piece.text []).add).map (Piece.text (escaped c)).add
    have pair : pair? .plain '\\' c = some (.text (escaped c)) := by simp [pair?]
    rw [map_add_nothing, scan_cons_pair pair, map_text_text, List.append_nil]
  | single => exact exists_rest_single c
  | double =>
    by_cases closes : c = doubleQuote
    · subst closes
      exact ⟨[], fun r => (rest_double_quote r).trans (map_addAll_nil _).symm⟩
    by_cases escapes : c = '\\'
    · subst escapes
      exact ⟨[], fun r => (map_addAll_nil _).symm⟩
    · refine ⟨[.text [c]], fun r => ?_⟩
      rw [rest_double_cons closes escapes, next, if_neg closes, if_neg escapes]
      rfl
  | doubleEscape =>
    obtain ⟨t, reads⟩ := exists_rest_doubleEscape c
    exact ⟨[.text t], reads⟩

/-- A run of steps: what a text adds to the tokens that follow depends on the place alone. -/
theorem exists_rest_append (p : Place) (a : Text) :
    ∃ ps, ∀ x, p.rest (a ++ x) = ((a.foldl next p).rest x).map (Piece.addAll ps) := by
  induction a generalizing p with
  | nil => exact ⟨[], fun x => (map_addAll_nil _).symm⟩
  | cons c a ih =>
    obtain ⟨ps, step⟩ := exists_rest_cons p c
    obtain ⟨qs, run⟩ := ih (p.next c)
    refine ⟨ps ++ qs, fun x => ?_⟩
    rw [List.cons_append, step, run, map_map, List.foldl_cons]
    congr 1
    funext s
    simp [Piece.addAll]

/-! ## What is not closed -/

theorem rest_nil_eq_error_iff {p : Place} {f : Fault} :
    p.rest [] = .error f ↔ p.fault? = some f := by
  cases p <;> simp [rest, mode, pending, fault?, scan, Except.map, doubleQuote, singleQuote,
    isSpace, operator?]

/-- A place outside quotes is left in the same way from anywhere, but for the second one of `&&` or
`||`, and these do not lead into quotes. -/
theorem next_of_isPlain {p : Place} (plain : p.isPlain = true) (c : Char) :
    p.next c = ofPlain c ∨ p.next c = between ∧ (ofPlain c).isPlain = true := by
  cases p with
  | between => exact .inl rfl
  | word => exact .inl rfl
  | ampersand =>
    by_cases same : c = '&'
    · subst same
      exact .inr ⟨rfl, by decide⟩
    · exact .inl (if_neg same)
  | bar =>
    by_cases same : c = '|'
    · subst same
      exact .inr ⟨rfl, by decide⟩
    · exact .inl (if_neg same)
  | escape | single | double | doubleEscape => cases plain

/-- Whether a word is in progress does not matter for what is left open. -/
theorem fault?_foldl_next {p q : Place} (left : p.isPlain = true) (right : q.isPlain = true)
    (b : Text) : (b.foldl next p).fault? = (b.foldl next q).fault? := by
  induction b generalizing p q with
  | nil => cases p <;> cases left <;> cases q <;> cases right <;> rfl
  | cons c b ih =>
    rw [List.foldl_cons, List.foldl_cons]
    obtain before | ⟨before, plain⟩ := next_of_isPlain left c
    · obtain after | ⟨after, plain⟩ := next_of_isPlain right c
      · rw [before, after]
      · rw [before, after]
        exact ih plain rfl
    · obtain after | ⟨after, -⟩ := next_of_isPlain right c
      · rw [before, after]
        exact ih rfl plain
      · rw [before, after]

end Place

/-- The place at the end of a line. -/
def placeAfter (t : Text) : Place := t.foldl Place.next .between

/-- What a text adds to the tokens of what follows depends on the place at its end. -/
theorem exists_tokenize_append (a : Text) :
    ∃ ps, ∀ x, tokenize (a ++ x) =
      ((placeAfter a).rest x).map fun s => (Piece.addAll ps s).tokens := by
  obtain ⟨ps, run⟩ := Place.between.exists_rest_append a
  refine ⟨ps, fun x => ?_⟩
  calc tokenize (a ++ x)
      = (Place.between.rest (a ++ x)).map Scanned.tokens := by
        rw [Place.rest, map_map]
        rfl
    _ = ((placeAfter a).rest x).map fun s => (Piece.addAll ps s).tokens := by
        rw [run, map_map]
        rfl

/-- A line is refused exactly if it ends within quotes. -/
theorem tokenize_eq_error_iff {t : Text} {f : Fault} :
    tokenize t = .error f ↔ (placeAfter t).fault? = some f := by
  obtain ⟨ps, run⟩ := exists_tokenize_append t
  have whole := run []
  rw [List.append_nil] at whole
  rw [whole, ← Place.rest_nil_eq_error_iff]
  cases (placeAfter t).rest [] <;> simp [Except.map]

end ImageAudit.Shell
