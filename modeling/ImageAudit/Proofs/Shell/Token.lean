import ImageAudit.Shell.Token

/-!
# Reading tokens from the left

The reader of tokens builds them from the right. Seen from the left it keeps a mode, and every step
puts a piece in front of the tokens that follow. A step looks at two characters at most, so a text
can be cut wherever the characters on both sides are not read as a pair.

* `scan_cons_pair` and `scan_cons_alone` say what a step comes to, `scan_append` what a run of
  steps does.
* `tokenize_append_space`: white space behind an accepted text ends all that is open in it.
-/

namespace ImageAudit.Shell

open Text

/-! ## What is added to the tokens that follow -/

namespace Scanned

/-- Puts tokens behind all others. -/
def append (s : Scanned) (ts : List Token) : Scanned := (s.1, s.2 ++ ts)

theorem tokens_append (s : Scanned) (ts : List Token) : (s.append ts).tokens = s.tokens ++ ts := by
  obtain ⟨_ | w, us⟩ := s <;> rfl

theorem space_eq_append (s : Scanned) : s.space = append (none, []) s.tokens := rfl

end Scanned

/-- What a step of the reader puts in front of the tokens that follow. -/
inductive Piece where
  | nothing
  | text (t : Text)
  | space
  | operator (op : Operator)

namespace Piece

def add : Piece → Scanned → Scanned
  | nothing, s => s
  | text t, s => s.extend t
  | space, s => s.space
  | operator op, s => s.operator op

/-- Puts pieces in front, the first one foremost. -/
def addAll (ps : List Piece) (s : Scanned) : Scanned := ps.foldr add s

theorem add_append (p : Piece) (s : Scanned) (ts : List Token) :
    p.add (s.append ts) = (p.add s).append ts := by
  cases p with
  | nothing => rfl
  | text t => rfl
  | space =>
    show (none, (s.append ts).tokens) = _
    rw [Scanned.tokens_append]
    rfl
  | operator op =>
    show (none, .operator op :: (s.append ts).tokens) = _
    rw [Scanned.tokens_append]
    rfl

theorem addAll_append (ps : List Piece) (s : Scanned) (ts : List Token) :
    addAll ps (s.append ts) = (addAll ps s).append ts := by
  induction ps with
  | nil => rfl
  | cons p ps ih =>
    show p.add (addAll ps (s.append ts)) = _
    rw [ih, add_append]
    rfl

end Piece

theorem map_map {α β γ : Type} (f : α → β) (g : β → γ) (x : Except Fault α) :
    (x.map f).map g = x.map (g ∘ f) := by
  cases x <;> rfl

theorem map_add_nothing (x : Except Fault Scanned) : x.map Piece.nothing.add = x := by
  cases x <;> rfl

/-! ## One step -/

/-- What two characters add that are read as a pair. -/
def pair? : Mode → Char → Char → Option Piece
  | .single, _, _ => none
  | .double, c, d => if c = '\\' && isEscapable d then some (.text (escaped d)) else none
  | .plain, c, d =>
    if c = '\\' then some (.text (escaped d))
    else if c = d then (doubled? c).map .operator
    else none

/-- The mode after a character that is read alone, and what it adds. -/
def alone : Mode → Char → Mode × Piece
  | .single, c => if c = singleQuote then (.plain, .nothing) else (.single, .text [c])
  | .double, c => if c = doubleQuote then (.plain, .nothing) else (.double, .text [c])
  | .plain, c =>
    if isSpace c then (.plain, .space)
    else if c = singleQuote then (.single, .text [])
    else if c = doubleQuote then (.double, .text [])
    else
      match operator? c with
      | some op => (.plain, .operator op)
      | none => (.plain, .text [c])

theorem doubled?_of_isSpace {c : Char} (space : isSpace c = true) : doubled? c = none := by
  rw [doubled?, if_neg, if_neg]
  · rintro rfl
    exact absurd space (by decide)
  · rintro rfl
    exact absurd space (by decide)

/-- Only a backslash makes a pair with white space. -/
theorem pair?_space {m : Mode} {c d : Char} (plain : c ≠ '\\') (space : isSpace d = true) :
    pair? m c d = none := by
  cases m with
  | single => rfl
  | double => simp [pair?, plain]
  | plain =>
    simp only [pair?, plain, if_false]
    split
    · next same =>
      rw [same, doubled?_of_isSpace space]
      rfl
    · rfl

theorem scan_cons_pair {m : Mode} {c d : Char} {p : Piece} (pair : pair? m c d = some p)
    (r : Text) : scan m (c :: d :: r) = (scan m r).map p.add := by
  cases m with
  | single => cases pair
  | double =>
    simp only [pair?] at pair
    split at pair
    · next escape =>
      cases pair
      have no_quote : c ≠ doubleQuote := by
        rintro rfl
        exact absurd (Bool.and_eq_true_iff.1 escape).1 (by decide)
      rw [scan, if_neg no_quote, if_pos escape]
      rfl
    · cases pair
  | plain =>
    simp only [pair?] at pair
    split at pair
    · next backslash =>
      cases pair
      subst backslash
      rfl
    · next plain =>
      split at pair
      · next same =>
        obtain ⟨op, doubled, rfl⟩ := Option.map_eq_some_iff.1 pair
        subst same
        -- Only `&&` and `||` are left.
        rw [doubled?] at doubled
        split at doubled
        · next ampersand =>
          cases doubled
          subst ampersand
          rfl
        · split at doubled
          · next bar =>
            cases doubled
            subst bar
            rfl
          · cases doubled
      · cases pair

theorem scan_cons_alone {m : Mode} {c : Char} {r : Text}
    (no_pair : ∀ d, r.head? = some d → pair? m c d = none) :
    scan m (c :: r) = (scan (alone m c).1 r).map (alone m c).2.add := by
  cases m with
  | single =>
    rw [scan, alone]
    split
    · exact (map_add_nothing _).symm
    · rfl
  | double =>
    cases r with
    | nil =>
      rw [scan, alone]
      split <;> rfl
    | cons d r =>
      have no_escape : ¬ (c = '\\' && isEscapable d) = true := fun escape => by
        have := no_pair d rfl
        simp [pair?, escape] at this
      rw [scan, if_neg no_escape, alone]
      split
      · exact (map_add_nothing _).symm
      · rfl
  | plain =>
    cases r with
    | nil =>
      -- A backslash at the end stands for itself.
      rw [scan, alone]
      by_cases space : isSpace c = true
      · rw [if_pos space, if_pos space]
        rfl
      · rw [if_neg space, if_neg space]
        by_cases single : c = singleQuote
        · subst single
          rfl
        · rw [if_neg single]
          by_cases double : c = doubleQuote
          · subst double
            rfl
          · rw [if_neg double, if_neg (by simp [single, double])]
            cases operator? c <;> rfl
    | cons d r =>
      have none_here := no_pair d rfl
      simp only [pair?] at none_here
      split at none_here
      · cases none_here
      · next plain =>
        -- Not a backslash, and not the first half of a doubled operator.
        have no_double : ¬ (c = d && (doubled? c).isSome) = true := by
          split at none_here
          · next same => simp [Option.map_eq_none_iff.1 none_here]
          · next other => simp [other]
        rw [scan, alone, if_neg plain, if_neg no_double]
        split
        · rfl
        · split
          · rfl
          · split
            · rfl
            · cases operator? c <;> rfl

/-! ## Many steps -/

/-- The mode after a text whose last character is read alone, and what the text adds. -/
def advance : Mode → Text → Mode × List Piece
  | m, [] => (m, [])
  | m, [c] => ((alone m c).1, [(alone m c).2])
  | m, c :: d :: r =>
    match pair? m c d with
    | some p => ((advance m r).1, p :: (advance m r).2)
    | none =>
      ((advance (alone m c).1 (d :: r)).1, (alone m c).2 :: (advance (alone m c).1 (d :: r)).2)

/-- A text may be cut between two characters that are no pair in any mode. -/
theorem scan_append {a x : Text}
    (no_pair : ∀ m c d, a.getLast? = some c → x.head? = some d → pair? m c d = none) (m : Mode) :
    scan m (a ++ x) = (scan (advance m a).1 x).map (Piece.addAll (advance m a).2) := by
  -- The last character of a rest is that of the whole.
  have rest {b : Text} {c e : Char} (last : b.getLast? = some e) : (c :: b).getLast? = some e := by
    simp [List.getLast?_cons, last]
  fun_induction advance m a with
  | case1 m => exact (map_add_nothing _).symm
  | case2 m c => exact scan_cons_alone fun d first => no_pair m c d rfl first
  | case3 m c d r p pair ih =>
    have cut := ih fun m e d last => no_pair m e d (rest (rest last))
    rw [List.cons_append, List.cons_append, scan_cons_pair pair, cut, map_map]
    rfl
  | case4 m c d r alone_here ih =>
    have cut := ih fun m e d last => no_pair m e d (rest last)
    have front : ∀ e, (d :: r ++ x).head? = some e → pair? m c e = none := by
      rintro e ⟨⟩
      exact alone_here
    rw [List.cons_append, scan_cons_alone front, cut, map_map]
    rfl

theorem scan_of_isSpace {c : Char} (space : isSpace c = true) (r : Text) :
    scan .plain (c :: r) = (scan .plain r).map Scanned.space := by
  have no_backslash : c ≠ '\\' := by
    rintro rfl
    exact absurd space (by decide)
  have no_pair (d : Char) : pair? .plain c d = none := by
    simp [pair?, no_backslash, doubled?_of_isSpace space]
  rw [scan_cons_alone fun d _ => no_pair d, alone, if_pos space]
  rfl

/-- A text that is accepted leaves the reader where it began, unless a backslash at its end waits
for a character: white space ends whatever word is in progress, and what follows is read afresh. -/
theorem tokenize_append_space {a : Text} {ta : List Token} {c : Char}
    (accepted : tokenize a = .ok ta) (settled : a.getLast? ≠ some '\\') (space : isSpace c = true)
    (r : Text) : tokenize (a ++ c :: r) = (tokenize r).map (ta ++ ·) := by
  have behind : scan .plain (a ++ c :: r) =
      (scan (advance .plain a).1 (c :: r)).map (Piece.addAll (advance .plain a).2) := by
    refine scan_append (fun m e d last first => ?_) .plain
    cases first
    exact pair?_space (fun backslash => settled (by rw [last, backslash])) space
  have whole : scan .plain (a ++ []) =
      (scan (advance .plain a).1 []).map (Piece.addAll (advance .plain a).2) :=
    scan_append (fun _ _ _ _ first => by cases first) .plain
  rw [List.append_nil] at whole
  rw [tokenize, whole] at accepted
  rcases reached : advance .plain a with ⟨m, ps⟩
  rw [reached] at accepted behind
  -- In a quoted part the end of the text would have been refused.
  cases m with
  | single => cases accepted
  | double => cases accepted
  | plain =>
    cases accepted
    rw [tokenize, behind, scan_of_isSpace space, map_map, map_map, tokenize, map_map]
    congr 1
    funext t
    show (Piece.addAll ps t.space).tokens = (Piece.addAll ps (none, [])).tokens ++ t.tokens
    rw [Scanned.space_eq_append, Piece.addAll_append, Scanned.tokens_append]

end ImageAudit.Shell
