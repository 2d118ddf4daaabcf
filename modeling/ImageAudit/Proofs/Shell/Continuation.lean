import ImageAudit.Proofs.Basic
import ImageAudit.Proofs.Shell.Place

/-!
# Continued lines

In the shell a backslash and a line feed after it are taken out before words are looked for. The
reader of tokens takes them out too, but it begins a word there. That makes no difference within a
word or in front of one; anywhere else an empty word is read.

* `tokenize_continued_eq_error_iff`: continuing a line opens and closes no quotes.
* `exists_tokenize_between`: what stands behind white space or an operator is read afresh.
* `tokenize_continued_iff`: where a line may be continued without changing its tokens.
-/

namespace ImageAudit.Shell

open Text

/-! ## Where words begin -/

/-- Whether a word begins at the front of a text. -/
def beginsWord (b : Text) : Bool := b.head?.any fun c => !isSpace c && (operator? c).isNone

variable {a b : Text}

theorem operator?_eq_none_iff {c : Char} :
    operator? c = none ↔ c ≠ '&' ∧ c ≠ '|' ∧ c ≠ ';' := by
  grind [operator?]

/-- A word that begins anyway is not changed by beginning it once more. -/
theorem scan_of_beginsWord (begins : beginsWord b = true) :
    (scan .plain b).map (Piece.text []).add = scan .plain b := by
  cases b with
  | nil => cases begins
  | cons c r =>
    simp only [beginsWord, List.head?_cons, Option.any_some, Bool.and_eq_true, Bool.not_eq_true',
      Option.isNone_iff_eq_none] at begins
    obtain ⟨solid, no_operator⟩ := begins
    obtain ⟨no_ampersand, no_bar, -⟩ := operator?_eq_none_iff.1 no_operator
    have no_double : doubled? c = none := by simp [doubled?, no_ampersand, no_bar]
    cases r with
    | nil =>
      simp only [scan, solid, no_operator, Bool.false_eq_true, if_false]
      split <;> rfl
    | cons d r =>
      -- Whichever way the word begins, its first part is text.
      have begun (t : Text) (x : Except Fault Scanned) :
          (x.map (Scanned.extend t)).map (Piece.text []).add = x.map (Scanned.extend t) :=
        Place.map_text_text t [] x
      simp only [scan, solid, no_operator, no_double, Option.isSome_none, Bool.and_false,
        Bool.false_eq_true, if_false]
      split
      · exact begun _ _
      · split
        · exact begun _ _
        · split <;> exact begun _ _

/-- What begins with an operator puts one in front, be it half or whole. -/
theorem exists_scan_operator {c : Char} {op : Operator} (here : operator? c = some op) (r : Text) :
    ∃ (op' : Operator) (x : Except Fault Scanned),
      scan .plain (c :: r) = x.map (Piece.operator op').add := by
  have special : c = '&' ∨ c = '|' ∨ c = ';' := by grind [operator?]
  have alone_here : alone .plain c = (.plain, .operator op) := by
    obtain rfl | rfl | rfl := special <;> cases here <;> rfl
  have single_here (no_pair : ∀ d, r.head? = some d → pair? .plain c d = none) :
      ∃ (op' : Operator) (x : Except Fault Scanned),
        scan .plain (c :: r) = x.map (Piece.operator op').add :=
    ⟨op, _, by rw [scan_cons_alone no_pair, alone_here]⟩
  cases r with
  | nil => exact single_here fun d first => by cases first
  | cons d r =>
    have no_escape : c ≠ '\\' := by grind
    cases found : pair? .plain c d with
    | none =>
      refine single_here ?_
      rintro e ⟨⟩
      exact found
    | some p =>
      obtain ⟨op', rfl⟩ : ∃ op', p = .operator op' := by
        simp only [pair?, no_escape, if_false] at found
        split at found
        · obtain ⟨op', -, rfl⟩ := Option.map_eq_some_iff.1 found
          exact ⟨op', rfl⟩
        · cases found
      exact ⟨op', _, scan_cons_pair found r⟩

/-- In front of white space, an operator or the end of a line no word is in progress. -/
theorem fst_of_scan {s : Scanned} (ends : beginsWord b = false) (read : scan .plain b = .ok s) :
    s.1 = none := by
  cases b with
  | nil =>
    cases read
    rfl
  | cons c r =>
    by_cases space : isSpace c = true
    · rw [scan_of_isSpace space] at read
      obtain ⟨rest, -, rfl⟩ := map_eq_ok_iff.1 read
      rfl
    · cases here : operator? c with
      | none => simp [beginsWord, space, here] at ends
      | some op =>
        obtain ⟨op', x, operator⟩ := exists_scan_operator here r
        rw [operator] at read
        obtain ⟨rest, -, rfl⟩ := map_eq_ok_iff.1 read
        rfl

/-! ## Continued lines -/

/-- A line that is continued on the next one. -/
def continued (a b : Text) : Text := a ++ '\\' :: '\n' :: b

theorem scan_continuation (b : Text) :
    scan .plain ('\\' :: '\n' :: b) = (scan .plain b).map (Piece.text []).add := rfl

/-- Within a word the break vanishes. -/
theorem Place.rest_continuation {p : Place} (settled : p.isSettled = true)
    (inside : p.inWord = true) (b : Text) : p.rest ('\\' :: '\n' :: b) = p.rest b := by
  cases p with
  | word =>
    change (scan .plain ('\\' :: '\n' :: b)).map (Piece.text []).add = _
    rw [scan_continuation, map_text_text]
    rfl
  | double =>
    have pair : pair? .double '\\' '\n' = some (.text []) := rfl
    change (scan .double ('\\' :: '\n' :: b)).map (Piece.text []).add = _
    rw [scan_cons_pair pair, map_text_text]
    rfl
  | between | ampersand | bar => cases inside
  | escape | single | doubleEscape => cases settled

/-- Continuing a line opens and closes no quotes. -/
theorem tokenize_continued_eq_error_iff (settled : (placeAfter a).isSettled = true) (b : Text)
    {f : Fault} : tokenize (continued a b) = .error f ↔ tokenize (a ++ b) = .error f := by
  have same : (placeAfter (continued a b)).fault? = (placeAfter (a ++ b)).fault? := by
    rw [placeAfter, placeAfter, continued, List.foldl_append, List.foldl_append, ← placeAfter]
    cases here : placeAfter a with
    | between | ampersand | bar | word => exact Place.fault?_foldl_next rfl rfl b
    | double => rfl
    | escape | single | doubleEscape =>
      rw [here] at settled
      cases settled
  rw [tokenize_eq_error_iff, tokenize_eq_error_iff, same]

/-! ## Between words -/

namespace Place

/-- The half operator that stands in front of a place. -/
def halves : Place → List Token
  | ampersand => [.operator .background]
  | bar => [.operator .pipe]
  | between | word | escape | single | double | doubleEscape => []

/-- Between words what follows is read afresh, unless it makes an operator whole. -/
theorem rest_eq_of_apart {p : Place} (outside : p.inWord = false) {x : Text}
    (apart : ∀ c ∈ p.pending, x.head? ≠ some c) :
    p.rest x = (tokenize x).map fun ts => (none, p.halves ++ ts) := by
  have half {c : Char} {op : Operator} (alone_here : alone .plain c = (.plain, .operator op))
      (no_escape : c ≠ '\\') (apart : x.head? ≠ some c) :
      (scan .plain (c :: x)).map Piece.nothing.add =
        (tokenize x).map fun ts => (none, .operator op :: ts) := by
    rw [map_add_nothing, scan_half alone_here no_escape apart, tokenize, map_map]
    rfl
  cases p with
  | between => exact (map_map ..).symm
  | ampersand => exact half rfl (by decide) (apart '&' List.mem_cons_self)
  | bar => exact half rfl (by decide) (apart '|' List.mem_cons_self)
  | word | escape | single | double | doubleEscape => cases outside

/-- The same character again makes another operator of a half one. -/
theorem exists_rest_of_whole {p : Place} {c : Char} (pending : c ∈ p.pending)
    (outside : p.inWord = false) (r : Text) :
    ∃ half whole, half ≠ whole ∧ p.halves = [.operator half] ∧
      p.rest (c :: r) = (tokenize r).map fun ts => (none, .operator whole :: ts) := by
  have whole {c : Char} {op : Operator} (pair : pair? .plain c c = some (.operator op)) :
      (scan .plain (c :: c :: r)).map Piece.nothing.add =
        (tokenize r).map fun ts => (none, .operator op :: ts) := by
    rw [map_add_nothing, scan_cons_pair pair, tokenize, map_map]
    rfl
  cases p with
  | ampersand =>
    obtain rfl := List.mem_singleton.1 pending
    exact ⟨.background, .and, by decide, rfl, whole rfl⟩
  | bar =>
    obtain rfl := List.mem_singleton.1 pending
    exact ⟨.pipe, .or, by decide, rfl, whole rfl⟩
  | between => cases pending
  | word | escape | single | double | doubleEscape => cases outside

end Place

theorem Piece.tokens_addAll (ps : List Piece) (ts : List Token) :
    (addAll ps (none, ts)).tokens = (addAll ps (none, [])).tokens ++ ts := by
  rw [← Scanned.tokens_append, ← addAll_append]
  rfl

/-- Between words the tokens in front stay as they are, but for half an operator that is made
whole. -/
theorem exists_tokenize_between (outside : (placeAfter a).inWord = false) :
    ∃ ta, tokenize a = .ok ta ∧
      (∀ x, (∀ c ∈ (placeAfter a).pending, x.head? ≠ some c) →
        tokenize (a ++ x) = (tokenize x).map (ta ++ ·)) ∧
      ∀ c ∈ (placeAfter a).pending, ∀ r, ∃ front half whole, half ≠ whole ∧
        ta = front ++ [.operator half] ∧
        tokenize (a ++ c :: r) = (tokenize r).map (front ++ .operator whole :: ·) := by
  obtain ⟨ps, run⟩ := exists_tokenize_append a
  have apart : ∀ x, (∀ c ∈ (placeAfter a).pending, x.head? ≠ some c) →
      tokenize (a ++ x) =
        (tokenize x).map ((Piece.addAll ps (none, [])).tokens ++ (placeAfter a).halves ++ ·) := by
    intro x apart
    rw [run, Place.rest_eq_of_apart outside apart, map_map]
    congr 1
    funext ts
    rw [List.append_assoc]
    exact Piece.tokens_addAll ps _
  refine ⟨_, ?_, apart, fun c pending r => ?_⟩
  · have alone_here := apart [] fun c _ first => by cases first
    rw [List.append_nil] at alone_here
    rw [alone_here]
    exact congrArg Except.ok (List.append_nil _)
  · obtain ⟨half, whole, different, halves, read⟩ := Place.exists_rest_of_whole pending outside r
    refine ⟨(Piece.addAll ps (none, [])).tokens, half, whole, different, by rw [halves], ?_⟩
    rw [run, read, map_map]
    congr 1
    funext ts
    exact Piece.tokens_addAll ps _

/-- In front of white space, an operator or the end of a line the break is read as an empty word. -/
theorem tokenize_break (ends : beginsWord b = false) :
    tokenize ('\\' :: '\n' :: b) = (tokenize b).map (.word [] :: ·) := by
  rw [tokenize, scan_continuation, tokenize, map_map, map_map]
  cases read : scan .plain b with
  | error f => rfl
  | ok s =>
    obtain ⟨w, ts⟩ := s
    obtain rfl : w = none := fst_of_scan ends read
    rfl

theorem tokenize_break_of_beginsWord (begins : beginsWord b = true) :
    tokenize ('\\' :: '\n' :: b) = tokenize b := by
  rw [tokenize, scan_continuation, scan_of_beginsWord begins, tokenize]

theorem tokenize_continued_of_inWord (settled : (placeAfter a).isSettled = true)
    (inside : (placeAfter a).inWord = true) (b : Text) :
    tokenize (continued a b) = tokenize (a ++ b) := by
  obtain ⟨ps, run⟩ := exists_tokenize_append a
  rw [continued, run, run, Place.rest_continuation settled inside]

section

variable (outside : (placeAfter a).inWord = false)
include outside

/-- Between words only an operator can be in progress, and no word begins with one. -/
theorem apart_of_beginsWord (begins : beginsWord b = true) :
    ∀ c ∈ (placeAfter a).pending, b.head? ≠ some c := by
  intro c pending first
  have special : c = '&' ∨ c = '|' := by
    cases here : placeAfter a with
    | between =>
      rw [here] at pending
      cases pending
    | ampersand =>
      rw [here] at pending
      exact .inl (List.mem_singleton.1 pending)
    | bar =>
      rw [here] at pending
      exact .inr (List.mem_singleton.1 pending)
    | word | escape | single | double | doubleEscape =>
      rw [here] at outside
      cases outside
  rw [beginsWord, first] at begins
  obtain rfl | rfl := special <;> exact absurd begins (by decide)

theorem tokenize_continued_of_beginsWord (begins : beginsWord b = true) :
    tokenize (continued a b) = tokenize (a ++ b) := by
  obtain ⟨ta, -, apart, -⟩ := exists_tokenize_between outside
  rw [continued, apart _ (apart_of_beginsWord outside rfl), tokenize_break_of_beginsWord begins,
    apart _ (apart_of_beginsWord outside begins)]

theorem tokenize_continued_ne (ends : beginsWord b = false) {ts : List Token}
    (accepted : tokenize (a ++ b) = .ok ts) : tokenize (continued a b) ≠ tokenize (a ++ b) := by
  obtain ⟨ta, -, apart, whole⟩ := exists_tokenize_between outside
  intro same
  rw [accepted, continued, apart _ (apart_of_beginsWord outside rfl), tokenize_break ends,
    map_map] at same
  obtain ⟨tb, read, rfl⟩ := map_eq_ok_iff.1 same
  by_cases meets : ∃ c ∈ (placeAfter a).pending, b.head? = some c
  · -- The break keeps two halves of an operator apart.
    obtain ⟨c, pending, first⟩ := meets
    obtain ⟨r, rfl⟩ := List.head?_eq_some_iff.1 first
    obtain ⟨front, half, whole, different, rfl, joined⟩ := whole c pending r
    rw [joined] at accepted
    obtain ⟨tr, -, equal⟩ := map_eq_ok_iff.1 accepted
    simp [Ne.symm different] at equal
  · -- The tokens are the same but for the empty word.
    rw [apart b fun c pending first => meets ⟨c, pending, first⟩, read] at accepted
    simpa using Except.ok.inj accepted

end

/-- A line that is continued outside single quotes, and not behind an unfinished escape, has the
same tokens as without the break exactly if the break stands in a word or in front of one, or the
line is refused anyway. Otherwise the break is read as an empty word. -/
theorem tokenize_continued_iff (settled : (placeAfter a).isSettled = true) (b : Text) :
    (tokenize (continued a b) = tokenize (a ++ b) ↔
      (placeAfter a).inWord = true ∨ beginsWord b = true ∨
        ∃ fault, tokenize (a ++ b) = .error fault) ∧
    ((placeAfter a).inWord = false → beginsWord b = false →
      ∃ ta, tokenize a = .ok ta ∧
        tokenize (continued a b) = (tokenize b).map (ta ++ .word [] :: ·)) := by
  constructor
  · constructor
    · intro same
      cases read : tokenize (a ++ b) with
      | error f => exact .inr (.inr ⟨f, rfl⟩)
      | ok ts =>
        cases inside : (placeAfter a).inWord with
        | true => exact .inl rfl
        | false =>
          cases begins : beginsWord b with
          | true => exact .inr (.inl rfl)
          | false => exact absurd same (tokenize_continued_ne inside begins read)
    · rintro (inside | begins | ⟨fault, refused⟩)
      · exact tokenize_continued_of_inWord settled inside b
      · cases inside : (placeAfter a).inWord with
        | true => exact tokenize_continued_of_inWord settled inside b
        | false => exact tokenize_continued_of_beginsWord inside begins
      · rw [refused]
        exact (tokenize_continued_eq_error_iff settled b).2 refused
  · intro outside ends
    obtain ⟨ta, front, apart, -⟩ := exists_tokenize_between outside
    refine ⟨ta, front, ?_⟩
    rw [continued, apart _ (apart_of_beginsWord outside rfl), tokenize_break ends, map_map]
    rfl

/-- A break in front of white space, as after `install` in many files. -/
theorem tokenize_continued_indented :
    (placeAfter "apt install ".toList).isSettled = true ∧
      ∃ ta, tokenize "apt install ".toList = .ok ta ∧
        tokenize (continued "apt install ".toList " curl".toList) =
          (tokenize " curl".toList).map (ta ++ .word [] :: ·) :=
  ⟨by decide, (tokenize_continued_iff (by decide) " curl".toList).2 (by decide) (by decide)⟩

/-- The break is not taken out of a line: an argument is read that is not there. -/
theorem continued_line_has_empty_word :
    (placeAfter "apt-get install ".toList).isSettled = true ∧
      tokenize (continued "apt-get install ".toList " curl".toList) =
        .ok (["apt-get", "install", "", "curl"].map fun w => .word w.toList) ∧
      tokenize ("apt-get install ".toList ++ " curl".toList) =
        .ok (["apt-get", "install", "curl"].map fun w => .word w.toList) ∧
      tokenize (continued "apt-get install ".toList " curl".toList) ≠
        tokenize ("apt-get install ".toList ++ " curl".toList) := by
  have broken : tokenize (continued "apt-get install ".toList " curl".toList) =
      .ok (["apt-get", "install", "", "curl"].map fun w => .word w.toList) := by rfl
  have whole : tokenize ("apt-get install ".toList ++ " curl".toList) =
      .ok (["apt-get", "install", "curl"].map fun w => .word w.toList) := by rfl
  refine ⟨by decide, broken, whole, ?_⟩
  rw [broken, whole]
  exact fun same => absurd (Except.ok.inj same) (by decide)

end ImageAudit.Shell
