import ImageAudit.Proofs.Instruction.ExecArray
import ImageAudit.Proofs.Instruction.Pair
import ImageAudit.Proofs.Statement.SingleLine

/-!
# Writing pairs

Any row of pairs whose keys are not empty can be written between double quotation marks, and LABEL
and ENV both read it back. Neither side needs to be free of equals signs, white space, quotation
marks or backslashes.

* `Pair.row` writes pairs, `Pair.all?_row` says that they are read back.
* `Statement.readAll_quoted_row`: the same of a line of LABEL and of ENV.
-/

namespace ImageAudit

open Text

namespace Pair

/-- A character as it is written between double quotation marks. -/
def escape (c : Char) : Text := if c = '\\' ∨ c = doubleQuote then ['\\', c] else [c]

/-- A text between double quotation marks. -/
def quoted (t : Text) : Text := doubleQuote :: (t.flatMap escape ++ [doubleQuote])

/-- A pair, both sides between double quotation marks. -/
def written (p : Pair) : Text := quoted p.1 ++ '=' :: quoted p.2

/-- Pairs with a space between them. -/
def row (ps : List Pair) : Text := join [' '] (ps.map written)

/-! ## Tokens -/

section

variable (isKey : Bool) (r : Text)

theorem tokenFrom?_escape (c : Char) :
    tokenFrom? isKey (some doubleQuote) (escape c ++ r) =
      (tokenFrom? isKey (some doubleQuote) r).map (push c) := by
  rw [escape]
  split
  · rfl
  · next plain =>
    rw [not_or] at plain
    have inside : toggleQuote (some doubleQuote) c = some doubleQuote := by
      simp [toggleQuote, plain.2]
    rw [List.singleton_append, tokenFrom?]
    · simp [inside]
    · rintro d s rfl
      exact absurd rfl plain.1

theorem tokenFrom?_escapes (t : Text) :
    tokenFrom? isKey (some doubleQuote) (t.flatMap escape ++ doubleQuote :: r) =
      (tokenFrom? isKey none r).map fun p => (t ++ p.1, p.2) := by
  induction t with
  | nil =>
    have closes : tokenFrom? isKey (some doubleQuote) (doubleQuote :: r) =
        tokenFrom? isKey none r := by
      cases r <;> rfl
    simp [closes]
  | cons c t ih =>
    rw [List.flatMap_cons, List.append_assoc, tokenFrom?_escape, ih, Option.map_map]
    rfl

/-- What follows the closing mark still belongs to the token. -/
theorem tokenFrom?_quoted (t : Text) :
    tokenFrom? isKey none (quoted t ++ r) =
      (tokenFrom? isKey none r).map fun p => (t ++ p.1, p.2) := by
  have opens (s : Text) : tokenFrom? isKey none (doubleQuote :: s) =
      tokenFrom? isKey (some doubleQuote) s := by
    cases s <;> rfl
  rw [quoted, List.cons_append, List.append_assoc, opens]
  exact tokenFrom?_escapes isKey r t

end

theorem key?_quoted {key : Text} (filled : key ≠ []) (r : Text) :
    key? (quoted key ++ '=' :: r) = some (key, '=' :: r) := by
  have ends : tokenFrom? true none ('=' :: r) = some ([], '=' :: r) :=
    Layout.tokenFrom?_ends (by decide) (by decide) r
  rw [key?, tokenFrom?_quoted, ends]
  simp [filled]

theorem value?_quoted (value : Text) {r : Text} (ends : ∀ c s, r = c :: s → isSpace c = true) :
    value? (quoted value ++ r) = some (value, r) := by
  have stops : tokenFrom? false none r = some ([], r) := by
    cases r with
    | nil => rfl
    | cons c s =>
      have space := ends c s rfl
      exact Layout.tokenFrom?_ends (Layout.isMark_eq_false_of_isSpace space)
        (by rw [endsToken, space, Bool.true_or]) s
  rw [value?, tokenFrom?_quoted, stops]
  simp

/-! ## Rows -/

theorem read?_written {p : Pair} (filled : p.1 ≠ []) {r : Text}
    (ends : ∀ c s, r = c :: s → isSpace c = true) :
    read? (written p ++ r) = some (p, trimStart r) := by
  rw [written, List.append_assoc, List.cons_append, read?, key?_quoted filled]
  simp only [Option.bind_eq_bind, Option.bind_some]
  rw [value?_quoted p.2 ends]
  rfl

theorem row_cons (p : Pair) (ps : List Pair) :
    row (p :: ps) = written p ++ ps.flatMap fun p => ' ' :: written p := by
  rw [row, List.map_cons, Arguments.join_cons, List.flatMap_map]
  rfl

theorem trimStart_written (p : Pair) (r : Text) : trimStart (written p ++ r) = written p ++ r :=
  List.dropWhile_cons_of_neg (by decide)

/-- Pairs that are written down are read back, in their order, whatever they hold. -/
theorem all?_row {ps : List Pair} (filled : ∀ p ∈ ps, p.1 ≠ []) : all? (row ps) = some ps := by
  induction ps with
  | nil => exact all?_nil
  | cons p ps ih =>
    rw [List.forall_mem_cons] at filled
    have start : row (p :: ps) ≠ [] := by simp [row_cons, written, quoted]
    rw [row_cons] at start ⊢
    cases ps with
    | nil =>
      rw [all?_of_read? start (read?_written filled.1 (by simp)), List.flatMap_nil]
      simp [trimStart, all?_nil]
    | cons q ps =>
      rw [List.flatMap_cons, List.cons_append, ← row_cons] at start ⊢
      have after : trimStart (' ' :: row (q :: ps)) = row (q :: ps) := by
        rw [row_cons]
        exact trimStart_written q _
      rw [all?_of_read? start (read?_written filled.1 (by rintro c s ⟨⟩; decide)), after,
        ih filled.2]
      rfl

theorem getLast?_written (front : Text) (p : Pair) :
    (front ++ written p).getLast? = some doubleQuote := by
  have split : front ++ written p =
      front ++ (quoted p.1 ++ '=' :: doubleQuote :: p.2.flatMap escape) ++ [doubleQuote] := by
    simp [written, quoted]
  rw [split, List.getLast?_concat]

/-- A row begins and ends with a quotation mark. -/
theorem exists_row_eq {ps : List Pair} (nonempty : ps ≠ []) :
    ∃ r, row ps = doubleQuote :: r ∧ (row ps).getLast? = some doubleQuote := by
  obtain ⟨p, ps, rfl⟩ := List.exists_cons_of_ne_nil nonempty
  rw [row_cons]
  refine ⟨_, rfl, ?_⟩
  rcases List.eq_nil_or_concat' ps with rfl | ⟨ps, q, rfl⟩
  · simpa using getLast?_written [] p
  · rw [List.flatMap_append, List.flatMap_singleton, ← List.append_assoc, List.append_cons]
    exact getLast?_written _ q

theorem newline_notMem_quoted {t : Text} (h : '\n' ∉ t) : '\n' ∉ quoted t := by
  have escaped (c : Char) (other : c ≠ '\n') : '\n' ∉ escape c := by
    rw [escape]
    split <;> simpa using other.symm
  simp only [quoted, List.mem_cons, List.mem_append, List.mem_flatMap, List.not_mem_nil, or_false,
    not_or, not_exists, not_and]
  refine ⟨by decide, fun c inside => escaped c ?_, by decide⟩
  rintro rfl
  exact h inside

theorem isSingleLine_row {ps : List Pair} (nonempty : ps ≠ [])
    (oneLine : ∀ p ∈ ps, '\n' ∉ p.1 ∧ '\n' ∉ p.2) : IsSingleLine (row ps) := by
  obtain ⟨r, first, last⟩ := exists_row_eq nonempty
  refine .of_ends (congrArg List.head? first) last ⟨by decide, by decide⟩ (by decide) ?_
  obtain ⟨p, ps, rfl⟩ := List.exists_cons_of_ne_nil nonempty
  have each : ∀ q ∈ p :: ps, '\n' ∉ written q := by
    intro q member
    obtain ⟨key, value⟩ := oneLine q member
    simp [written, newline_notMem_quoted key, newline_notMem_quoted value]
  rw [List.forall_mem_cons] at each
  simp only [row_cons, List.mem_append, List.mem_flatMap, List.mem_cons, not_or, not_exists,
    not_and]
  exact ⟨each.1, fun q member => ⟨by decide, each.2 q member⟩⟩

/-! ## Bodies -/

section

variable {ps : List Pair} (nonempty : ps ≠ []) (filled : ∀ p ∈ ps, p.1 ≠ [])
  (trimmed : trim (row ps) = row ps)
include nonempty filled trimmed

theorem pairs?_row : pairs? (row ps) = some ps := by
  obtain ⟨r, first, -⟩ := exists_row_eq nonempty
  have start : (row ps).isEmpty = false := by rw [first]; rfl
  rw [pairs?, trimmed, start, if_neg Bool.false_ne_true, all?_row filled]

theorem settings?_row : settings? (row ps) = some ps := by
  have pairs := all?_row filled
  obtain ⟨p, ps, rfl⟩ := List.exists_cons_of_ne_nil nonempty
  -- The key of the first pair is followed by an equals sign.
  have key : key? (row (p :: ps)) =
      some (p.1, '=' :: (quoted p.2 ++ ps.flatMap fun p => ' ' :: written p)) := by
    rw [row_cons, written, List.append_assoc, List.cons_append]
    exact key?_quoted (filled p List.mem_cons_self) _
  rw [settings?, trimmed, key, pairs]
  rfl

end

end Pair

/-- Every row of pairs is read back by LABEL and by ENV, just as it was written: in its order, with
keys that occur twice and with empty values. -/
theorem Statement.readAll_quoted_row {ps : List Pair} (nonempty : ps ≠ [])
    (each : ∀ p ∈ ps, p.1 ≠ [] ∧ '\n' ∉ p.1 ∧ '\n' ∉ p.2) :
    readAll ("LABEL ".toList ++ Pair.row ps) =
        .ok [⟨.label ps, 1, "LABEL ".toList ++ Pair.row ps⟩] ∧
      readAll ("ENV ".toList ++ Pair.row ps) =
        .ok [⟨.env ps, 1, "ENV ".toList ++ Pair.row ps⟩] := by
  have filled : ∀ p ∈ ps, p.1 ≠ [] := fun p member => (each p member).1
  have single := Pair.isSingleLine_row nonempty fun p member => (each p member).2
  constructor
  · have read : Instruction.readLine? ("LABEL ".toList ++ Pair.row ps) = some (.label ps) := by
      refine Instruction.readLine?_eq (k := .label) (congrArg some single.skipBlanks_eq) ?_
      exact congrArg (Option.map _) (Pair.pairs?_row nonempty filled single.trimmed)
    exact (readAll_eq_ok_iff_of_isSingleLine
      (single.append (by decide) (by rintro c ⟨⟩; decide))).2 ⟨_, read, rfl⟩
  · have read : Instruction.readLine? ("ENV ".toList ++ Pair.row ps) = some (.env ps) := by
      refine Instruction.readLine?_eq (k := .env) (congrArg some single.skipBlanks_eq) ?_
      exact congrArg (Option.map _) (Pair.settings?_row nonempty filled single.trimmed)
    exact (readAll_eq_ok_iff_of_isSingleLine
      (single.append (by decide) (by rintro c ⟨⟩; decide))).2 ⟨_, read, rfl⟩

/-- A key that is there twice, an empty value, and each mark at the beginning and at the end of a
side. -/
theorem Statement.readAll_quoted_row_of_marks :
    let ps := [("a=b", "#'\"c d\\"), ("$x", ""), ("\\\" ", "=\t"), ("$x", "\"=\"\\")].map
      fun p => (p.1.toList, p.2.toList)
    let row := "\"a=b\"=\"#'\\\"c d\\\\\" \"$x\"=\"\" \"\\\\\\\" \"=\"=\t\" ".toList ++
      "\"$x\"=\"\\\"=\\\"\\\\\"".toList
    readAll ("LABEL ".toList ++ row) = .ok [⟨.label ps, 1, "LABEL ".toList ++ row⟩] ∧
      readAll ("ENV ".toList ++ row) = .ok [⟨.env ps, 1, "ENV ".toList ++ row⟩] := by
  intro ps row
  have written : row = Pair.row ps := by rfl
  rw [written]
  exact readAll_quoted_row (List.cons_ne_nil _ _) (by decide)

end ImageAudit
