import ImageAudit.Proofs.Statement.LineByLine

/-!
# Writing arrays

Any row of texts can be written as an array of quoted items, in double or in single quotation marks,
and every instruction that takes an array reads the same texts from it.

* `Arguments.array` writes an array, `Arguments.wholeArray?_array` says that it is read back.
* `TakesArray` are the instructions that take one, `Statement.readAll_array` says that a line of
  such an instruction is read with the items of its array.
-/

namespace ImageAudit

open Text Layout

namespace Arguments

/-- A character as it is written between marks `q`. -/
def escape (q c : Char) : Text :=
  if c = '\n' then ['\\', 'n']
  else if c = '\t' then ['\\', 't']
  else if c = '\r' then ['\\', 'r']
  else if c = '\\' ∨ c = q then ['\\', c]
  else [c]

/-- An item between marks `q`. -/
def quotedItem (q : Char) (item : Text) : Text := q :: (item.flatMap (escape q) ++ [q])

/-- Items between marks `q` as an array. -/
def array (q : Char) (items : List Text) : Text :=
  '[' :: (join [',', ' '] (items.map (quotedItem q)) ++ [']'])

variable {q : Char}

/-! ## Items -/

theorem ne_of_isQuote (quote : isQuote q = true) {c : Char} (other : isQuote c = false) :
    c ≠ q := by
  rintro rfl
  rw [quote] at other
  cases other

theorem itemBody?_end (r : Text) : itemBody? q (q :: r) = some ([], r) := by
  cases r <;> simp [itemBody?]

theorem itemBody?_escape (quote : isQuote q = true) (c : Char) (r : Text) :
    itemBody? q (escape q c ++ r) = (itemBody? q r).map fun p => (c :: p.1, p.2) := by
  have backslash : '\\' ≠ q := ne_of_isQuote quote (by decide)
  -- A backslash and the character after it are read as one.
  have pair (e : Char) : itemBody? q (['\\', e] ++ r) =
      (itemBody? q r).map fun p => (unescape q e ++ p.1, p.2) := by
    simp [itemBody?, backslash]
  have mark : unescape q q = [q] := by
    have letter {e : Char} (other : isQuote e = false) : q ≠ e := (ne_of_isQuote quote other).symm
    rw [unescape, if_neg (letter (by decide)), if_neg (letter (by decide)),
      if_neg (letter (by decide)), if_neg (letter (by decide)), if_pos rfl]
  rw [escape]
  split
  · next lineFeed => rw [pair, lineFeed]; rfl
  split
  · next tab => rw [pair, tab]; rfl
  split
  · next carriageReturn => rw [pair, carriageReturn]; rfl
  split
  · next special =>
    rcases special with rfl | rfl
    · exact pair '\\'
    · rw [pair, mark]
      rfl
  · next plain =>
    rw [not_or] at plain
    cases r <;> simp [itemBody?, plain.1, plain.2]

theorem itemBody?_escapes (quote : isQuote q = true) (item r : Text) :
    itemBody? q (item.flatMap (escape q) ++ q :: r) = some (item, r) := by
  induction item with
  | nil => exact itemBody?_end r
  | cons c item ih => simp [itemBody?_escape quote, ih]

theorem item?_quotedItem (quote : isQuote q = true) (item r : Text) :
    item? (quotedItem q item ++ r) = some (item, r) := by
  simp [quotedItem, item?, quote, itemBody?_escapes quote]

/-! ## Rows of items -/

theorem skipBlanks_eq_self {c : Char} (h : isBlank c = false) (r : Text) :
    skipBlanks (c :: r) = c :: r :=
  List.dropWhile_cons_of_neg (by simp [h])

theorem skipBlanks_quotedItem (quote : isQuote q = true) (item r : Text) :
    skipBlanks (quotedItem q item ++ r) = quotedItem q item ++ r := by
  have space : ' ' ≠ q := ne_of_isQuote quote (by decide)
  have tab : '\t' ≠ q := ne_of_isQuote quote (by decide)
  exact skipBlanks_eq_self (by simp [isBlank, space.symm, tab.symm]) _

theorem nextItem?_comma (quote : isQuote q = true) (item r : Text) :
    nextItem? (',' :: ' ' :: (quotedItem q item ++ r)) = some (item, r) := by
  have read : nextItem? (',' :: ' ' :: (quotedItem q item ++ r)) =
      item? (skipBlanks (quotedItem q item ++ r)) := rfl
  rw [read, skipBlanks_quotedItem quote, item?_quotedItem quote]

theorem moreItems_of_none {t : Text} (last : nextItem? t = none) : moreItems t = ([], t) := by
  rw [moreItems]
  split
  · rfl
  · next found =>
    rw [last] at found
    cases found

theorem moreItems_of_some {t item r : Text} (next : nextItem? t = some (item, r)) :
    moreItems t = (item :: (moreItems r).1, (moreItems r).2) := by
  rw [moreItems]
  split
  · next found =>
    rw [next] at found
    cases found
  · next found =>
    rw [next] at found
    cases found
    rfl

theorem moreItems_items (quote : isQuote q = true) (items : List Text) (r : Text) :
    moreItems ((items.flatMap fun item => ',' :: ' ' :: quotedItem q item) ++ ']' :: r) =
      (items, ']' :: r) := by
  induction items with
  | nil => exact moreItems_of_none rfl
  | cons item items ih =>
    rw [List.flatMap_cons, List.append_assoc, List.cons_append, List.cons_append,
      moreItems_of_some (nextItem?_comma quote item _), ih]

theorem join_cons (sep x : Text) (xs : List Text) :
    join sep (x :: xs) = x ++ xs.flatMap (sep ++ ·) := by
  induction xs generalizing x with
  | nil => simp [join]
  | cons y ys ih =>
    have cut : join sep (x :: y :: ys) = x ++ (sep ++ join sep (y :: ys)) := by simp [join]
    rw [cut, ih, List.flatMap_cons, List.append_assoc]

/-- An array that is written down is read back, whatever its items hold. -/
theorem execArray?_array (quote : isQuote q = true) {items : List Text} (filled : items ≠ []) :
    execArray? (array q items) = some (items, []) := by
  obtain ⟨item, items, rfl⟩ := List.exists_cons_of_ne_nil filled
  have written : array q (item :: items) =
      '[' :: (quotedItem q item ++
        ((items.flatMap fun item => ',' :: ' ' :: quotedItem q item) ++ [']'])) := by
    rw [array, List.map_cons, join_cons, List.flatMap_map, List.append_assoc]
    rfl
  rw [written, execArray?, skipBlanks_quotedItem quote, item?_quotedItem quote]
  simp only [Option.bind_eq_bind, Option.bind_some]
  rw [moreItems_items quote]
  rfl

theorem wholeArray?_array (quote : isQuote q = true) {items : List Text} (filled : items ≠ []) :
    wholeArray? (array q items) = some items := by
  rw [wholeArray?, execArray?_array quote filled]
  rfl

theorem read?_array (quote : isQuote q = true) {items : List Text} (filled : items ≠ []) :
    read? (array q items) = some (exec items) := by
  rw [read?, wholeArray?_array quote filled]

theorem newline_notMem_escape (q c : Char) : '\n' ∉ escape q c := by
  rw [escape]
  split
  · decide
  next notLineFeed =>
    split
    · decide
    split
    · decide
    split
    · simpa using Ne.symm notLineFeed
    · simpa using Ne.symm notLineFeed

theorem newline_notMem_quotedItem (quote : isQuote q = true) (item : Text) :
    '\n' ∉ quotedItem q item := by
  have mark : '\n' ≠ q := ne_of_isQuote quote (by decide)
  simp [quotedItem, mark, newline_notMem_escape]

theorem newline_notMem_array (quote : isQuote q = true) (items : List Text) :
    '\n' ∉ array q items := by
  rw [array]
  cases items with
  | nil => simp [join]
  | cons item items => simp [join_cons, newline_notMem_quotedItem quote]

theorem isSingleLine_array (quote : isQuote q = true) (items : List Text) :
    IsSingleLine (array q items) := by
  have last : (array q items).getLast? = some ']' := by
    rw [array, ← List.cons_append, List.getLast?_concat]
  exact .of_ends rfl last ⟨by decide, by decide⟩ (by decide) (newline_notMem_array quote items)

end Arguments

/-! ## Instructions with an array -/

theorem HealthOption.readAll_of_none {t : Text} (plain : read? t = none) :
    readAll t = ([], t) := by
  rw [readAll]
  split
  · rfl
  · next found =>
    rw [plain] at found
    cases found

/-- What is written before the array, and the instruction its items make. -/
inductive TakesArray : (front : Text) → (List Text → Instruction) → Prop where
  | run : TakesArray "RUN ".toList fun items => .run ⟨.exec items, []⟩
  | cmd : TakesArray "CMD ".toList fun items => .cmd (.exec items)
  | entrypoint : TakesArray "ENTRYPOINT ".toList fun items => .entrypoint (.exec items)
  | shell : TakesArray "SHELL ".toList fun items => .shell items
  | volume : TakesArray "VOLUME ".toList fun items => .volume items
  | healthCheck : TakesArray "HEALTHCHECK CMD ".toList fun items =>
      .healthCheck (.command (.exec items) .empty)

namespace TakesArray

variable {front : Text} {f : List Text → Instruction} {q : Char} {items : List Text}

theorem readLine?_eq (takes : TakesArray front f) (quote : isQuote q = true) (filled : items ≠ []) :
    Instruction.readLine? (front ++ Arguments.array q items) = some (f items) := by
  have arguments := Arguments.read?_array quote filled
  have whole := Arguments.wholeArray?_array quote filled
  cases takes with
  | run =>
    refine Instruction.readLine?_eq (k := .run) rfl ?_
    exact congrArg (Option.map _) (Instruction.readRun?_eq rfl arguments)
  | cmd =>
    refine Instruction.readLine?_eq (k := .cmd) rfl ?_
    exact congrArg (Option.map _) arguments
  | entrypoint =>
    refine Instruction.readLine?_eq (k := .entrypoint) rfl ?_
    exact congrArg (Option.map _) arguments
  | shell =>
    refine Instruction.readLine?_eq (k := .shell) rfl ?_
    exact congrArg (Option.map _) (Arguments.execArray?_array quote filled)
  | volume =>
    refine Instruction.readLine?_eq (k := .volume) rfl ?_
    change (Instruction.readVolume? (Arguments.array q items)).map Instruction.alone = _
    rw [Instruction.readVolume?, whole]
    rfl
  | healthCheck =>
    refine Instruction.readLine?_eq (k := .healthCheck) (b := "CMD ".toList ++ _) rfl ?_
    change (HealthCheck.read? ("CMD ".toList ++ Arguments.array q items)).map _ = _
    have off : HealthCheck.isOff ("CMD ".toList ++ Arguments.array q items) = false := rfl
    rw [HealthCheck.read?, off, HealthOption.readAll_of_none rfl]
    change ((Arguments.read? (Arguments.array q items)).bind fun arguments =>
      some (HealthCheck.command arguments .empty)).map _ = _
    rw [arguments]
    rfl

theorem isSingleLine (takes : TakesArray front f) (quote : isQuote q = true) :
    IsSingleLine (front ++ Arguments.array q items) := by
  refine (Arguments.isSingleLine_array quote items).append ?_ ?_
  · cases takes <;> decide
  · rintro c first
    cases takes <;> cases first <;> decide

end TakesArray

/-- Every instruction that takes an array is read back with the items that were written, which may
hold brackets, commas, quotation marks and backslashes as they like. -/
theorem Statement.readAll_array {front : Text} {f : List Text → Instruction}
    (takes : TakesArray front f) {q : Char} (quote : isQuote q = true) {items : List Text}
    (filled : items ≠ []) :
    readAll (front ++ Arguments.array q items) =
      .ok [⟨f items, 1, front ++ Arguments.array q items⟩] := by
  have read := read_eq (l := ⟨1, _⟩) (takes.readLine?_eq quote filled)
  rw [readAll, (takes.isSingleLine quote).logicalLines_eq]
  exact readLines_cons read rfl

/-- A text like a flag, an array within the array, quotation marks after backslashes, a text of
three lines and one of no characters. -/
theorem Statement.readAll_array_of_nested :
    let items := ["--mount=x", "['a', \"b\"]", "\\'\\\"\\", "\r\n\n# x\t\\", ""].map String.toList
    let run := "RUN ['--mount=x', '[\\'a\\', \"b\"]', '\\\\\\'\\\\\"\\\\', ".toList ++
      "'\\r\\n\\n# x\\t\\\\', '']".toList
    let check := "HEALTHCHECK CMD [\"--mount=x\", \"['a', \\\"b\\\"]\", ".toList ++
      "\"\\\\'\\\\\\\"\\\\\", \"\\r\\n\\n# x\\t\\\\\", \"\"]".toList
    readAll run = .ok [⟨.run ⟨.exec items, []⟩, 1, run⟩] ∧
      readAll check = .ok [⟨.healthCheck (.command (.exec items) .empty), 1, check⟩] := by
  intro items run check
  have filled : items ≠ [] := List.cons_ne_nil _ _
  have single : run = "RUN ".toList ++ Arguments.array '\'' items := by rfl
  have double : check = "HEALTHCHECK CMD ".toList ++ Arguments.array '\"' items := by rfl
  rw [single, double]
  exact ⟨readAll_array .run (by decide) filled, readAll_array .healthCheck (by decide) filled⟩

end ImageAudit
