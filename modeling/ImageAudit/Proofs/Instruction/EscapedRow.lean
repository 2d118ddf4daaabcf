import ImageAudit.Proofs.Dockerfile.Rereading
import ImageAudit.Proofs.Instruction.ExecArray
import ImageAudit.Proofs.Layout.Spaces
import ImageAudit.Proofs.Statement.SingleLine

/-!
# Writing paths as words

Any row of paths that are not empty and hold no backslash can be written as words: white space that
belongs to a path stands behind a backslash, and a space stands between each two paths.

* `escapedRow` writes paths, `escapedWords_escapedRow` says that they are read back.
* `Statement.readAll_escaped_paths`: the same of a line of VOLUME.
* `Dockerfile.ofText_escapedRow`: what is stored if the line is laid out first. The space between
  two paths is lost if the first of them ends in a space, and both are taken for one;
  `Dockerfile.ofText_escapedRow_eq_iff` says which paths are spared.
-/

namespace ImageAudit

open Text Layout

/-! ## Writing -/

/-- A character of a path as it is written in a word. -/
def escapeSpace (c : Char) : Text := if isSpace c then ['\\', c] else [c]

/-- A path as a word. -/
def escapedPath (p : Text) : Text := p.flatMap escapeSpace

/-- Paths as words, with a space between each two. -/
def escapedRow (ps : List Text) : Text := join [' '] (ps.map escapedPath)

variable {c : Char} {p r : Text} {ps : List Text}

theorem escapeSpace_of_isSpace (space : isSpace c = true) : escapeSpace c = ['\\', c] :=
  if_pos space

theorem escapeSpace_of_not_isSpace (solid : isSpace c = false) : escapeSpace c = [c] :=
  if_neg (ne_true_of_eq_false solid)

theorem escapedPath_cons (c : Char) (p : Text) :
    escapedPath (c :: p) = escapeSpace c ++ escapedPath p :=
  List.flatMap_cons

theorem escapedPath_append (p q : Text) :
    escapedPath (p ++ q) = escapedPath p ++ escapedPath q :=
  List.flatMap_append

theorem escapedRow_singleton (p : Text) : escapedRow [p] = escapedPath p := by
  simp [escapedRow, join]

theorem escapedRow_cons_cons (p q : Text) (ps : List Text) :
    escapedRow (p :: q :: ps) = escapedPath p ++ ' ' :: escapedRow (q :: ps) := by
  simp [escapedRow, join]

theorem escapedRow_append_cons (p q : Text) (ps : List Text) :
    escapedRow ((p ++ q) :: ps) = escapedPath p ++ escapedRow (q :: ps) := by
  cases ps with
  | nil => rw [escapedRow_singleton, escapedRow_singleton, escapedPath_append]
  | cons r ps =>
    rw [escapedRow_cons_cons, escapedRow_cons_cons, escapedPath_append, List.append_assoc]

theorem escapedPath_eq_self (solid : ∀ c ∈ p, isSpace c = false) : escapedPath p = p := by
  induction p with
  | nil => rfl
  | cons c p ih =>
    rw [List.forall_mem_cons] at solid
    rw [escapedPath_cons, escapeSpace_of_not_isSpace solid.1, ih solid.2, List.singleton_append]

/-- Paths without white space are written as they are. -/
theorem escapedRow_eq_join (solid : ∀ p ∈ ps, ∀ c ∈ p, isSpace c = false) :
    escapedRow ps = join [' '] ps := by
  rw [escapedRow, map_eq_self_iff.2 fun p member => escapedPath_eq_self (solid p member)]

/-! ## Reading words -/

theorem escapedWordsFrom_cons (unescaped : c ≠ '\\') (r : Text) :
    escapedWordsFrom (c :: r) =
      if isSpace c then ([], escapedWords r)
      else (c :: (escapedWordsFrom r).1, (escapedWordsFrom r).2) := by
  rw [escapedWordsFrom.eq_def]
  split
  · next h => cases h
  · next h => exact absurd (List.cons.inj h).1 unescaped
  · next h => exact absurd (List.cons.inj h).1 unescaped
  · next h =>
    cases h
    rfl

theorem escapedWordsFrom_backslash (c : Char) (r : Text) :
    escapedWordsFrom ('\\' :: c :: r) =
      (if isSpace c then c :: (escapedWordsFrom r).1 else '\\' :: c :: (escapedWordsFrom r).1,
        (escapedWordsFrom r).2) :=
  rfl

/-- A character that is written belongs to the word, also if it is white space. -/
theorem escapedWordsFrom_escapeSpace (unescaped : c ≠ '\\') (r : Text) :
    escapedWordsFrom (escapeSpace c ++ r) =
      (c :: (escapedWordsFrom r).1, (escapedWordsFrom r).2) := by
  cases space : isSpace c with
  | true =>
    rw [escapeSpace_of_isSpace space, List.cons_append, List.singleton_append,
      escapedWordsFrom_backslash, if_pos space]
  | false =>
    rw [escapeSpace_of_not_isSpace space, List.singleton_append, escapedWordsFrom_cons unescaped,
      space, if_neg Bool.false_ne_true]

theorem escapedWordsFrom_escapedPath (unescaped : '\\' ∉ p) (r : Text) :
    escapedWordsFrom (escapedPath p ++ r) =
      (p ++ (escapedWordsFrom r).1, (escapedWordsFrom r).2) := by
  induction p with
  | nil => rfl
  | cons c p ih =>
    rw [List.mem_cons, not_or] at unescaped
    rw [escapedPath_cons, List.append_assoc, escapedWordsFrom_escapeSpace (Ne.symm unescaped.1),
      ih unescaped.2]
    rfl

/-- A path is a word of its own if no word goes on after it. -/
theorem escapedWords_escapedPath (path : p ≠ [] ∧ '\\' ∉ p)
    (after : escapedWordsFrom r = ([], ps)) : escapedWords (escapedPath p ++ r) = p :: ps := by
  rw [escapedWords, escapedWordsFrom_escapedPath path.2, after, List.append_nil]
  exact if_neg (by simpa using path.1)

/-- Paths that are written as words are read back, whatever white space they hold. -/
theorem escapedWords_escapedRow (paths : ∀ p ∈ ps, p ≠ [] ∧ '\\' ∉ p) :
    escapedWords (escapedRow ps) = ps := by
  -- By the paths: the space after the first one ends its word, and what follows is a row again.
  induction ps with
  | nil => rfl
  | cons p ps ih =>
    rw [List.forall_mem_cons] at paths
    cases ps with
    | nil =>
      rw [escapedRow_singleton, ← List.append_nil (escapedPath p)]
      exact escapedWords_escapedPath paths.1 rfl
    | cons q ps =>
      have after : escapedWordsFrom (' ' :: escapedRow (q :: ps)) = ([], q :: ps) := by
        rw [escapedWordsFrom_cons (by decide), if_pos (by decide), ih paths.2]
      rw [escapedRow_cons_cons, escapedWords_escapedPath paths.1 after]

/-! ## One line -/

theorem newline_notMem_escapedPath (oneLine : '\n' ∉ p) : '\n' ∉ escapedPath p := by
  rw [escapedPath, List.mem_flatMap]
  rintro ⟨c, member, inside⟩
  have other : '\n' ≠ c := by
    rintro rfl
    exact oneLine member
  rw [escapeSpace] at inside
  split at inside <;> simp [other] at inside

theorem newline_notMem_escapedRow (oneLine : ∀ p ∈ ps, '\n' ∉ p) : '\n' ∉ escapedRow ps := by
  induction ps with
  | nil => exact List.not_mem_nil
  | cons p ps ih =>
    rw [List.forall_mem_cons] at oneLine
    have path := newline_notMem_escapedPath oneLine.1
    cases ps with
    | nil => rwa [escapedRow_singleton]
    | cons q ps =>
      rw [escapedRow_cons_cons, List.mem_append, List.mem_cons, not_or, not_or]
      exact ⟨path, by decide, ih oneLine.2⟩

/-- A path that begins with white space begins with a backslash once it is written. -/
theorem head?_escapedPath (c : Char) (p : Text) :
    (escapedPath (c :: p)).head? = some (if isSpace c then '\\' else c) := by
  rw [escapedPath_cons, escapeSpace]
  split <;> rfl

theorem isSpace_of_head?_escapedPath (first : (escapedPath p).head? = some c) :
    isSpace c = false := by
  cases p with
  | nil => cases first
  | cons d p =>
    rw [head?_escapedPath, Option.some.injEq] at first
    subst first
    split
    · decide
    · next solid => simpa using solid

theorem head?_escapedRow (filled : p ≠ []) (ps : List Text) :
    (escapedRow (p :: ps)).head? = (escapedPath p).head? := by
  cases ps with
  | nil => rw [escapedRow_singleton]
  | cons q ps =>
    obtain ⟨c, p, rfl⟩ := List.exists_cons_of_ne_nil filled
    rw [escapedRow_cons_cons, List.head?_append, head?_escapedPath]
    rfl

theorem getLast?_escapeSpace (c : Char) : (escapeSpace c).getLast? = some c := by
  rw [escapeSpace]
  split <;> rfl

theorem getLast?_escapedPath (p : Text) : (escapedPath p).getLast? = p.getLast? := by
  rcases List.eq_nil_or_concat' p with rfl | ⟨p, c, rfl⟩
  · rfl
  · rw [escapedPath_append, List.getLast?_append, List.getLast?_concat]
    simp [escapedPath, getLast?_escapeSpace]

theorem getLast?_escapedRow (final : ps.getLast? = some p) (last : p.getLast? = some c) :
    (escapedRow ps).getLast? = some c := by
  induction ps with
  | nil => cases final
  | cons q ps ih =>
    cases ps with
    | nil =>
      obtain rfl : q = p := by simpa using final
      rw [escapedRow_singleton, getLast?_escapedPath, last]
    | cons r ps =>
      rw [List.getLast?_cons_cons] at final
      rw [escapedRow_cons_cons, List.getLast?_append, List.getLast?_cons, ih final]
      rfl

/-- Written paths are one line if no path holds a line feed and the last one does not end in white
space. -/
theorem isSingleLine_escapedRow (paths : ∀ p ∈ ps, p ≠ [] ∧ '\\' ∉ p)
    (oneLine : ∀ p ∈ ps, '\n' ∉ p)
    (last : ∃ p c, ps.getLast? = some p ∧ p.getLast? = some c ∧ isSpace c = false) :
    IsSingleLine (escapedRow ps) := by
  obtain ⟨q, d, final, last, solid⟩ := last
  have member := List.mem_of_getLast? final
  have closed : d ≠ '\\' := by
    rintro rfl
    exact (paths q member).2 (List.mem_of_getLast? last)
  have ending := getLast?_escapedRow final last
  obtain ⟨p, ps, rfl⟩ := List.exists_cons_of_ne_nil (List.ne_nil_of_mem member)
  have filled := (paths p List.mem_cons_self).1
  obtain ⟨c, p, rfl⟩ := List.exists_cons_of_ne_nil filled
  have first := head?_escapedRow filled ps
  rw [head?_escapedPath] at first
  exact .of_ends first ending ⟨isSpace_of_head?_escapedPath (head?_escapedPath c p), solid⟩ closed
    (newline_notMem_escapedRow oneLine)

/-! ## Volumes -/

theorem Arguments.wholeArray?_of_head? {t : Text} (noArray : t.head? ≠ some '[') :
    wholeArray? t = none := by
  cases t with
  | nil => rfl
  | cons c t =>
    have other : c ≠ '[' := by
      rintro rfl
      exact noArray rfl
    simp [wholeArray?, execArray?, other]

/-- A line of VOLUME that holds no array stores the words after the keyword. -/
theorem Statement.readAll_volume {t : Text} (single : IsSingleLine t) (noArray : t.head? ≠ some '[')
    (filled : escapedWords t ≠ []) :
    readAll ("VOLUME ".toList ++ t) =
      .ok [⟨.volume (escapedWords t), 1, "VOLUME ".toList ++ t⟩] := by
  have read : Instruction.readLine? ("VOLUME ".toList ++ t) = some (.volume (escapedWords t)) := by
    refine Instruction.readLine?_eq (k := .volume) (congrArg some single.skipBlanks_eq) ?_
    change (Instruction.readVolume? t).map Instruction.alone = _
    rw [Instruction.readVolume?, Arguments.wholeArray?_of_head? noArray]
    exact congrArg (Option.map _) (if_neg (by simpa using filled))
  have line : IsSingleLine ("VOLUME ".toList ++ t) :=
    single.append (by decide) (by rintro c ⟨⟩; decide)
  exact (readAll_eq_ok_iff_of_isSingleLine line).2 ⟨_, read, rfl⟩

theorem head?_escapedRow_ne (paths : ∀ p ∈ ps, p ≠ [] ∧ '\\' ∉ p)
    (first : ∀ p, ps.head? = some p → p.head? ≠ some '[') : (escapedRow ps).head? ≠ some '[' := by
  cases ps with
  | nil => exact (Option.some_ne_none _).symm
  | cons p ps =>
    have filled := (paths p List.mem_cons_self).1
    have start := first p rfl
    obtain ⟨c, p, rfl⟩ := List.exists_cons_of_ne_nil filled
    rw [head?_escapedRow filled, head?_escapedPath]
    split
    · decide
    · exact start

/-- A row of paths is read back from its words, and a line of VOLUME stores it, if no path holds a
line feed, the last one does not end in white space and the first one does not begin with the
bracket of an array. -/
theorem Statement.readAll_escaped_paths {ps : List Text} (paths : ∀ p ∈ ps, p ≠ [] ∧ '\\' ∉ p) :
    escapedWords (escapedRow ps) = ps ∧
      ((∀ p ∈ ps, '\n' ∉ p) →
        (∃ p c, ps.getLast? = some p ∧ p.getLast? = some c ∧ isSpace c = false) →
        (∀ p, ps.head? = some p → p.head? ≠ some '[') →
        readAll ("VOLUME ".toList ++ escapedRow ps) =
          .ok [⟨.volume ps, 1, "VOLUME ".toList ++ escapedRow ps⟩]) := by
  have words := escapedWords_escapedRow paths
  refine ⟨words, fun oneLine last first => ?_⟩
  have single := isSingleLine_escapedRow paths oneLine last
  have filled : escapedWords (escapedRow ps) ≠ [] := by
    rw [words]
    rintro rfl
    exact single.filled rfl
  have stored := readAll_volume single (head?_escapedRow_ne paths first) filled
  rwa [words] at stored

/-- White space of several sorts at both ends of paths and between them, and paths that look like an
array, a comment and a variable. -/
theorem Statement.readAll_escaped_paths_of_spaces :
    let paths := ["my data", " \t", "[\"a\"]", "\u2003#\r", "$x  y"].map String.toList
    let row := "my\\ data \\ \\\t [\"a\"] \\\u2003#\\\r $x\\ \\ y".toList
    escapedWords row = paths ∧
      readAll ("VOLUME ".toList ++ row) = .ok [⟨.volume paths, 1, "VOLUME ".toList ++ row⟩] := by
  intro paths row
  have written : row = escapedRow paths := by rfl
  rw [written]
  obtain ⟨words, stored⟩ := readAll_escaped_paths (show ∀ p ∈ paths, p ≠ [] ∧ '\\' ∉ p by decide)
  exact ⟨words, stored (by decide) ⟨_, _, rfl, rfl, by decide⟩ (by rintro p ⟨⟩; decide)⟩

/-! ## Laid out lines -/

/-- Paths from `p` on where each path that ends in a space takes the next one along. -/
def mergeFrom (p : Text) : List Text → List Text
  | [] => [p]
  | q :: ps => if p.getLast? = some ' ' then mergeFrom (p ++ q) ps else p :: mergeFrom q ps

/-- Paths where each that ends in a space takes the next one along. -/
def mergeSpaced : List Text → List Text
  | [] => []
  | p :: ps => mergeFrom p ps

theorem exists_mergeFrom_eq (p : Text) (ps : List Text) : ∃ q qs, mergeFrom p ps = q :: qs := by
  induction ps generalizing p with
  | nil => exact ⟨p, [], rfl⟩
  | cons q ps ih =>
    rw [mergeFrom]
    split
    · exact ih (p ++ q)
    · exact ⟨p, mergeFrom q ps, rfl⟩

theorem length_mergeFrom_le (p : Text) (ps : List Text) :
    (mergeFrom p ps).length ≤ ps.length + 1 := by
  induction ps generalizing p with
  | nil => exact Nat.le_refl 1
  | cons q ps ih =>
    have joined := ih (p ++ q)
    have apart := ih q
    rw [mergeFrom]
    split <;> simp only [List.length_cons] <;> omega

theorem mergeFrom_eq_self_iff :
    mergeFrom p ps = p :: ps ↔ ∀ q ∈ (p :: ps).dropLast, q.getLast? ≠ some ' ' := by
  induction ps generalizing p with
  | nil => simp [mergeFrom]
  | cons q ps ih =>
    rw [List.dropLast_cons_cons, List.forall_mem_cons, ← ih, mergeFrom]
    split
    · next space =>
      -- Where two paths have become one, there are fewer of them.
      have shorter := length_mergeFrom_le (p ++ q) ps
      refine iff_of_false (fun same => ?_) fun h => h.1 space
      rw [same, List.length_cons, List.length_cons] at shorter
      omega
    · next solid => simp [solid]

/-- All paths stay as they are exactly if none but the last ends in a space. -/
theorem mergeSpaced_eq_self_iff :
    mergeSpaced ps = ps ↔ ∀ p ∈ ps.dropLast, p.getLast? ≠ some ' ' := by
  cases ps with
  | nil => simp [mergeSpaced]
  | cons p ps => exact mergeFrom_eq_self_iff

theorem forall_mem_mergeFrom (paths : ∀ q ∈ p :: ps, q ≠ [] ∧ '\\' ∉ q) :
    ∀ q ∈ mergeFrom p ps, q ≠ [] ∧ '\\' ∉ q := by
  induction ps generalizing p with
  | nil => exact paths
  | cons q ps ih =>
    rw [List.forall_mem_cons, List.forall_mem_cons] at paths
    obtain ⟨first, second, rest⟩ := paths
    rw [mergeFrom]
    split
    · refine ih (List.forall_mem_cons.2 ⟨⟨by simp [first.1], ?_⟩, rest⟩)
      rw [List.mem_append, not_or]
      exact ⟨first.2, second.2⟩
    · exact List.forall_mem_cons.2 ⟨first, ih (List.forall_mem_cons.2 ⟨second, rest⟩)⟩

theorem hasDoubleSpace_escapedPath (p : Text) : hasDoubleSpace (escapedPath p) = false := by
  induction p with
  | nil => rfl
  | cons c p ih =>
    have single : hasDoubleSpace (escapeSpace c) = false := by
      rw [escapeSpace]
      split <;> simp [hasDoubleSpace_cons, hasDoubleSpace]
    have solid : (escapedPath p).head? ≠ some ' ' := fun first =>
      absurd (isSpace_of_head?_escapedPath first) (by decide)
    rw [escapedPath_cons]
    exact hasDoubleSpace_append_eq_false single ih solid

/-- Of written paths, the space after one that ends in a space is lost. -/
theorem squeezeSpaces_escapedRow (filled : ∀ q ∈ p :: ps, q ≠ []) :
    squeezeSpaces (escapedRow (p :: ps)) = escapedRow (mergeFrom p ps) := by
  -- By the paths after `p`, which stands for all that has been taken for one path.
  induction ps generalizing p with
  | nil =>
    rw [mergeFrom, escapedRow_singleton, squeezeSpaces_eq_self (hasDoubleSpace_escapedPath p)]
  | cons q ps ih =>
    rw [List.forall_mem_cons, List.forall_mem_cons] at filled
    obtain ⟨first, second, rest⟩ := filled
    rw [mergeFrom]
    split
    · next space =>
      -- The last backslash of `p` has two spaces after it. One of them is lost, and what is left is
      -- how `p` and `q` are written as one path.
      obtain ⟨front, rfl⟩ := List.getLast?_eq_some_iff.1 space
      have written : escapedPath (front ++ [' ']) = escapedPath front ++ ['\\'] ++ [' '] := by
        rw [escapedPath_append, List.append_assoc]
        rfl
      have apart : escapedRow ((front ++ [' ']) :: q :: ps) =
          escapedPath front ++ ['\\'] ++ ' ' :: ' ' :: escapedRow (q :: ps) := by
        rw [escapedRow_cons_cons, written, List.append_assoc, List.singleton_append]
      have merged : escapedRow ((front ++ [' '] ++ q) :: ps) =
          escapedPath front ++ ['\\'] ++ ' ' :: escapedRow (q :: ps) := by
        rw [escapedRow_append_cons, written, List.append_assoc, List.singleton_append]
      rw [apart, squeezeSpaces_append_double, ← merged]
      exact ih (List.forall_mem_cons.2 ⟨by simp, rest⟩)
    · next solid =>
      have after : (escapedRow (q :: ps)).head? ≠ some ' ' := by
        rw [head?_escapedRow second]
        exact fun start => absurd (isSpace_of_head?_escapedPath start) (by decide)
      obtain ⟨q', qs, split⟩ := exists_mergeFrom_eq q ps
      have rows := ih (List.forall_mem_cons.2 ⟨second, rest⟩)
      rw [split] at rows ⊢
      rw [escapedRow_cons_cons, squeezeSpaces_append (.inl (by rwa [getLast?_escapedPath])),
        squeezeSpaces_eq_self (hasDoubleSpace_escapedPath p), squeezeSpaces_cons (.inr after), rows,
        escapedRow_cons_cons]

theorem IsSingleLine.squeezeSpaces {l : Text} (h : IsSingleLine l) :
    IsSingleLine (squeezeSpaces l) where
  filled := mt squeezeSpaces_eq_nil_iff.1 h.filled
  oneLine := fun inside => h.oneLine ((squeezeSpaces_sublist l).subset inside)
  trimmed := by
    refine stripWhile_eq_self (fun c first => ?_) fun c last => ?_
    · exact h.isSpace_of_head? (by rwa [head?_squeezeSpaces] at first)
    · rw [getLast?_squeezeSpaces, ← h.trimmed] at last
      exact getLast?_stripWhile last
  closed := by
    rw [getLast?_squeezeSpaces]
    exact h.closed

/-- Of a line that is no comment, laying out only squeezes the spaces. -/
theorem IsSingleLine.normalize_eq {l : Text} (h : IsSingleLine l) (code : isComment l = false) :
    normalize l = Layout.squeezeSpaces l := by
  have text : IsLogicalText l := ⟨h.filled, h.oneLine, h.trimmed, code⟩
  rw [Layout.normalize_eq, text.normalLines_eq, unlines_singleton]

/-- If a line of VOLUME is laid out before it is read, each path that ends in a space is stored
together with the next one. -/
theorem Dockerfile.ofText_escapedRow (paths : ∀ p ∈ ps, p ≠ [] ∧ '\\' ∉ p)
    (oneLine : ∀ p ∈ ps, '\n' ∉ p)
    (last : ∃ p c, ps.getLast? = some p ∧ p.getLast? = some c ∧ isSpace c = false)
    (first : ∀ p, ps.head? = some p → p.head? ≠ some '[') :
    ofText ("VOLUME ".toList ++ escapedRow ps) =
      .ok ⟨none, [⟨.volume (mergeSpaced ps), 1,
        "VOLUME ".toList ++ escapedRow (mergeSpaced ps)⟩]⟩ := by
  have single := isSingleLine_escapedRow paths oneLine last
  have noArray := head?_escapedRow_ne paths first
  have squeezed : squeezeSpaces (escapedRow ps) = escapedRow (mergeSpaced ps) := by
    cases ps with
    | nil => rfl
    | cons p ps => exact squeezeSpaces_escapedRow fun q member => (paths q member).1
  have words : escapedWords (escapedRow (mergeSpaced ps)) = mergeSpaced ps := by
    refine escapedWords_escapedRow ?_
    cases ps with
    | nil => exact paths
    | cons p ps => exact forall_mem_mergeFrom paths
  have filled : escapedWords (escapedRow (mergeSpaced ps)) ≠ [] := by
    rw [words]
    intro empty
    rw [empty] at squeezed
    exact single.filled (squeezeSpaces_eq_nil_iff.1 squeezed)
  have laidOut : normalize ("VOLUME ".toList ++ escapedRow ps) =
      "VOLUME ".toList ++ escapedRow (mergeSpaced ps) := by
    have line : IsSingleLine ("VOLUME ".toList ++ escapedRow ps) :=
      single.append (by decide) (by rintro c ⟨⟩; decide)
    have start : (escapedRow ps).head? ≠ some ' ' := fun start =>
      absurd (single.isSpace_of_head? start) (by decide)
    rw [line.normalize_eq rfl, squeezeSpaces_append (.inr start), squeezed]
    rfl
  have noArray' : (escapedRow (mergeSpaced ps)).head? ≠ some '[' := by
    rwa [← squeezed, head?_squeezeSpaces]
  have stored := Statement.readAll_volume (squeezed ▸ single.squeezeSpaces) noArray' filled
  rw [ofText, laidOut, stored, words]

/-- Laying out spares the paths exactly if none but the last ends in a space. -/
theorem Dockerfile.ofText_escapedRow_eq_iff (paths : ∀ p ∈ ps, p ≠ [] ∧ '\\' ∉ p)
    (oneLine : ∀ p ∈ ps, '\n' ∉ p)
    (last : ∃ p c, ps.getLast? = some p ∧ p.getLast? = some c ∧ isSpace c = false)
    (first : ∀ p, ps.head? = some p → p.head? ≠ some '[') :
    ofText ("VOLUME ".toList ++ escapedRow ps) =
        .ok ⟨none, [⟨.volume ps, 1, "VOLUME ".toList ++ escapedRow ps⟩]⟩ ↔
      ∀ p ∈ ps.dropLast, p.getLast? ≠ some ' ' := by
  rw [ofText_escapedRow paths oneLine last first, ← mergeSpaced_eq_self_iff]
  constructor
  · intro same
    have statements := congrArg Dockerfile.statements (Except.ok.inj same)
    exact Instruction.volume.inj (congrArg Statement.instruction (List.cons.inj statements).1)
  · intro same
    rw [same]

example :
    mergeSpaced ["a ".toList, " ".toList, "b".toList, "c".toList] =
      ["a  b".toList, "c".toList] := by
  decide

end ImageAudit
