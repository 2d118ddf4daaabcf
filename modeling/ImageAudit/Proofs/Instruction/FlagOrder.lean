import ImageAudit.Proofs.Instruction.EscapedRow
import ImageAudit.Proofs.Instruction.Flags

/-!
# The order of flags and the form of paths

Flags with different names may stand in any order. After any of them the paths of ADD and COPY may
be an array or words.

* `Transfer.read?_array`, `Transfer.read?_words`: both forms give the same paths.
* `Statement.sameFront_of_perm`: neither order nor form makes a difference to how a line is read.
-/

namespace ImageAudit

open Text

/-! ## Paths -/

/-- A path that needs no escapes as a word. -/
structure IsPath (p : Text) : Prop extends IsWord p where
  unescaped : '\\' ∉ p

variable {p : Text} {ps : List Text}

theorem escapedWords_join (paths : ∀ q ∈ ps, IsPath q) : escapedWords (join [' '] ps) = ps := by
  rw [← escapedRow_eq_join fun q member => (paths q member).solid]
  exact escapedWords_escapedRow fun q member =>
    ⟨(paths q member).filled, (paths q member).unescaped⟩

theorem TransferFlag.read?_of_not_isPrefix {t : Text} (noFlag : ¬ "--".toList <+: t) :
    read? t = none := by
  have values : ∀ e ∈ valued, "--".toList <+: e.1 := by decide
  have settings : ∀ e ∈ switches, "--".toList <+: e.1 := by decide
  rw [read?_eq, Option.or_eq_none_iff, List.findSome?_eq_none_iff, List.findSome?_eq_none_iff]
  constructor
  · intro e member
    rw [flagValue?_of_not_isPrefix fun inside => noFlag ((values e member).trans inside)]
    rfl
  · intro e member
    rw [flagSwitch?_of_not_isPrefix fun inside => noFlag ((settings e member).trans inside)]
    rfl

namespace Transfer

variable {p : Text} {ps sources : List Text} {destination : Text} {flags : TransferFlags}

theorem read?_row_of_not_isPrefix {t : Text} (solid : skipBlanks t = t)
    (noFlag : ¬ "--".toList <+: t) (ws : List (Written TransferFlag.IsWritten)) :
    read? (Written.row ws ++ t) =
      ((ws.map Written.flag).foldlM TransferFlag.set? .empty).bind (ofText? t) := by
  have none : TransferFlag.readAll t = ([], t) :=
    TransferFlag.readAll_of_none (by rw [solid, TransferFlag.read?_of_not_isPrefix noFlag])
  rw [read?_row, none]
  rfl

theorem ofPaths?_concat (nonempty : sources ≠ []) :
    ofPaths? (sources ++ [destination]) flags = some ⟨sources, destination, flags⟩ := by
  have two : 2 ≤ (sources ++ [destination]).length := by
    have := List.length_pos_iff.2 nonempty
    rw [List.length_append, List.length_singleton]
    omega
  rw [ofPaths?, if_pos two, List.getLast?_concat, List.dropLast_concat]
  rfl

/-- Flags and an array of paths. -/
theorem read?_array (ws : List (Written TransferFlag.IsWritten)) (nonempty : ps ≠ []) :
    read? (Written.row ws ++ Arguments.array doubleQuote ps) =
      ((ws.map Written.flag).foldlM TransferFlag.set? .empty).bind (ofPaths? ps) := by
  have solid : skipBlanks (Arguments.array doubleQuote ps) = Arguments.array doubleQuote ps :=
    Arguments.skipBlanks_eq_self (by decide) _
  have noFlag : ¬ "--".toList <+: Arguments.array doubleQuote ps := by
    rintro ⟨r, same⟩
    cases same
  have paths : ofText? (Arguments.array doubleQuote ps) = ofPaths? ps := by
    funext flags
    rw [ofText?, solid, Arguments.wholeArray?_array (by decide) nonempty]
  rw [read?_row_of_not_isPrefix solid noFlag, paths]

/-- Flags and paths as words. -/
theorem read?_words (ws : List (Written TransferFlag.IsWritten))
    (paths : ∀ q ∈ p :: ps, IsPath q) (nonempty : ps ≠ []) (noArray : p.head? ≠ some '[')
    (noFlag : ¬ "--".toList <+: p) :
    read? (Written.row ws ++ join [' '] (p :: ps)) =
      ((ws.map Written.flag).foldlM TransferFlag.set? .empty).bind (ofPaths? (p :: ps)) := by
  have path := paths p List.mem_cons_self
  obtain ⟨c, p, rfl⟩ := List.exists_cons_of_ne_nil path.filled
  obtain ⟨q, ps, rfl⟩ := List.exists_cons_of_ne_nil nonempty
  have words := escapedWords_join paths
  rw [Arguments.join_cons] at words ⊢
  have solid : skipBlanks (c :: p ++ (q :: ps).flatMap ([' '] ++ ·)) =
      c :: p ++ (q :: ps).flatMap ([' '] ++ ·) :=
    Arguments.skipBlanks_eq_self
      (isBlank_eq_false_of_isSpace (path.solid c List.mem_cons_self)) _
  have noFlag : ¬ "--".toList <+: c :: p ++ (q :: ps).flatMap ([' '] ++ ·) := by
    -- A path of one dash is followed by a space.
    cases p with
    | nil =>
      rintro ⟨r, same⟩
      cases same
    | cons d p =>
      rintro ⟨r, same⟩
      cases same
      exact noFlag ⟨p, rfl⟩
  have words : ofText? (c :: p ++ (q :: ps).flatMap ([' '] ++ ·)) =
      ofPaths? ((c :: p) :: q :: ps) := by
    have plain : Arguments.wholeArray? (c :: p ++ (q :: ps).flatMap ([' '] ++ ·)) = none := by
      exact Arguments.wholeArray?_of_head? noArray
    funext flags
    rw [ofText?, solid, plain, words]
  rw [read?_row_of_not_isPrefix solid noFlag, words]

end Transfer

/-! ## Lines -/

/-- Two beginnings that make no difference to how a line is read. -/
def Statement.SameFront (a b : Text) : Prop :=
  (∀ rest, Instruction.readLine? (a ++ rest) = Instruction.readLine? (b ++ rest)) ∧
    ∀ rest, IsSingleLine rest → outline? (a ++ rest) = outline? (b ++ rest)

theorem Statement.sameFront_of_readLine? {a b : Text}
    (same : ∀ rest, Instruction.readLine? (a ++ rest) = Instruction.readLine? (b ++ rest))
    (oneLine : '\n' ∉ a ∧ '\n' ∉ b)
    (solid : ∀ c, a.head? = some c ∨ b.head? = some c → isSpace c = false) : SameFront a b := by
  refine ⟨same, fun rest single => ?_⟩
  rw [outline?_of_isSingleLine (single.append oneLine.1 fun c first => solid c (.inl first)),
    outline?_of_isSingleLine (single.append oneLine.2 fun c first => solid c (.inr first)), same]

/-- What is written before the flags of a transfer, and the instruction it makes; ADD does not
copy from another stage. -/
inductive TakesTransfer : (front : Text) → (Transfer → Option Instruction) → Prop where
  | add : TakesTransfer "ADD ".toList fun t =>
      if t.flags.source.isSome then none else some (.add t)
  | copy : TakesTransfer "COPY ".toList fun t => some (.copy t)

theorem Instruction.readLine?_of_alone {k : Kind} {line b : Text} {read : Option Instruction}
    (keyword : k.body? line = some b) (body : body? k b = read.map alone) :
    readLine? line = read := by
  rw [readLine?, read?_eq keyword, body]
  cases read <;> rfl

theorem Transfer.read?_skipBlanks (t : Text) : read? (skipBlanks t) = read? t := by
  have twice : skipBlanks (skipBlanks t) = skipBlanks t := List.dropWhile_idempotent isBlank t
  obtain ⟨flags, rest⟩ := TransferFlag.readAll_congr twice
  rw [read?_eq, read?_eq, flags]
  congr 1
  funext flags
  rw [ofText?, ofText?, rest]

theorem TakesTransfer.readLine?_eq {front : Text} {f : Transfer → Option Instruction}
    (takes : TakesTransfer front f) (t : Text) :
    Instruction.readLine? (front ++ t) = (Transfer.read? t).bind f := by
  cases takes with
  | add =>
    have keyword : Kind.add.body? ("ADD ".toList ++ t) = some (skipBlanks t) := rfl
    rw [← Transfer.read?_skipBlanks]
    exact Instruction.readLine?_of_alone keyword rfl
  | copy =>
    have keyword : Kind.copy.body? ("COPY ".toList ++ t) = some (skipBlanks t) := rfl
    rw [← Transfer.read?_skipBlanks]
    refine Instruction.readLine?_of_alone keyword ?_
    change (Transfer.read? (skipBlanks t)).map _ = _
    cases Transfer.read? (skipBlanks t) <;> rfl

theorem TakesTransfer.isSingleLine_append {front : Text} {f : Transfer → Option Instruction}
    (takes : TakesTransfer front f) (ws : List (Written TransferFlag.IsWritten)) :
    '\n' ∉ front ++ Written.row ws ∧
      ∀ c, (front ++ Written.row ws).head? = some c → isSpace c = false := by
  have oneLine := Written.newline_notMem_row TransferFlag.IsWritten.solid ws
  cases takes with
  | add | copy =>
    refine ⟨?_, by rintro c ⟨⟩; decide⟩
    rw [List.mem_append, not_or]
    exact ⟨by decide, oneLine⟩

theorem HealthCheck.readLine?_row {ws : List (Written HealthOption.IsWritten)}
    (nonempty : ws ≠ []) (t : Text) :
    Instruction.readLine? ("HEALTHCHECK ".toList ++ Written.row ws ++ t) =
      ((((ws.map Written.flag).foldlM HealthOption.set? .empty).bind fun options =>
        ((HealthOption.readAll (skipBlanks t)).1.foldlM HealthOption.set? options).bind
          (ofText? (HealthOption.readAll (skipBlanks t)).2))).map .healthCheck := by
  have solid : skipBlanks (Written.row ws ++ t) = Written.row ws ++ t := by
    obtain ⟨w, ws, rfl⟩ := List.exists_cons_of_ne_nil nonempty
    rw [Written.row, List.flatMap_cons, List.append_assoc, List.append_assoc]
    exact w.isWritten.skipBlanks_append _
  have keyword : Kind.healthCheck.body? ("HEALTHCHECK ".toList ++ Written.row ws ++ t) =
      some (Written.row ws ++ t) := by
    rw [List.append_assoc]
    exact congrArg some solid
  refine Instruction.readLine?_of_alone keyword ?_
  rw [← read?_row nonempty, Option.map_map]
  rfl

theorem isSingleLine_words {sources : List Text} {destination : Text} (nonempty : sources ≠ [])
    (paths : ∀ p ∈ sources ++ [destination], IsPath p) :
    IsSingleLine (join [' '] (sources ++ [destination])) := by
  obtain ⟨p, ps, rfl⟩ := List.exists_cons_of_ne_nil nonempty
  have path := paths p List.mem_cons_self
  have final := paths destination (by simp)
  obtain ⟨c, p, rfl⟩ := List.exists_cons_of_ne_nil path.filled
  obtain ⟨before, d, rfl⟩ := (List.eq_nil_or_concat' destination).resolve_left final.filled
  rw [List.cons_append, Arguments.join_cons]
  refine .of_ends rfl (d := d) ?_ ⟨path.solid c List.mem_cons_self, final.solid d (by simp)⟩ ?_ ?_
  · rw [List.flatMap_append, List.flatMap_singleton, ← List.append_assoc, ← List.append_assoc,
      ← List.append_assoc, List.getLast?_concat]
  · rintro rfl
    exact final.unescaped (by simp)
  · have solid (q : Text) (member : q ∈ (c :: p) :: (ps ++ [before ++ [d]])) : '\n' ∉ q :=
      fun inside => absurd ((paths q member).solid _ inside) (by decide)
    rw [List.mem_append, List.mem_flatMap]
    rintro (inside | ⟨q, member, inside⟩)
    · exact solid _ List.mem_cons_self inside
    · exact (List.mem_append.1 inside).elim (by decide) (solid q (List.mem_cons_of_mem _ member))

/-- Neither the order of flags with different names nor the form of the paths after them makes a
difference to ADD and COPY, and the order of options makes none to HEALTHCHECK. -/
theorem Statement.sameFront_of_perm :
    (∀ front f, TakesTransfer front f → ∀ ws us : List (Written TransferFlag.IsWritten),
      ws.Perm us → (ws.map fun w => w.flag.name).Nodup →
        SameFront (front ++ Written.row ws) (front ++ Written.row us)) ∧
    (∀ front f, TakesTransfer front f → ∀ (ws : List (Written TransferFlag.IsWritten)) sources
      destination, sources ≠ [] → (∀ p ∈ sources ++ [destination], IsPath p) →
        (∀ p, sources.head? = some p → p.head? ≠ some '[' ∧ ¬ "--".toList <+: p) →
          ∀ paths ∈ [join [' '] (sources ++ [destination]),
            Arguments.array doubleQuote (sources ++ [destination])],
            outline? (front ++ Written.row ws ++ paths) =
              (((ws.map Written.flag).foldlM TransferFlag.set? .empty).bind fun flags =>
                f ⟨sources, destination, flags⟩).map fun i => [(i, 1)]) ∧
    ∀ ws us : List (Written HealthOption.IsWritten), ws.Perm us →
      (ws.map fun w => w.flag.name).Nodup →
        SameFront ("HEALTHCHECK ".toList ++ Written.row ws)
          ("HEALTHCHECK ".toList ++ Written.row us) := by
  refine ⟨?_, ?_, ?_⟩
  · intro front f takes ws us permuted distinct
    obtain ⟨oneLine, solid⟩ := takes.isSingleLine_append ws
    obtain ⟨oneLine', solid'⟩ := takes.isSingleLine_append us
    refine sameFront_of_readLine? (fun rest => ?_) ⟨oneLine, oneLine'⟩
      fun c first => first.elim (solid c) (solid' c)
    have settings := foldlM_eq_of_perm TransferFlag.set?_swap (permuted.map Written.flag)
      (by rwa [List.map_map]) TransferFlags.empty
    rw [List.append_assoc, List.append_assoc, takes.readLine?_eq, takes.readLine?_eq,
      Transfer.read?_row, Transfer.read?_row, settings]
  · intro front f takes ws sources destination nonempty each first paths member
    obtain ⟨oneLine, solid⟩ := takes.isSingleLine_append ws
    have single : IsSingleLine paths := by
      rcases List.mem_pair.1 member with rfl | rfl
      · exact isSingleLine_words nonempty each
      · exact Arguments.isSingleLine_array (by decide) _
    have read : Transfer.read? (Written.row ws ++ paths) =
        ((ws.map Written.flag).foldlM TransferFlag.set? .empty).bind
          (Transfer.ofPaths? (sources ++ [destination])) := by
      rcases List.mem_pair.1 member with rfl | rfl
      · obtain ⟨p, ps, rfl⟩ := List.exists_cons_of_ne_nil nonempty
        obtain ⟨noArray, noFlag⟩ := first p rfl
        exact Transfer.read?_words ws each (by simp) noArray noFlag
      · exact Transfer.read?_array ws (by simp)
    rw [outline?_of_isSingleLine (single.append oneLine solid), List.append_assoc,
      takes.readLine?_eq, read, Option.bind_assoc]
    simp only [Transfer.ofPaths?_concat nonempty, Option.bind_some]
  · intro ws us permuted distinct
    have oneLine (vs : List (Written HealthOption.IsWritten)) :
        '\n' ∉ "HEALTHCHECK ".toList ++ Written.row vs := by
      rw [List.mem_append, not_or]
      exact ⟨by decide, Written.newline_notMem_row HealthOption.IsWritten.solid vs⟩
    have solid (vs : List (Written HealthOption.IsWritten)) (c : Char)
        (first : ("HEALTHCHECK ".toList ++ Written.row vs).head? = some c) : isSpace c = false := by
      cases first
      decide
    refine sameFront_of_readLine? (fun rest => ?_) ⟨oneLine ws, oneLine us⟩
      fun c first => first.elim (solid ws c) (solid us c)
    have settings := foldlM_eq_of_perm HealthOption.set?_swap (permuted.map Written.flag)
      (by rwa [List.map_map]) HealthOptions.empty
    by_cases nonempty : ws = []
    · subst nonempty
      rw [List.nil_perm.1 permuted]
    · have nonempty' : us ≠ [] := by
        rintro rfl
        exact nonempty (List.perm_nil.1 permuted)
      rw [HealthCheck.readLine?_row nonempty, HealthCheck.readLine?_row nonempty', settings]

/-- Three flags of COPY in two orders, before words and before an array, two of ADD that are refused
in either order, and two options. -/
theorem Statement.sameFront_of_perm_of_flags :
    outline? "COPY --chown=a:b --link=FALSE --from=x - c".toList =
        outline? "COPY --from=x --chown=a:b --link=FALSE - c".toList ∧
      outline? "COPY --from=x --chown=a:b --link=FALSE [\"-\", \"c\"]".toList =
        some [(.copy ⟨["-".toList], "c".toList,
          ⟨some ⟨"a".toList, some "b".toList⟩, none, some "x".toList, none, false, false⟩⟩, 1)] ∧
      Instruction.readLine? "ADD --from=x --link --chown=a:b".toList =
        Instruction.readLine? "ADD --link --from=x --chown=a:b".toList ∧
      outline? "HEALTHCHECK --timeout=1s --retries=2 CMD a".toList =
        outline? "HEALTHCHECK --retries=2 --timeout=1s CMD a".toList := by
  have owner : TransferFlag.IsWritten ("--chown".toList ++ '=' :: "a:b".toList) _ :=
    .value (f := .chown) (by simp [TransferFlag.valued]) ⟨by decide, by decide⟩
  have stage : TransferFlag.IsWritten ("--from".toList ++ '=' :: "x".toList) _ :=
    .value (f := .source) (by simp [TransferFlag.valued]) ⟨by decide, by decide⟩
  have off : TransferFlag.IsWritten ("--link".toList ++ '=' :: "FALSE".toList) (.link false) :=
    .switch (f := .link) (by simp [TransferFlag.switches]) (by decide)
  have on : TransferFlag.IsWritten "--link".toList (.link true) :=
    .bare (f := .link) (by simp [TransferFlag.switches])
  have retries : HealthOption.IsWritten ("--retries".toList ++ '=' :: "2".toList) _ :=
    .value (f := .retries) (by simp [HealthOption.named]) ⟨by decide, by decide⟩
  have timeout : HealthOption.IsWritten ("--timeout".toList ++ '=' :: "1s".toList) _ :=
    .value (f := .timeout) (by simp [HealthOption.named]) ⟨by decide, by decide⟩
  have path (c : Char) (solid : isSpace c = false) (unescaped : c ≠ '\\') : IsPath [c] :=
    ⟨⟨List.cons_ne_nil c [], by simpa using solid⟩, by simpa using unescaped.symm⟩
  obtain ⟨permuted, forms, options⟩ := sameFront_of_perm
  refine ⟨?_, ?_, ?_, ?_⟩
  · have distinct : ["--chown".toList, "--link".toList, "--from".toList].Nodup := by decide
    exact (permuted _ _ .copy [⟨_, _, owner⟩, ⟨_, _, off⟩, ⟨_, _, stage⟩]
      [⟨_, _, stage⟩, ⟨_, _, owner⟩, ⟨_, _, off⟩] (((List.Perm.swap ..).cons _).trans (.swap ..))
      distinct).2 "- c".toList ⟨by decide, by decide, by decide, by decide⟩
  · refine forms _ _ .copy [⟨_, _, stage⟩, ⟨_, _, owner⟩, ⟨_, _, off⟩] ["-".toList] "c".toList
      (by decide) ?_ ?_ _ (List.mem_pair.2 (.inr rfl))
    · rw [List.singleton_append, List.forall_mem_cons, List.forall_mem_singleton]
      exact ⟨path '-' (by decide) (by decide), path 'c' (by decide) (by decide)⟩
    · rintro p ⟨⟩
      exact ⟨by decide, by decide⟩
  · have distinct : ["--from".toList, "--link".toList].Nodup := by decide
    exact (permuted _ _ .add [⟨_, _, stage⟩, ⟨_, _, on⟩] [⟨_, _, on⟩, ⟨_, _, stage⟩]
      (.swap ..) distinct).1 "--chown=a:b".toList
  · have distinct : ["--timeout".toList, "--retries".toList].Nodup := by decide
    exact (options [⟨_, _, timeout⟩, ⟨_, _, retries⟩] [⟨_, _, retries⟩, ⟨_, _, timeout⟩]
      (.swap ..) distinct).2 "CMD a".toList ⟨by decide, by decide, by decide, by decide⟩

end ImageAudit
