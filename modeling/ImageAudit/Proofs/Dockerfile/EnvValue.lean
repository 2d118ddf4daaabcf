import ImageAudit.Dockerfile.View
import ImageAudit.Proofs.Layout.Definitions
import ImageAudit.Proofs.Statement.Reading

/-!
# Values of variables

Laying a text out gathers the variables it sets, and a Dockerfile looks variables up in the ENV
instructions that are read from the result. Both take the same value for a variable only if its last
definition is the one that was kept.

* `Dockerfile.envValue_eq_lookup`: a Dockerfile looks up in the pairs of its ENV lines.
* `flatMap_envPairs`: for plain texts these are the definitions of the text, in their order.
* `Dockerfile.envValue_eq_recorded_iff`: when both values are the same.
-/

namespace ImageAudit

open Text Layout

/-! ## Pairs of ENV lines -/

/-- The pairs of a line that is read as ENV; other lines have none. -/
def envPairs (line : Text) : List Pair := ((Kind.env.body? line).bind Pair.settings?).getD []

/-- The pairs of an instruction. -/
def Instruction.envPairs (i : Instruction) : List Pair := i.env?.getD []

theorem Instruction.envPairs_of_kind {i : Instruction} (h : i.kind ≠ .env) : i.envPairs = [] := by
  cases i with
  | env pairs => exact absurd rfl h
  | _ => rfl

theorem settings?_of_readLine? {line body : Text} {i : Instruction}
    (h : Instruction.readLine? line = some i) (env : Kind.env.body? line = some body) :
    ∃ ps, Pair.settings? body = some ps ∧ i = .env ps := by
  obtain ⟨r, read⟩ := Instruction.read?_of_readLine? h
  rw [Instruction.read?_eq env] at read
  obtain ⟨ps, settings, same⟩ := Option.map_eq_some_iff.1 read
  cases same
  exact ⟨ps, settings, rfl⟩

/-- The pairs of an instruction are those of the line it was read from. -/
theorem envPairs_of_readLine? {line : Text} {i : Instruction}
    (h : Instruction.readLine? line = some i) : i.envPairs = envPairs line := by
  rw [envPairs]
  cases env : Kind.env.body? line with
  | some body =>
    obtain ⟨ps, settings, rfl⟩ := settings?_of_readLine? h env
    rw [Option.bind_some, settings]
    rfl
  | none =>
    -- Another kind reads the line, and reads an instruction of its own.
    obtain ⟨r, read⟩ := Instruction.read?_of_readLine? h
    obtain ⟨k, body, found, hk⟩ := Instruction.exists_of_read? read
    have other : k ≠ .env := by
      rintro rfl
      rw [env] at found
      cases found
    exact Instruction.envPairs_of_kind (Instruction.kind_of_body? hk ▸ other)

theorem flatMap_envPairs_of_readLines {ls : List LogicalLine} {ss : List Statement}
    (h : Statement.readLines ls = .ok ss) :
    (ss.flatMap fun s => s.instruction.envPairs) = ls.flatMap fun l => envPairs l.text := by
  have read := Statement.forall₂_of_readLines h
  clear h
  induction read with
  | nil => rfl
  | cons first _ ih =>
    rw [List.flatMap_cons, List.flatMap_cons, ih,
      envPairs_of_readLine? (Statement.readLine?_of_read first)]

namespace Dockerfile

theorem envValueOf?_eq (key : Text) (s : Statement) :
    envValueOf? key s = Pair.lookup s.instruction.envPairs key := by
  rw [envValueOf?]
  cases s.instruction <;> rfl

/-- A Dockerfile looks a variable up in the pairs of its ENV lines. -/
theorem envValue_eq_lookup {t : Text} {d : Dockerfile} (h : ofText t = .ok d) (key : Text) :
    d.envValue key =
      Pair.lookup ((logicalLines (normalize t)).flatMap fun l => envPairs l.text) key := by
  rw [← flatMap_envPairs_of_readLines (ofText_eq_ok_iff.1 h).2, Pair.lookup_flatMap, envValue]
  exact congrArg (List.findSome? · d.statements.reverse) (funext (envValueOf?_eq key))

end Dockerfile

/-! ## Plain texts -/

/-- A text in which laying out and reading find the same definitions: its ENV lines are plainly
written, no other line is read as ENV once variables have been put in, and no line ends in a
backslash. -/
structure IsPlain (t : Text) : Prop where
  bodies : ∀ l ∈ pieces '\n' (arrange t), ∀ body ∈ envBody? l, IsPlainBody body
  others : ∀ l ∈ pieces '\n' (arrange t), isEnvLine l = false →
    Kind.env.body? (trim (substituteLine (variablesOf (arrange t)) l)) = none
  closed : ∀ m ∈ pieces '\n' (normalize t), (trim m).getLast? ≠ some '\\'

instance (t : Text) : Decidable (IsPlain t) :=
  decidable_of_iff
    ((∀ l ∈ pieces '\n' (arrange t), ∀ body ∈ envBody? l, IsPlainBody body) ∧
      (∀ l ∈ pieces '\n' (arrange t), isEnvLine l = false →
        Kind.env.body? (trim (substituteLine (variablesOf (arrange t)) l)) = none) ∧
      ∀ m ∈ pieces '\n' (normalize t), (trim m).getLast? ≠ some '\\')
    ⟨fun ⟨bodies, others, closed⟩ => ⟨bodies, others, closed⟩,
      fun h => ⟨h.bodies, h.others, h.closed⟩⟩

theorem definitions_arrange (t : Text) :
    definitions (arrange t) = (arrangedLines t).flatMap lineDefinitions := by
  rw [definitions, arrange_eq]
  exact flatMap_pieces_unlines (fun l => newline_notMem_of_mem_arrangedLines) rfl

theorem body?_of_envBody? {line body : Text} (h : envBody? line = some body)
    (first : ∀ c, body.head? = some c → isBlank c = false) :
    Kind.env.body? line = some body := by
  have kept : skipBlanks body = body := by
    cases body with
    | nil => rfl
    | cons c body => exact List.dropWhile_cons_of_neg (by simp [first c rfl])
  change (dropWord? "ENV".toList line).bind blanks? = some body
  rw [dropWord?_of_envBody? h]
  exact congrArg some kept

theorem trim_of_envBody? {line body : Text} (h : envBody? line = some body)
    (filled : body ≠ []) (last : ∀ c, body.getLast? = some c → isSpace c = false) :
    trim line = line := by
  obtain ⟨w, rfl, hw⟩ := exists_of_dropWord? (dropWord?_of_envBody? h)
  refine stripWhile_eq_self (fun c hc => ?_) fun c hc => ?_
  · cases w with
    | nil => cases hw
    | cons d w =>
      obtain rfl : d = c := by simpa using hc
      have letter : d.toLower = 'e' := (List.cons.inj hw).1
      by_contra space
      rw [Bool.not_eq_false] at space
      rw [toLower_of_isSpace space] at letter
      exact absurd space (by rw [letter]; decide)
  · obtain ⟨d, hd⟩ := Option.ne_none_iff_exists'.1 (mt List.getLast?_eq_none_iff.1 filled)
    rw [List.getLast?_append, List.getLast?_cons, hd] at hc
    exact last c (by rw [hd]; exact hc)

/-- On a plain line, reading finds the definitions that laying out finds. -/
theorem envPairs_eq_lineDefinitions {t : Text} (plain : IsPlain t)
    (read : ∀ m ∈ normalLines t, trim m ≠ [] → ∃ i, Instruction.readLine? (trim m) = some i)
    {l : Text} (member : l ∈ arrangedLines t) :
    envPairs (trim (substituteIn (variablesOf (arrange t)) l)) = lineDefinitions l := by
  have piece : l ∈ pieces '\n' (arrange t) := by
    rwa [pieces_arrange (List.ne_nil_of_mem member)]
  have neat := isNeat_of_mem_arrangedLines member
  have normal : substituteIn (variablesOf (arrange t)) l ∈ normalLines t :=
    List.mem_map_of_mem member
  cases env : envBody? l with
  | none =>
    have other : isEnvLine l = false := by rw [isEnvLine, env]; rfl
    rw [substituteIn, other, if_neg Bool.false_ne_true, envPairs, plain.others l piece other,
      lineDefinitions, olderDefinitions_of_not_env other, newerDefinitions_of_not_env other]
    rfl
  | some body =>
    have body_plain := plain.bodies l piece body env
    obtain ⟨first, filled, last, -⟩ := neat.envBody env
    have noSpace {c : Char} (member : c ∈ body) (other : c ≠ ' ') : isSpace c = false := by
      by_contra space
      rw [Bool.not_eq_false] at space
      exact other (body_plain.spaces c member space)
    have kept : substituteIn (variablesOf (arrange t)) l = l := by
      rw [substituteIn, if_pos (by rw [isEnvLine, env]; rfl)]
    have trimmed : trim l = l := by
      refine trim_of_envBody? env filled fun c hc => noSpace (List.mem_of_getLast? hc) ?_
      rintro rfl
      exact last hc
    have env' : Kind.env.body? l = some body := by
      refine body?_of_envBody? env fun c hc => ?_
      by_contra blank
      rw [Bool.not_eq_false] at blank
      have other : c ≠ ' ' := by
        rintro rfl
        exact first hc
      have := noSpace (List.mem_of_mem_head? hc) other
      rw [isSpace_of_isBlank blank] at this
      cases this
    obtain ⟨i, hi⟩ := read _ normal (by rw [kept, trimmed]; exact neat.filled)
    rw [kept, trimmed] at hi ⊢
    -- The line has been accepted, so that its body could be read.
    obtain ⟨ps, settings, -⟩ := settings?_of_readLine? hi env'
    rw [envPairs, env', Option.bind_some, settings, lineDefinitions_eq neat env body_plain settings]
    rfl

theorem flatMap_filter_filled {f : Text → List Pair} (empty : f [] = []) (ls : List Text) :
    (ls.filter fun l => !l.isEmpty).flatMap f = ls.flatMap f := by
  induction ls with
  | nil => rfl
  | cons l ls ih =>
    cases l with
    | nil => simp [empty, ih]
    | cons c l => simp [ih]

/-- The pairs of the ENV lines of a plain text are its definitions. -/
theorem flatMap_envPairs {t : Text} {d : Dockerfile} (accepted : Dockerfile.ofText t = .ok d)
    (plain : IsPlain t) :
    ((logicalLines (normalize t)).flatMap fun l => envPairs l.text) = definitions (arrange t) := by
  have closed : ∀ m ∈ normalLines t, (trim m).getLast? ≠ some '\\' := by
    intro m member
    apply plain.closed
    rwa [pieces_normalize (List.ne_nil_of_mem member)]
  have texts := map_text_logicalLines closed
  -- Each line that is not blank is a logical line, and all logical lines have been read.
  have read : ∀ m ∈ normalLines t, trim m ≠ [] →
      ∃ i, Instruction.readLine? (trim m) = some i := by
    intro m member filled
    have : trim m ∈ (logicalLines (normalize t)).map LogicalLine.text := by
      rw [texts, List.mem_filter]
      exact ⟨List.mem_map_of_mem member, by simpa using filled⟩
    obtain ⟨l, inside, same⟩ := List.mem_map.1 this
    obtain ⟨s, -, hs⟩ :=
      Statement.exists_of_mem_readLines (Dockerfile.ofText_eq_ok_iff.1 accepted).2 inside
    exact ⟨s.instruction, same ▸ Statement.readLine?_of_read hs⟩
  have env : envPairs [] = [] := rfl
  rw [← List.flatMap_map (f := LogicalLine.text) (g := envPairs), texts, flatMap_filter_filled env,
    definitions_arrange, normalLines, List.map_map, List.flatMap_map]
  exact List.flatMap_congr fun l member => envPairs_eq_lineDefinitions plain read member

/-- A variable that laying out keeps has the same value in the Dockerfile if and only if the last
pair its ENV lines give the name has this value; in a plain text, if and only if the last definition
of the name does, whatever its form and whether or not its value is insertable. -/
theorem Dockerfile.envValue_eq_recorded_iff {t : Text} {d : Dockerfile} {key value : Text}
    (accepted : ofText t = .ok d)
    (recorded : (variablesOf (arrange t)).value? key = some value) :
    (d.envValue key = some value ↔
        Pair.lookup ((logicalLines (normalize t)).flatMap fun l => envPairs l.text) key =
          some value) ∧
      (IsPlain t → (d.envValue key = some value ↔
        ∀ last, Pair.lookup (definitions (arrange t)) key = some last → last = value)) := by
  refine ⟨by rw [envValue_eq_lookup accepted], fun plain => ?_⟩
  rw [envValue_eq_lookup accepted, flatMap_envPairs accepted plain]
  -- What has been recorded is defined somewhere in the text, so that there is a last definition.
  rw [value?_variablesOf] at recorded
  have defined := mem_definitions_of_mem_gathered
    (List.mem_filter.1 (Pair.mem_of_lookup recorded)).1
  obtain ⟨last, found⟩ := Pair.exists_lookup_of_mem defined
  constructor
  · intro same last' found'
    exact Option.some.inj (found'.symm.trans same)
  · intro same
    rw [found, same last found]

theorem read_env {n : Nat} {line body : Text} {ps : List Pair} (h : Kind.env.body? line = some body)
    (settings : Pair.settings? body = some ps) :
    Statement.read ⟨n, line⟩ = .ok ⟨.env ps, n, line⟩ := by
  refine Statement.read_eq (Instruction.readLine?_eq h ?_)
  change (Pair.settings? body).map (fun p => Instruction.alone (.env p)) = _
  rw [settings]
  rfl

theorem ofText_envs {t : Text} {n m : Nat} {a b : Text} {ps qs : List Pair}
    (h : logicalLines (normalize t) = [⟨n, a⟩, ⟨m, b⟩])
    (first : Statement.read ⟨n, a⟩ = .ok ⟨.env ps, n, a⟩)
    (second : Statement.read ⟨m, b⟩ = .ok ⟨.env qs, m, b⟩) :
    Dockerfile.ofText t = .ok ⟨none, [⟨.env ps, n, a⟩, ⟨.env qs, m, b⟩]⟩ := by
  rw [Dockerfile.ofText, Statement.readAll, h,
    Statement.readLines_cons first (Statement.readLines_cons second rfl)]

theorem Dockerfile.envValue_of_last_definition :
    ∃ d, ofText "ENV A x\nENV A='y z'".toList = .ok d ∧
      IsPlain "ENV A x\nENV A='y z'".toList ∧
      d.envValue "A".toList = some "y z".toList := by
  have recorded : (variablesOf (arrange "ENV A x\nENV A='y z'".toList)).value?
      "A".toList = some "y z".toList := by decide
  have plain : IsPlain "ENV A x\nENV A='y z'".toList := by decide +kernel
  have pairs : Pair.all? "A='y z'".toList = some [("A".toList, "y z".toList)] := by
    have read : Pair.read? "A='y z'".toList = some (("A".toList, "y z".toList), []) := by decide
    rw [Pair.all?_of_read? (by decide) read, Pair.all?_nil]
    rfl
  have accepted := ofText_envs (t := "ENV A x\nENV A='y z'".toList) (n := 1) (m := 2)
    (a := "ENV A x".toList) (b := "ENV A='y z'".toList) (by decide) (read_env rfl rfl)
    (read_env rfl pairs)
  have last : Pair.lookup (definitions (arrange "ENV A x\nENV A='y z'".toList))
      "A".toList = some "y z".toList := by decide
  refine ⟨_, accepted, plain, ((envValue_eq_recorded_iff accepted recorded).2 plain).2 ?_⟩
  intro w hw
  exact Option.some.inj (hw.symm.trans last)

/-- The older form is gathered first, so that a later line in this form does not count. -/
theorem Dockerfile.envValue_ne_recorded :
    ∃ d, ofText "ENV A=1\nENV A 2".toList = .ok d ∧
      (variablesOf (arrange "ENV A=1\nENV A 2".toList)).value? "A".toList = some "1".toList ∧
      d.envValue "A".toList = some "2".toList := by
  have pairs : Pair.all? "A=1".toList = some [("A".toList, "1".toList)] := by
    have read : Pair.read? "A=1".toList = some (("A".toList, "1".toList), []) := by decide
    rw [Pair.all?_of_read? (by decide) read, Pair.all?_nil]
    rfl
  have accepted := ofText_envs (t := "ENV A=1\nENV A 2".toList) (n := 1) (m := 2)
    (a := "ENV A=1".toList) (b := "ENV A 2".toList) (by decide) (read_env rfl pairs)
    (read_env rfl rfl)
  exact ⟨_, accepted, by decide, by decide⟩

end ImageAudit
