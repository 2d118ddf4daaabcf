import ImageAudit.Proofs.Basic
import ImageAudit.Proofs.Instruction.ExecArray
import ImageAudit.Proofs.Statement.SingleLine

/-!
# Flags

ADD, COPY and HEALTHCHECK take flags before the rest of their line. How a flag is written decides
what is read, whatever follows it.

* `TransferFlag.IsWritten` and `HealthOption.IsWritten` say how flags are written.
* `Transfer.read?_row`, `HealthCheck.read?_row`: they are read so, in the order they are written in.
* `TransferFlag.set?_swap`, `HealthOption.set?_swap`: flags with different names do not get in each
  other's way.
-/

namespace ImageAudit

open Text

/-! ## Words -/

/-- A text that is one word. -/
structure IsWord (w : Text) : Prop where
  filled : w ≠ []
  solid : ∀ c ∈ w, isSpace c = false

theorem IsWord.word?_append {w r : Text} (h : IsWord w)
    (ends : ∀ c, r.head? = some c → isSpace c = true) : word? (w ++ r) = some (w, r) := by
  have goesOn : ∀ c ∈ w, (!isSpace c) = true := fun c inside => by simp [h.solid c inside]
  have taken : r.takeWhile (fun c => !isSpace c) = [] ∧ r.dropWhile (fun c => !isSpace c) = r := by
    cases r with
    | nil => exact ⟨rfl, rfl⟩
    | cons c s => simp [ends c rfl]
  rw [word?, List.takeWhile_append_of_pos goesOn, List.dropWhile_append_of_pos goesOn, taken.1,
    taken.2]
  simp [h.filled]

theorem flagValue?_eq (name : Text) {v r : Text} (word : IsWord v)
    (ends : ∀ c, r.head? = some c → isSpace c = true) :
    flagValue? name (name ++ '=' :: (v ++ r)) = some (v, r) := by
  have named : dropPrefix? (name ++ ['=']) (name ++ '=' :: (v ++ r)) = some (v ++ r) :=
    dropPrefix?_eq_some_iff.2 (by simp)
  rw [flagValue?, named]
  exact word.word?_append ends

theorem dropWord?_of_sameWord {p w : Text} (same : sameWord p w = true) (r : Text) :
    dropWord? p (w ++ r) = some r := by
  rw [sameWord, beq_iff_eq] at same
  induction p generalizing w with
  | nil =>
    obtain rfl := List.map_eq_nil_iff.1 same.symm
    rw [dropWord?_nil, List.nil_append]
  | cons x p ih =>
    cases w with
    | nil => cases same
    | cons c w =>
      obtain ⟨first, rest⟩ := List.cons.inj same
      rw [List.cons_append, dropWord?, if_pos first, ih rest]

/-- Neither text is the beginning of the other. -/
def AreApart (a b : Text) : Prop := ¬ a <+: b ∧ ¬ b <+: a

instance (a b : Text) : Decidable (AreApart a b) :=
  inferInstanceAs (Decidable (¬ a <+: b ∧ ¬ b <+: a))

theorem AreApart.not_prefix_append {a b : Text} (h : AreApart a b) (t : Text) :
    ¬ a <+: b ++ t := by
  intro longer
  rcases List.prefix_or_prefix_of_prefix longer (List.prefix_append b t) with inside | inside
  · exact h.1 inside
  · exact h.2 inside

theorem dropPrefix?_of_not_isPrefix {p t : Text} (h : ¬ p <+: t) : dropPrefix? p t = none := by
  cases found : dropPrefix? p t with
  | none => rfl
  | some r => exact absurd ⟨r, (dropPrefix?_eq_some_iff.1 found).symm⟩ h

theorem flagValue?_of_not_isPrefix {name t : Text} (h : ¬ name <+: t) :
    flagValue? name t = none := by
  have longer : ¬ name ++ ['='] <+: t := fun inside => h ((List.prefix_append name _).trans inside)
  rw [flagValue?, dropPrefix?_of_not_isPrefix longer]
  rfl

theorem flagSwitch?_of_not_isPrefix {name t : Text} (h : ¬ name <+: t) :
    flagSwitch? name t = none := by
  rw [flagSwitch?, dropPrefix?_of_not_isPrefix h]
  rfl

theorem findSome?_cons_eq_or {α β : Type} (f : α → Option β) (a : α) (as : List α) :
    (a :: as).findSome? f = (f a).or (as.findSome? f) := by
  rw [List.findSome?_cons]
  cases f a <;> rfl

/-- Of a table whose names are apart, the entry under a name decides. -/
theorem findSome?_of_areApart {σ τ : Type} (read : Text → Option (σ × Text))
    {es : List (Text × (σ → τ))} (apart : (es.map fun e => e.1).Pairwise AreApart) {n : Text}
    {f : σ → τ} (member : (n, f) ∈ es) {v : σ} {r : Text} (own : read n = some (v, r))
    (other : ∀ m, AreApart m n → read m = none) :
    (es.findSome? fun e => (read e.1).map fun p => (e.2 p.1, p.2)) = some (f v, r) := by
  induction es with
  | nil => cases member
  | cons e es ih =>
    rw [List.map_cons, List.pairwise_cons] at apart
    rw [List.findSome?_cons]
    rcases List.mem_cons.1 member with rfl | later
    · rw [own]
      rfl
    · rw [other e.1 (apart.1 n (List.mem_map_of_mem later)), ih apart.2 later]
      rfl

/-- A flag with the text it is written as. -/
structure Written {α : Type} (IsWritten : Text → α → Prop) where
  text : Text
  flag : α
  isWritten : IsWritten text flag

/-- Written flags with a space after each of them. -/
def Written.row {α : Type} {IsWritten : Text → α → Prop} (ws : List (Written IsWritten)) : Text :=
  ws.flatMap fun w => w.text ++ [' ']

/-! ## Flags of ADD and COPY -/

namespace TransferFlag

/-- The name of a flag. -/
def name : TransferFlag → Text
  | chown _ => "--chown".toList
  | chmod _ => "--chmod".toList
  | source _ => "--from".toList
  | checksum _ => "--checksum".toList
  | link _ => "--link".toList
  | keepGitDir _ => "--keep-git-dir".toList

/-- The flags that are given a value. -/
def valued : List (Text × (Text → TransferFlag)) :=
  [("--chown".toList, chown), ("--chmod".toList, chmod), ("--from".toList, source),
    ("--checksum".toList, checksum)]

/-- The flags that are switches. -/
def switches : List (Text × (Bool → TransferFlag)) :=
  [("--link".toList, link), ("--keep-git-dir".toList, keepGitDir)]

/-- How a flag is written: its name and a value, or the name of a switch, which is on unless a
truth value after the name says otherwise. -/
inductive IsWritten : Text → TransferFlag → Prop where
  | value {n v : Text} {f : Text → TransferFlag} : (n, f) ∈ valued → IsWord v →
      IsWritten (n ++ '=' :: v) (f v)
  | bare {n : Text} {f : Bool → TransferFlag} : (n, f) ∈ switches → IsWritten n (f true)
  | switch {n v : Text} {f : Bool → TransferFlag} {on : Bool} : (n, f) ∈ switches →
      sameWord (if on then "true".toList else "false".toList) v = true →
        IsWritten (n ++ '=' :: v) (f on)

variable {f : TransferFlag} {t r : Text}

theorem read?_eq (t : Text) : read? t =
    (valued.findSome? fun e => (flagValue? e.1 t).map fun p => (e.2 p.1, p.2)).or
      (switches.findSome? fun e => (flagSwitch? e.1 t).map fun p => (e.2 p.1, p.2)) := by
  simp only [valued, switches, findSome?_cons_eq_or, List.findSome?_nil, Option.or_none,
    Option.or_assoc]
  rfl

theorem switchSetting_eq {on : Bool} {v : Text}
    (same : sameWord (if on then "true".toList else "false".toList) v = true) (r : Text) :
    switchSetting ('=' :: (v ++ ' ' :: r)) = (on, ' ' :: r) := by
  have found := dropWord?_of_sameWord same (' ' :: r)
  rw [switchSetting, switchValue?]
  cases on with
  | true =>
    rw [if_pos rfl] at found
    rw [found]
    rfl
  | false =>
    rw [if_neg Bool.false_ne_true] at same found
    have other : dropWord? "true".toList (v ++ ' ' :: r) = none := by
      rw [sameWord, beq_iff_eq] at same
      cases v with
      | nil => cases same
      | cons c v =>
        have first : 'f'.toLower = c.toLower := (List.cons.inj same).1
        exact if_neg (by rw [← first]; decide)
    rw [other, found]
    rfl

theorem read?_of_switch {n : Text} {g : Bool → TransferFlag} (member : (n, g) ∈ switches)
    {on : Bool} {v : Text} (setting : switchSetting (v ++ ' ' :: r) = (on, ' ' :: r)) :
    read? (n ++ (v ++ ' ' :: r)) = some (g on, ' ' :: r) := by
  have switch : flagSwitch? n (n ++ (v ++ ' ' :: r)) = some (on, ' ' :: r) := by
    rw [flagSwitch?, dropPrefix?_eq_some_iff.2 rfl]
    simp only [Option.bind_eq_bind, Option.bind_some]
    rw [setting]
    rfl
  have unvalued : (valued.findSome? fun e =>
      (flagValue? e.1 (n ++ (v ++ ' ' :: r))).map fun p => (e.2 p.1, p.2)) = none := by
    have apart : ∀ e ∈ valued, ∀ d ∈ switches, AreApart e.1 d.1 := by decide
    rw [List.findSome?_eq_none_iff]
    intro e inside
    rw [flagValue?_of_not_isPrefix ((apart e inside (n, g) member).not_prefix_append _)]
    rfl
  rw [read?_eq, unvalued, Option.none_or]
  exact findSome?_of_areApart (flagSwitch? · _) (by decide) member switch fun m apart =>
    flagSwitch?_of_not_isPrefix (apart.not_prefix_append _)

/-- A flag with a space after it is read as it is written. -/
theorem IsWritten.read?_append (h : IsWritten t f) (r : Text) :
    read? (t ++ ' ' :: r) = some (f, ' ' :: r) := by
  cases h with
  | @value n v f member word =>
    have value : flagValue? n (n ++ '=' :: (v ++ ' ' :: r)) = some (v, ' ' :: r) :=
      flagValue?_eq n word (by rintro c ⟨⟩; decide)
    rw [List.append_assoc, List.cons_append, read?_eq]
    refine Option.or_eq_some_iff.2 (.inl ?_)
    exact findSome?_of_areApart (flagValue? · _) (by decide) member value fun m apart =>
      flagValue?_of_not_isPrefix (apart.not_prefix_append _)
  | bare member => exact read?_of_switch member (v := []) rfl
  | switch member same =>
    rw [List.append_assoc]
    exact read?_of_switch member (switchSetting_eq same r)

theorem readAll_of_none (none : read? (skipBlanks t) = none) : readAll t = ([], t) := by
  rw [readAll]
  split
  · rfl
  · next found =>
    rw [none] at found
    cases found

theorem readAll_of_some (some : read? (skipBlanks t) = some (f, r)) :
    readAll t = (f :: (readAll r).1, (readAll r).2) := by
  rw [readAll]
  split
  · next found =>
    rw [some] at found
    cases found
  · next found =>
    rw [some] at found
    cases found
    rfl

/-- Blanks before flags are passed over. -/
theorem readAll_congr {u : Text} (same : skipBlanks t = skipBlanks u) :
    (readAll t).1 = (readAll u).1 ∧ skipBlanks (readAll t).2 = skipBlanks (readAll u).2 := by
  cases found : read? (skipBlanks t) with
  | none =>
    rw [readAll_of_none found, readAll_of_none (same ▸ found)]
    exact ⟨rfl, same⟩
  | some p =>
    obtain ⟨f, r⟩ := p
    rw [readAll_of_some found, readAll_of_some (t := u) (same ▸ found)]
    exact ⟨rfl, rfl⟩

theorem IsWritten.skipBlanks_append (h : IsWritten t f) (r : Text) :
    skipBlanks (t ++ r) = t ++ r := by
  have values : ∀ e ∈ valued, ∃ s, e.1 = '-' :: s := by simp [valued]
  have settings : ∀ e ∈ switches, ∃ s, e.1 = '-' :: s := by simp [switches]
  cases h with
  | @value n v f member =>
    obtain ⟨s, rfl⟩ : ∃ s, n = '-' :: s := values (n, f) member
    rfl
  | @bare t f member =>
    obtain ⟨s, rfl⟩ : ∃ s, t = '-' :: s := settings (t, f) member
    rfl
  | @switch n v f on member =>
    obtain ⟨s, rfl⟩ : ∃ s, n = '-' :: s := settings (n, f) member
    rfl

theorem readAll_row (ws : List (Written IsWritten)) (t : Text) :
    (readAll (Written.row ws ++ t)).1 = ws.map Written.flag ++ (readAll t).1 ∧
      skipBlanks (readAll (Written.row ws ++ t)).2 = skipBlanks (readAll t).2 := by
  induction ws with
  | nil => exact ⟨rfl, rfl⟩
  | cons w ws ih =>
    have after := readAll_congr (t := ' ' :: (Written.row ws ++ t)) (u := Written.row ws ++ t) rfl
    have read : read? (skipBlanks (w.text ++ ' ' :: (Written.row ws ++ t))) =
        some (w.flag, ' ' :: (Written.row ws ++ t)) := by
      rw [w.isWritten.skipBlanks_append, w.isWritten.read?_append]
    have split : Written.row (w :: ws) ++ t = w.text ++ ' ' :: (Written.row ws ++ t) := by
      simp [Written.row]
    rw [split, readAll_of_some read]
    exact ⟨by rw [List.map_cons, List.cons_append, after.1, ih.1], after.2.trans ih.2⟩

theorem set?_swap_chown (owner : Text) (g : TransferFlag) (other : (chown owner).name ≠ g.name)
    (flags : TransferFlags) :
    (set? flags (chown owner)).bind (set? · g) = (set? flags g).bind (set? · (chown owner)) := by
  cases g with
  | chown => exact absurd rfl other
  | _ =>
    simp only [set?]
    cases Owner.read? owner <;> rfl

/-- Flags with different names do not get in each other's way. -/
theorem set?_swap (f g : TransferFlag) (other : f.name ≠ g.name) (flags : TransferFlags) :
    (set? flags f).bind (set? · g) = (set? flags g).bind (set? · f) := by
  cases f with
  | chown owner => exact set?_swap_chown owner g other flags
  | _ =>
    cases g with
    | chown owner => exact (set?_swap_chown owner _ other.symm flags).symm
    | _ => first | rfl | exact absurd rfl other

end TransferFlag

namespace Transfer

/-- Reads paths, which are an array or words. -/
def ofText? (t : Text) (flags : TransferFlags) : Option Transfer :=
  match Arguments.wholeArray? (skipBlanks t) with
  | some items => ofPaths? items flags
  | none => ofPaths? (escapedWords (skipBlanks t)) flags

theorem read?_eq (t : Text) : read? t =
    ((TransferFlag.readAll t).1.foldlM TransferFlag.set? .empty).bind
      (ofText? (TransferFlag.readAll t).2) := rfl

/-- Flags are taken over in the order they are written in, whatever follows them. -/
theorem read?_row (ws : List (Written TransferFlag.IsWritten)) (t : Text) :
    read? (Written.row ws ++ t) =
      ((ws.map Written.flag).foldlM TransferFlag.set? .empty).bind fun flags =>
        ((TransferFlag.readAll t).1.foldlM TransferFlag.set? flags).bind
          (ofText? (TransferFlag.readAll t).2) := by
  obtain ⟨flags, rest⟩ := TransferFlag.readAll_row ws t
  have paths : ofText? (TransferFlag.readAll (Written.row ws ++ t)).2 =
      ofText? (TransferFlag.readAll t).2 := by
    funext flags
    rw [ofText?, ofText?, rest]
  rw [read?_eq, flags, paths, List.foldlM_append]
  exact Option.bind_assoc ..

end Transfer

/-! ## Options of HEALTHCHECK -/

namespace HealthOption

/-- The name of an option. -/
def name : HealthOption → Text
  | interval _ => "--interval".toList
  | timeout _ => "--timeout".toList
  | startPeriod _ => "--start-period".toList
  | startInterval _ => "--start-interval".toList
  | retries _ => "--retries".toList

/-- The options, each under its name. -/
def named : List (Text × (Text → HealthOption)) :=
  [("--interval".toList, interval), ("--timeout".toList, timeout),
    ("--start-period".toList, startPeriod), ("--start-interval".toList, startInterval),
    ("--retries".toList, retries)]

/-- How an option is written: its name and a value. -/
inductive IsWritten : Text → HealthOption → Prop where
  | value {n v : Text} {f : Text → HealthOption} : (n, f) ∈ named → IsWord v →
      IsWritten (n ++ '=' :: v) (f v)

variable {o : HealthOption} {t r : Text}

theorem read?_eq (t : Text) :
    read? t = named.findSome? fun e => (setting? e.1 t).map fun p => (e.2 p.1, p.2) := by
  simp only [named, findSome?_cons_eq_or, List.findSome?_nil, Option.or_none]
  rfl

theorem IsWritten.read?_append (h : IsWritten t o) (r : Text) :
    read? (t ++ ' ' :: r) = some (o, skipBlanks r) := by
  cases h with
  | @value n v f member word =>
    have value : setting? n (n ++ '=' :: (v ++ ' ' :: r)) = some (v, skipBlanks r) := by
      rw [setting?, flagValue?_eq n word (by rintro c ⟨⟩; decide)]
      rfl
    rw [List.append_assoc, List.cons_append, read?_eq]
    refine findSome?_of_areApart (setting? · _) (by decide) member value fun m apart => ?_
    rw [setting?, flagValue?_of_not_isPrefix (apart.not_prefix_append _)]
    rfl

theorem IsWritten.exists_eq (h : IsWritten t o) : ∃ s, t = '-' :: s := by
  have values : ∀ e ∈ named, ∃ s, e.1 = '-' :: s := by simp [named]
  cases h with
  | @value n v f member =>
    obtain ⟨s, rfl⟩ : ∃ s, n = '-' :: s := values (n, f) member
    exact ⟨_, rfl⟩

theorem IsWritten.skipBlanks_append (h : IsWritten t o) (r : Text) :
    skipBlanks (t ++ r) = t ++ r := by
  obtain ⟨s, rfl⟩ := h.exists_eq
  rfl

theorem readAll_of_some (some : read? t = some (o, r)) :
    readAll t = (o :: (readAll r).1, (readAll r).2) := by
  rw [readAll]
  split
  · next found =>
    rw [some] at found
    cases found
  · next found =>
    rw [some] at found
    cases found
    rfl

theorem readAll_row {ws : List (Written IsWritten)} (nonempty : ws ≠ []) (t : Text) :
    readAll (Written.row ws ++ t) =
      (ws.map Written.flag ++ (readAll (skipBlanks t)).1, (readAll (skipBlanks t)).2) := by
  induction ws with
  | nil => exact absurd rfl nonempty
  | cons w ws ih =>
    have split : Written.row (w :: ws) ++ t = w.text ++ ' ' :: (Written.row ws ++ t) := by
      simp [Written.row]
    rw [split, readAll_of_some (w.isWritten.read?_append _)]
    cases ws with
    | nil => rfl
    | cons v ws =>
      have solid : skipBlanks (Written.row (v :: ws) ++ t) = Written.row (v :: ws) ++ t := by
        rw [Written.row, List.flatMap_cons, List.append_assoc, List.append_assoc]
        exact v.isWritten.skipBlanks_append _
      rw [solid, ih (List.cons_ne_nil v ws)]
      rfl

theorem set?_swap_retries (count : Text) (p : HealthOption) (other : (retries count).name ≠ p.name)
    (options : HealthOptions) :
    (set? options (retries count)).bind (set? · p) =
      (set? options p).bind (set? · (retries count)) := by
  cases p with
  | retries => exact absurd rfl other
  | _ =>
    simp only [set?]
    cases numeral? count <;> rfl

/-- Options with different names do not get in each other's way. -/
theorem set?_swap (o p : HealthOption) (other : o.name ≠ p.name) (options : HealthOptions) :
    (set? options o).bind (set? · p) = (set? options p).bind (set? · o) := by
  cases o with
  | retries count => exact set?_swap_retries count p other options
  | _ =>
    cases p with
    | retries count => exact (set?_swap_retries count _ other.symm options).symm
    | _ => first | rfl | exact absurd rfl other

end HealthOption

namespace HealthCheck

/-- Reads CMD and the arguments after it. -/
def ofText? (t : Text) (options : HealthOptions) : Option HealthCheck := do
  let r ← dropWord? "CMD".toList t
  let r ← blanks? r
  let arguments ← Arguments.read? r
  some (command arguments options)

/-- Options are taken over in the order they are written in, whatever follows them. -/
theorem read?_row {ws : List (Written HealthOption.IsWritten)} (nonempty : ws ≠ []) (t : Text) :
    read? (Written.row ws ++ t) =
      ((ws.map Written.flag).foldlM HealthOption.set? .empty).bind fun options =>
        ((HealthOption.readAll (skipBlanks t)).1.foldlM HealthOption.set? options).bind
          (ofText? (HealthOption.readAll (skipBlanks t)).2) := by
  have on : isOff (Written.row ws ++ t) = false := by
    obtain ⟨w, ws, rfl⟩ := List.exists_cons_of_ne_nil nonempty
    obtain ⟨s, first⟩ := w.isWritten.exists_eq
    rw [Written.row, List.flatMap_cons, first]
    rfl
  have read : read? (Written.row ws ++ t) =
      ((HealthOption.readAll (Written.row ws ++ t)).1.foldlM HealthOption.set? .empty).bind
        (ofText? (HealthOption.readAll (Written.row ws ++ t)).2) := by
    rw [read?, on]
    rfl
  rw [read, HealthOption.readAll_row nonempty, List.foldlM_append]
  exact Option.bind_assoc ..

end HealthCheck

/-! ## Flags hold no white space -/

/-- A word with a name and an equals sign before it, or any text without white space there. -/
theorem solid_of_name {n v : Text} (name : n.all (fun c => !isSpace c) = true)
    (solid : ∀ c ∈ v, isSpace c = false) : ∀ c ∈ n ++ '=' :: v, isSpace c = false := by
  intro c inside
  simp only [List.mem_append, List.mem_cons] at inside
  rcases inside with named | rfl | valued
  · simpa using List.all_eq_true.1 name c named
  · decide
  · exact solid c valued

theorem solid_of_sameWord {p w : Text} (same : sameWord p w = true)
    (solid : (p.map Char.toLower).all (fun c => !isSpace c) = true) :
    ∀ c ∈ w, isSpace c = false := by
  intro c inside
  by_contra space
  rw [Bool.not_eq_false] at space
  rw [sameWord, beq_iff_eq] at same
  have lower : c.toLower ∈ p.map Char.toLower := by
    rw [same]
    exact List.mem_map_of_mem inside
  rw [toLower_of_isSpace space] at lower
  have := List.all_eq_true.1 solid c lower
  rw [space] at this
  cases this

theorem TransferFlag.IsWritten.solid {f : TransferFlag} {t : Text} (h : IsWritten t f) :
    ∀ c ∈ t, isSpace c = false := by
  have values : ∀ e ∈ valued, e.1.all (fun c => !isSpace c) = true := by decide
  have settings : ∀ e ∈ switches, e.1.all (fun c => !isSpace c) = true := by decide
  cases h with
  | @value n v f member word => exact solid_of_name (values (n, f) member) word.solid
  | @bare t f member =>
    intro c inside
    simpa using List.all_eq_true.1 (settings (t, f) member) c inside
  | @switch n v f on member same =>
    exact solid_of_name (settings (n, f) member)
      (solid_of_sameWord same (by cases on <;> decide))

theorem HealthOption.IsWritten.solid {o : HealthOption} {t : Text} (h : IsWritten t o) :
    ∀ c ∈ t, isSpace c = false := by
  have values : ∀ e ∈ named, e.1.all (fun c => !isSpace c) = true := by decide
  cases h with
  | @value n v f member word => exact solid_of_name (values (n, f) member) word.solid

theorem Written.newline_notMem_row {α : Type} {IsWritten : Text → α → Prop}
    (solid : ∀ {t a}, IsWritten t a → ∀ c ∈ t, isSpace c = false)
    (ws : List (Written IsWritten)) : '\n' ∉ row ws := by
  simp only [row, List.mem_flatMap, List.mem_append, List.mem_singleton, not_exists, not_and,
    not_or]
  refine fun w _ => ⟨fun inside => ?_, by decide⟩
  exact absurd (solid w.isWritten _ inside) (by decide)

end ImageAudit
