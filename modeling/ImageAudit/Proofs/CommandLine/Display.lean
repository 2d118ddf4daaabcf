import ImageAudit.CommandLine.Options
import ImageAudit.Proofs.Basic

/-!
# Arguments on the display

Some options only say how results are shown. The arguments that give them may be taken away: what is
left says the same of everything else.

* `Options.withoutDisplay` forgets what options say of the display.
* `Options.dropDisplay` takes arguments away.
* `Options.read_dropDisplay`: both come to the same.
-/

namespace ImageAudit.Options

open Text

/-! ## Options on the display -/

/-- Whether an option is about how results are shown. -/
def Name.isDisplay : Name → Bool
  | setting .format | switch .noColour | switch .quiet | verbose => true
  | _ => false

/-- Options that say nothing of how results are shown. -/
def withoutDisplay (o : Options) : Options :=
  { o with format := .terminal, noColour := false, verbosity := 0, quiet := false }

/-- The letters of an argument without those of such options. -/
def dropLetters : Text → Text
  | [] => []
  | c :: r =>
    match shortName? c with
    | none | some (.setting _) => c :: r
    | some n => if n.isDisplay then dropLetters r else c :: dropLetters r

/-- What is left of an argument, if it gives other options too. -/
def otherThanDisplay? : Text → Option Text
  | '-' :: '-' :: w =>
    if (longName? (((cut '=' w).map (·.1)).getD w)).any Name.isDisplay then none
    else some ('-' :: '-' :: w)
  | '-' :: c :: r =>
    match dropLetters (c :: r) with
    | [] => none
    | l => some ('-' :: l)
  | v => some v

/-- The argument that is followed by a format. -/
def formatArgument : Text := "--format".toList

/-- Arguments without those on how results are shown. -/
def dropDisplay : List Text → List Text
  | [] => []
  | [a] => (otherThanDisplay? a).toList
  | a :: v :: as =>
    if a == formatArgument then dropDisplay as
    else (otherThanDisplay? a).toList ++ dropDisplay (v :: as)

theorem isDisplay_of_shortName? {c : Char} {s : Setting}
    (named : shortName? c = some (.setting s)) : (Name.setting s).isDisplay = false := by
  have listed := mem_of_lookup named
  cases s with
  | format => simp at listed
  | _ => rfl

theorem eq_format_of_longName? {w : Text} (named : longName? w = some (.setting .format)) :
    w = "format".toList := by
  have listed := mem_of_lookup named
  simpa using listed

theorem dropLetters_cons {c : Char} {n : Name} (named : shortName? c = some n)
    (plain : ∀ s, n ≠ .setting s) (r : Text) :
    dropLetters (c :: r) = if n.isDisplay then dropLetters r else c :: dropLetters r := by
  rw [dropLetters, named]
  cases n with
  | setting s => exact absurd rfl (plain s)
  | _ => rfl

theorem dropLetters_setting {c : Char} {s : Setting} (named : shortName? c = some (.setting s))
    (r : Text) : dropLetters (c :: r) = c :: r := by
  rw [dropLetters, named]

namespace Given

/-- What has been read of anything but the display. -/
def withoutDisplay (g : Given) : Given where
  values := g.values.filter fun v => !(Name.setting v.1).isDisplay
  switches := g.switches.filter fun s => !(Name.switch s).isDisplay
  verbosity := 0
  pending := g.pending

variable {g g' h : Given}

/-! ## Settling -/

theorem eq_of_take {s : Setting} {v : Text} (taken : g.take s v = .ok g') :
    (g.values.lookup s).isSome = false ∧ s.takes v = true ∧
      g' = { g with values := (s, v) :: g.values } := by
  rw [take] at taken
  split at taken
  · cases taken
  · next fresh =>
    split at taken
    · next fits =>
      cases taken
      exact ⟨Bool.eq_false_iff.2 fresh, fits, rfl⟩
    · cases taken

theorem pending_of_settle (settled : g.settle = .ok g') : g'.pending = .nothing := by
  rw [settle] at settled
  split at settled
  · next nothing =>
    cases settled
    exact nothing
  · cases settled
  · obtain ⟨-, -, rfl⟩ := eq_of_take settled
    rfl

theorem settle_of_nothing (settled : g.pending = .nothing) : g.settle = .ok g := by
  rw [settle, settled]

theorem mention_eq_of_settle (settled : g.settle = .ok g') (n : Name) :
    g.mention n = g'.mention n := by
  rw [mention, mention, settled, settle_of_nothing (pending_of_settle settled)]

theorem attach_eq_of_settle (settled : g.settle = .ok g') (n : Name) (v : Text) :
    g.attach n v = g'.attach n v := by
  cases n with
  | setting s => rw [attach, attach, settled, settle_of_nothing (pending_of_settle settled)]
  | _ => rfl

/-! ## What has been read -/

section

variable {s : Setting} {v : Text}

theorem lookup_withoutDisplay (g : Given) (other : (Name.setting s).isDisplay = false) :
    g.withoutDisplay.values.lookup s = g.values.lookup s :=
  lookup_filter (fun s => !(Name.setting s).isDisplay) (by simp [other]) g.values

theorem contains_withoutDisplay (g : Given) {s : Switch}
    (other : (Name.switch s).isDisplay = false) :
    g.withoutDisplay.switches.contains s = g.switches.contains s := by
  simp [withoutDisplay, other]

theorem take_withoutDisplay (other : (Name.setting s).isDisplay = false)
    (taken : g.take s v = .ok g') : g.withoutDisplay.take s v = .ok g'.withoutDisplay := by
  obtain ⟨fresh, fits, rfl⟩ := eq_of_take taken
  rw [take, lookup_withoutDisplay g other, fresh, if_neg Bool.false_ne_true, if_pos fits]
  simp [withoutDisplay, other]

theorem withoutDisplay_of_take (display : (Name.setting s).isDisplay = true)
    (taken : g.take s v = .ok g') : g'.withoutDisplay = g.withoutDisplay := by
  obtain ⟨-, -, rfl⟩ := eq_of_take taken
  simp [withoutDisplay, display]

end

/-- Whether two readings have come to the same but for the display, once the values that are read
are judged. -/
def Agrees (g h : Given) : Prop :=
  ∃ g', g.settle = .ok g' ∧ h.settle = .ok g'.withoutDisplay

/-- Whether two readings agree, or await the value of the same option. -/
inductive Follows : Given → Given → Prop where
  | agrees {g h : Given} (same : Agrees g h) : Follows g h
  | awaits {g : Given} {s : Setting} (other : (Name.setting s).isDisplay = false)
      (settled : g.pending = .nothing) :
      Follows { g with pending := .awaits s } { g.withoutDisplay with pending := .awaits s }

theorem Agrees.of_settled (settled : g.pending = .nothing) : Agrees g g.withoutDisplay :=
  ⟨g, settle_of_nothing settled, settle_of_nothing settled⟩

/-! ## One argument -/

theorem Agrees.mention_setting (same : Agrees g h) {s : Setting}
    (other : (Name.setting s).isDisplay = false) (read : g.mention (.setting s) = .ok g') :
    ∃ h', h.mention (.setting s) = .ok h' ∧ Follows g' h' := by
  obtain ⟨g₀, settled, settled'⟩ := same
  rw [mention_eq_of_settle settled, mention,
    settle_of_nothing (pending_of_settle settled)] at read
  cases read
  refine ⟨{ g₀.withoutDisplay with pending := .awaits s }, ?_,
    .awaits other (pending_of_settle settled)⟩
  rw [mention, settled']
  rfl

theorem mention_switch (settled : g.pending = .nothing) (s : Switch) :
    g.mention (.switch s) =
      if g.switches.contains s then .error .conflict
      else .ok { g with switches := s :: g.switches } := by
  rw [mention, settle_of_nothing settled]
  rfl

theorem eq_of_mention_switch {s : Switch} (settled : g.pending = .nothing)
    (read : g.mention (.switch s) = .ok g') :
    g.switches.contains s = false ∧ g' = { g with switches := s :: g.switches } := by
  rw [mention_switch settled] at read
  split at read
  · cases read
  · next fresh =>
    cases read
    exact ⟨Bool.eq_false_iff.2 fresh, rfl⟩

theorem Agrees.mention_display (same : Agrees g h) {n : Name} (display : n.isDisplay = true)
    (plain : ∀ s, n ≠ .setting s) (read : g.mention n = .ok g') : Agrees g' h := by
  obtain ⟨g₀, settled, settled'⟩ := same
  have nothing := pending_of_settle settled
  rw [mention_eq_of_settle settled] at read
  -- All that such an option changes is forgotten.
  suffices g'.pending = .nothing ∧ g'.withoutDisplay = g₀.withoutDisplay from
    ⟨g', settle_of_nothing this.1, this.2 ▸ settled'⟩
  cases n with
  | setting s => exact absurd rfl (plain s)
  | switch s =>
    obtain ⟨-, rfl⟩ := eq_of_mention_switch nothing read
    exact ⟨nothing, by simp [withoutDisplay, display]⟩
  | verbose =>
    rw [mention, settle_of_nothing nothing] at read
    cases read
    exact ⟨nothing, rfl⟩
  | help | version => cases display

theorem Agrees.mention_other (same : Agrees g h) {n : Name} (other : n.isDisplay = false)
    (plain : ∀ s, n ≠ .setting s) (read : g.mention n = .ok g') :
    ∃ h', h.mention n = .ok h' ∧ Agrees g' h' := by
  obtain ⟨g₀, settled, settled'⟩ := same
  have nothing := pending_of_settle settled
  rw [mention_eq_of_settle settled] at read
  cases n with
  | setting s => exact absurd rfl (plain s)
  | switch s =>
    obtain ⟨fresh, rfl⟩ := eq_of_mention_switch nothing read
    refine ⟨_, ?_, .of_settled nothing⟩
    rw [mention_eq_of_settle settled', mention_switch (g := g₀.withoutDisplay) nothing,
      contains_withoutDisplay g₀ other, fresh, if_neg Bool.false_ne_true]
    simp [withoutDisplay, other]
  | verbose => cases other
  | help | version =>
    rw [mention, settle_of_nothing nothing] at read
    cases read

theorem eq_of_attach {n : Name} {v : Text} (settled : g.pending = .nothing)
    (read : g.attach n v = .ok g') : ∃ s, n = .setting s ∧ g.take s v = .ok g' := by
  cases n with
  | setting s =>
    rw [attach, settle_of_nothing settled] at read
    exact ⟨s, rfl, read⟩
  | _ => cases read

theorem pending_of_take {s : Setting} {v : Text} (taken : g.take s v = .ok g') :
    g'.pending = g.pending := by
  obtain ⟨-, -, rfl⟩ := eq_of_take taken
  rfl

theorem Agrees.attach_display (same : Agrees g h) {n : Name} {v : Text}
    (display : n.isDisplay = true) (read : g.attach n v = .ok g') : Agrees g' h := by
  obtain ⟨g₀, settled, settled'⟩ := same
  have nothing := pending_of_settle settled
  rw [attach_eq_of_settle settled] at read
  obtain ⟨s, rfl, taken⟩ := eq_of_attach nothing read
  refine ⟨g', settle_of_nothing (pending_of_take taken ▸ nothing), ?_⟩
  rw [withoutDisplay_of_take display taken, settled']

theorem Agrees.attach_other (same : Agrees g h) {n : Name} {v : Text}
    (other : n.isDisplay = false) (read : g.attach n v = .ok g') :
    ∃ h', h.attach n v = .ok h' ∧ Agrees g' h' := by
  obtain ⟨g₀, settled, settled'⟩ := same
  have nothing := pending_of_settle settled
  rw [attach_eq_of_settle settled] at read
  obtain ⟨s, rfl, taken⟩ := eq_of_attach nothing read
  refine ⟨g'.withoutDisplay, ?_, .of_settled (pending_of_take taken ▸ nothing)⟩
  rw [attach, settled']
  exact take_withoutDisplay other taken

/-! ## Letters and words -/

theorem letters_cons {c : Char} {n : Name} (named : shortName? c = some n)
    (plain : ∀ s, n ≠ .setting s) (g : Given) (r : Text) :
    g.letters (c :: r) = (g.mention n).bind fun g => g.letters r := by
  rw [letters, named]
  cases n with
  | setting s => exact absurd rfl (plain s)
  | _ => rfl

theorem letters_setting {c : Char} {s : Setting} (named : shortName? c = some (.setting s))
    (g : Given) (r : Text) :
    g.letters (c :: r) =
      if r.isEmpty then g.mention (.setting s) else g.attach (.setting s) (dropEquals r) := by
  rw [letters, named]

theorem Agrees.letters (same : Agrees g h) {l : Text} (read : g.letters l = .ok g') :
    ∃ h', h.letters (dropLetters l) = .ok h' ∧ Follows g' h' := by
  induction l generalizing g h with
  | nil =>
    cases read
    exact ⟨h, rfl, .agrees same⟩
  | cons c r ih =>
    cases named : shortName? c with
    | none =>
      rw [Given.letters, named] at read
      cases read
    | some n =>
      by_cases takes_value : ∃ s, n = .setting s
      · -- What follows the letter is a value, and not looked into.
        obtain ⟨s, rfl⟩ := takes_value
        have other := isDisplay_of_shortName? named
        rw [dropLetters_setting named, letters_setting named]
        rw [letters_setting named] at read
        split at read
        · next last =>
          rw [if_pos last]
          exact same.mention_setting other read
        · next more =>
          rw [if_neg more]
          obtain ⟨h', read', same'⟩ := same.attach_other other read
          exact ⟨h', read', .agrees same'⟩
      · have plain : ∀ s, n ≠ .setting s := not_exists.1 takes_value
        rw [letters_cons named plain] at read
        obtain ⟨g₁, first, rest⟩ := bind_eq_ok_iff.1 read
        rw [dropLetters_cons named plain]
        cases display : n.isDisplay with
        | true => exact ih (same.mention_display display plain first) rest
        | false =>
          obtain ⟨h₁, first', same₁⟩ := same.mention_other display plain first
          obtain ⟨h', rest', follows⟩ := ih same₁ rest
          refine ⟨h', ?_, follows⟩
          rw [if_neg Bool.false_ne_true, letters_cons named plain]
          exact bind_eq_ok_iff.2 ⟨h₁, first', rest'⟩

theorem Agrees.mention (same : Agrees g h) {n : Name} (other : n.isDisplay = false)
    (read : g.mention n = .ok g') : ∃ h', h.mention n = .ok h' ∧ Follows g' h' := by
  by_cases takes_value : ∃ s, n = .setting s
  · obtain ⟨s, rfl⟩ := takes_value
    exact same.mention_setting other read
  · obtain ⟨h', read', same'⟩ := same.mention_other other (not_exists.1 takes_value) read
    exact ⟨h', read', .agrees same'⟩

/-! ## Forms of arguments -/

/-- Whether an argument gives options, and no value. -/
def isOption : Text → Bool
  | '-' :: _ :: _ => true
  | _ => false

/-- An argument is a word, or has letters, or is a value. -/
inductive Form : Text → Prop where
  | word (w : Text) : Form ('-' :: '-' :: w)
  | letters {c : Char} (short : c ≠ '-') (r : Text) : Form ('-' :: c :: r)
  | value {a : Text} (plain : isOption a = false) : Form a

theorem form (a : Text) : Form a := by
  cases option : isOption a with
  | false => exact .value option
  | true =>
    unfold isOption at option
    split at option
    · next c r =>
      by_cases short : c = '-'
      · subst short
        exact .word r
      · exact .letters short r
    · cases option

theorem argument_letters {c : Char} (short : c ≠ '-') (g : Given) (r : Text) :
    g.argument ('-' :: c :: r) = g.letters (c :: r) := by
  unfold argument
  split
  · next same => exact absurd (List.cons.inj (List.cons.inj same).2).1 short
  · next same =>
    cases same
    rfl
  · next other => exact absurd rfl (other c r)

theorem argument_value {a : Text} (plain : isOption a = false) (g : Given) :
    g.argument a = g.value a := by
  unfold argument
  split
  · cases plain
  · cases plain
  · rfl

theorem otherThanDisplay?_value {a : Text} (plain : isOption a = false) :
    otherThanDisplay? a = some a := by
  unfold otherThanDisplay?
  split
  · cases plain
  · cases plain
  · rfl

theorem exists_awaits_of_value {a : Text} (plain : isOption a = false)
    (read : g.argument a = .ok g') : ∃ s, g.pending = .awaits s := by
  rw [argument_value plain, Given.value] at read
  split at read
  · next s awaits => exact ⟨s, awaits⟩
  · cases read

/-! ## Values that are awaited -/

theorem exists_settle_of_mention {n : Name} (read : g.mention n = .ok g') :
    ∃ g₀, g.settle = .ok g₀ := by
  obtain ⟨g₀, settled, -⟩ := bind_eq_ok_iff.1 read
  exact ⟨g₀, settled⟩

theorem exists_settle_of_attach {n : Name} {v : Text} (read : g.attach n v = .ok g') :
    ∃ g₀, g.settle = .ok g₀ := by
  cases n with
  | setting s =>
    obtain ⟨g₀, settled, -⟩ := bind_eq_ok_iff.1 read
    exact ⟨g₀, settled⟩
  | _ => cases read

/-- Every option has the value before it judged. -/
theorem exists_settle_of_argument {a : Text} (option : isOption a = true)
    (read : g.argument a = .ok g') : ∃ g₀, g.settle = .ok g₀ := by
  cases form a with
  | value plain =>
    rw [option] at plain
    cases plain
  | word w =>
    change g.word w = _ at read
    rw [word] at read
    split at read
    · split at read
      · exact exists_settle_of_attach read
      · cases read
    · split at read
      · exact exists_settle_of_mention read
      · cases read
  | letters short r =>
    rw [argument_letters short, Given.letters] at read
    split at read
    · cases read
    · split at read
      · exact exists_settle_of_mention read
      · exact exists_settle_of_attach read
    · obtain ⟨g₁, first, -⟩ := bind_eq_ok_iff.1 read
      exact exists_settle_of_mention first

theorem settle_of_awaits {s : Setting} (awaits : g.pending = .awaits s) :
    g.settle = .error .invalidValue := by
  rw [settle, awaits]

theorem value_of_awaits {s : Setting} {a : Text} (awaits : g.pending = .awaits s)
    (read : g.argument a = .ok g') :
    isOption a = false ∧ g' = { g with pending := .has s a } := by
  cases option : isOption a with
  | true =>
    obtain ⟨g₀, settled⟩ := exists_settle_of_argument option read
    rw [settle_of_awaits awaits] at settled
    cases settled
  | false =>
    rw [argument_value option, value, awaits] at read
    cases read
    exact ⟨rfl, rfl⟩

/-- Two hyphens, after which there are no options. -/
def hyphens : Text := ['-', '-']

theorem arguments_cons_eq_ok {a : Text} {as : List Text} {r : Given}
    (read : arguments g (a :: as) = .ok r) :
    (a = hyphens ∧ as = [] ∧ g.settle = .ok r) ∨
      ∃ g', g.argument a = .ok g' ∧ arguments g' as = .ok r := by
  rw [arguments] at read
  split at read
  · next same =>
    split at read
    · next last => exact .inl ⟨by simpa [hyphens] using same, by simpa using last, read⟩
    · cases read
  · exact .inr (bind_eq_ok_iff.1 read)

theorem arguments_cons {a : Text} (read : g.argument a = .ok g') (as : List Text) :
    arguments g (a :: as) = arguments g' as := by
  have other : (a == ['-', '-']) = false := by
    rw [beq_eq_false_iff_ne]
    rintro rfl
    cases read
  rw [arguments, other, if_neg Bool.false_ne_true, read]
  rfl

/-- Whatever is read to the end has all its values judged. -/
theorem exists_settle {as : List Text} {r : Given} (idle : ∀ s, g.pending ≠ .awaits s)
    (read : arguments g as = .ok r) : ∃ g₀, g.settle = .ok g₀ := by
  cases as with
  | nil => exact ⟨r, read⟩
  | cons a as =>
    rcases arguments_cons_eq_ok read with ⟨-, -, settled⟩ | ⟨g', read, -⟩
    · exact ⟨r, settled⟩
    · cases option : isOption a with
      | true => exact exists_settle_of_argument option read
      | false =>
        obtain ⟨s, awaits⟩ := exists_awaits_of_value option read
        exact absurd awaits (idle s)

/-! ## What is left of an argument -/

/-- Whether what is left of an argument takes the second reading where it takes the first. -/
def Leaves (g' h : Given) (a : Text) : Prop :=
  ∃ h', Follows g' h' ∧ ∀ as, arguments h ((otherThanDisplay? a).toList ++ as) = arguments h' as

theorem Leaves.nothing {a : Text} (left : otherThanDisplay? a = none) (follows : Follows g' h) :
    Leaves g' h a :=
  ⟨h, follows, fun as => by rw [left]; rfl⟩

theorem Leaves.something {a b : Text} {h' : Given} (left : otherThanDisplay? a = some b)
    (read : h.argument b = .ok h') (follows : Follows g' h') : Leaves g' h a :=
  ⟨h', follows, fun as => by rw [left]; exact arguments_cons read as⟩

theorem Agrees.word (same : Agrees g h) {w : Text} (other : '-' :: '-' :: w ≠ formatArgument)
    (read : g.word w = .ok g') : Leaves g' h ('-' :: '-' :: w) := by
  have word_eq (h : Given) : h.argument ('-' :: '-' :: w) = h.word w := rfl
  rw [Given.word] at read
  cases cutting : cut '=' w with
  | some parts =>
    obtain ⟨name, v⟩ := parts
    cases named : longName? name with
    | none => simp [cutting, named] at read
    | some n =>
      simp only [cutting, named] at read
      cases display : n.isDisplay with
      | true =>
        exact .nothing (by simp [otherThanDisplay?, cutting, named, display])
          (.agrees (same.attach_display display read))
      | false =>
        obtain ⟨h', read', same'⟩ := same.attach_other display read
        exact .something (b := '-' :: '-' :: w)
          (by simp [otherThanDisplay?, cutting, named, display])
          (by simp [word_eq, Given.word, cutting, named, read']) (.agrees same')
  | none =>
    cases named : longName? w with
    | none => simp [cutting, named] at read
    | some n =>
      simp only [cutting, named] at read
      cases display : n.isDisplay with
      | true =>
        have plain : ∀ s, n ≠ .setting s := by
          rintro s rfl
          cases s with
          | format => exact other (by rw [eq_format_of_longName? named]; rfl)
          | _ => cases display
        exact .nothing (by simp [otherThanDisplay?, cutting, named, display])
          (.agrees (same.mention_display display plain read))
      | false =>
        obtain ⟨h', read', follows⟩ := same.mention display read
        exact .something (b := '-' :: '-' :: w)
          (by simp [otherThanDisplay?, cutting, named, display])
          (by simp [word_eq, Given.word, cutting, named, read']) follows

theorem Agrees.argument (same : Agrees g h) {a : Text} (other : a ≠ formatArgument)
    (read : g.argument a = .ok g') : Leaves g' h a := by
  cases form a with
  | word w => exact same.word other read
  | @letters c short r =>
    rw [argument_letters short] at read
    obtain ⟨h', read', follows⟩ := same.letters read
    cases left : dropLetters (c :: r) with
    | nil =>
      rw [left] at read'
      cases read'
      exact .nothing (by simp [otherThanDisplay?, left]) follows
    | cons x l =>
      rw [left] at read'
      have short' : x ≠ '-' := by
        rintro rfl
        cases read'
      exact .something (by simp [otherThanDisplay?, left])
        ((argument_letters short' h l).trans read') follows
  | value plain =>
    -- No value is awaited.
    obtain ⟨g₀, settled, -⟩ := same
    obtain ⟨s, awaits⟩ := exists_awaits_of_value plain read
    rw [settle_of_awaits awaits] at settled
    cases settled

theorem Follows.argument {a : Text} {as : List Text} {r : Given} (follows : Follows g h)
    (other : a ≠ formatArgument) (read : g.argument a = .ok g') (rest : arguments g' as = .ok r) :
    Leaves g' h a := by
  cases follows with
  | agrees same => exact same.argument other read
  | @awaits g s display settled =>
    obtain ⟨plain, rfl⟩ := value_of_awaits rfl read
    -- The value is judged later, but it is judged.
    obtain ⟨g₁, taken⟩ := exists_settle (by simp) rest
    have read' : argument { g.withoutDisplay with pending := .awaits s } a =
        .ok { g.withoutDisplay with pending := .has s a } := argument_value plain _
    exact .something (otherThanDisplay?_value plain) read'
      (.agrees ⟨g₁, taken, take_withoutDisplay display taken⟩)

/-! ## All arguments -/

theorem Follows.arguments_nil {r : Given} (follows : Follows g h) (read : arguments g [] = .ok r) :
    arguments h [] = .ok r.withoutDisplay := by
  cases follows with
  | agrees same =>
    obtain ⟨g₀, settled, settled'⟩ := same
    rw [arguments, settled] at read
    cases read
    exact settled'
  | awaits => cases read

theorem exists_of_argument_format (read : g.argument formatArgument = .ok g') :
    ∃ g₀, g.settle = .ok g₀ ∧ g' = { g₀ with pending := .awaits .format } := by
  obtain ⟨g₀, settled, awaits⟩ := bind_eq_ok_iff.1 read
  exact ⟨g₀, settled, (Except.ok.inj awaits).symm⟩

/-- An option that is not about the display, or a value, is left for the other reading. -/
theorem Follows.arguments_cons {a : Text} {as bs : List Text} {r : Given}
    (follows : Follows g h) (other : a ≠ formatArgument) (read : arguments g (a :: as) = .ok r)
    (last : as = [] → bs = [])
    (rest : ∀ {g h : Given}, Follows g h → arguments g as = .ok r →
      arguments h bs = .ok r.withoutDisplay) :
    arguments h ((otherThanDisplay? a).toList ++ bs) = .ok r.withoutDisplay := by
  rcases arguments_cons_eq_ok read with ⟨rfl, nothing, settled⟩ | ⟨g', read, read_rest⟩
  · rw [last nothing]
    exact follows.arguments_nil settled
  · obtain ⟨h', follows', left⟩ := follows.argument other read read_rest
    rw [left]
    exact rest follows' read_rest

/-- Where a format is awaited, it is read, and nothing comes of it. -/
theorem Follows.of_format {v : Text} {as : List Text} {r : Given} (follows : Follows g h)
    (read : arguments g (formatArgument :: v :: as) = .ok r) :
    ∃ g', Follows g' h ∧ arguments g' as = .ok r := by
  rcases arguments_cons_eq_ok read with ⟨-, more, -⟩ | ⟨g₁, first, read⟩
  · cases more
  · obtain ⟨g₀, settled, rfl⟩ := exists_of_argument_format first
    rcases arguments_cons_eq_ok read with ⟨-, -, unsettled⟩ | ⟨g₂, second, read⟩
    · cases unsettled
    · obtain ⟨-, rfl⟩ := value_of_awaits rfl second
      obtain ⟨g₃, taken⟩ := exists_settle (by simp) read
      refine ⟨_, ?_, read⟩
      cases follows with
      | agrees same =>
        obtain ⟨g₀', settled', same⟩ := same
        rw [settled] at settled'
        cases settled'
        refine .agrees ⟨g₃, taken, ?_⟩
        rw [withoutDisplay_of_take rfl taken, same]
        simp [withoutDisplay, pending_of_settle settled]
      | awaits => cases settled

theorem Follows.arguments_dropDisplay {as : List Text} {r : Given} (follows : Follows g h)
    (read : arguments g as = .ok r) : arguments h (dropDisplay as) = .ok r.withoutDisplay := by
  induction as using dropDisplay.induct generalizing g h with
  | case1 => exact follows.arguments_nil read
  | case2 a =>
    by_cases format : a = formatArgument
    · -- The format would be missing.
      subst format
      rcases arguments_cons_eq_ok read with ⟨wrong, -, -⟩ | ⟨g', first, read⟩
      · exact absurd wrong (by decide)
      · obtain ⟨g₀, -, rfl⟩ := exists_of_argument_format first
        cases read
    · have left := follows.arguments_cons format read (fun _ => rfl) Follows.arguments_nil
      rwa [List.append_nil] at left
  | case3 a v as same ih =>
    obtain rfl := eq_of_beq same
    obtain ⟨g', follows', read'⟩ := follows.of_format read
    rw [dropDisplay, if_pos same]
    exact ih follows' read'
  | case4 a v as other ih =>
    rw [dropDisplay, if_neg other]
    exact follows.arguments_cons (fun same => other (by simp [same])) read nofun ih

end Given

theorem Given.options_withoutDisplay {g : Given} {o : Options} (complete : g.options = .ok o) :
    g.withoutDisplay.options = .ok o.withoutDisplay := by
  have format : g.withoutDisplay.values.lookup .format = none := by
    rw [List.lookup_eq_none_iff]
    rintro ⟨s, v⟩ kept
    obtain ⟨-, other⟩ := List.mem_filter.1 kept
    cases s <;> simp_all [Name.isDisplay]
  have quiet : g.withoutDisplay.switches.contains .quiet = false := by
    simp [withoutDisplay, Name.isDisplay]
  have noColour : g.withoutDisplay.switches.contains .noColour = false := by
    simp [withoutDisplay, Name.isDisplay]
  rw [Given.options] at complete ⊢
  simp (disch := decide) only [lookup_withoutDisplay, contains_withoutDisplay, format, quiet,
    noColour]
  cases named : g.values.lookup .dockerfile with
  | none =>
    rw [named] at complete
    cases complete
  | some dockerfile =>
    rw [named] at complete
    cases complete
    rfl

theorem read_dropDisplay {as : List Text} {o : Options} (accepted : read as = .ok o) :
    read (dropDisplay as) = .ok o.withoutDisplay := by
  obtain ⟨g, read_all, complete⟩ := bind_eq_ok_iff.1 accepted
  have follows : Given.Follows .nothing .nothing := .agrees (.of_settled rfl)
  exact bind_eq_ok_iff.2 ⟨_, follows.arguments_dropDisplay read_all,
    Given.options_withoutDisplay complete⟩

theorem withoutDisplay_eq_of_dropDisplay_eq {as bs : List Text} {o o' : Options}
    (accepted : read as = .ok o) (accepted' : read bs = .ok o')
    (same : dropDisplay as = dropDisplay bs) : o.withoutDisplay = o'.withoutDisplay := by
  have left := read_dropDisplay accepted
  rw [same, read_dropDisplay accepted'] at left
  exact (Except.ok.inj left).symm

end ImageAudit.Options
