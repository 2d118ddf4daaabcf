import ImageAudit.Instruction.Attempt
import ImageAudit.Proofs.Statement.Deferred

/-!
# Where reading breaks off

Only two keywords have a `k`. In the middle of WORKDIR a Kelvin sign is passed over, but what is
taken off is then too short, and no blank follows it. At the end of HEALTHCHECK reading breaks off,
also where ONBUILD stands before it, once or more often.

* `Instruction.BreaksOff`: the lines at which reading breaks off.
* `Text.tagWord_append`: a word without a `k` is taken off character by character.
* `Instruction.attempt_eq`: what comes of reading a line.
-/

namespace ImageAudit

open Text

/-- Reading a line breaks off if its keyword, or the one it defers, ends in a Kelvin sign. -/
inductive Instruction.BreaksOff : Text → Prop where
  | keyword {t r : Text} (word : dropWord? "HEALTHCHEC".toList t = some (kelvin :: r)) : BreaksOff t
  | deferred {t b : Text} (waits : Kind.onbuild.body? t = some b) (inner : BreaksOff b) :
      BreaksOff t

/-! ## Attempts -/

namespace Attempt

variable {α β : Type} {f : α → Attempt β}

@[simp] theorem bind_ofOption (x : Option α) (f : α → Option β) :
    (ofOption x).bind (fun a => ofOption (f a)) = ofOption (x.bind f) := by
  cases x <;> rfl

theorem first_eq_refused {as : List α} (none : ∀ a ∈ as, f a = refused) :
    first f as = refused := by
  induction as with
  | nil => rfl
  | cons a as ih =>
    rw [List.forall_mem_cons] at none
    rw [first, none.1]
    exact ih none.2

/-- If all others are refused, the order does not matter. -/
theorem first_eq_of_unique {as : List α} {a : α} (member : a ∈ as)
    (others : ∀ b ∈ as, b ≠ a → f b = refused) : first f as = f a := by
  induction as with
  | nil => cases member
  | cons b bs ih =>
    rw [List.forall_mem_cons] at others
    rw [first]
    by_cases same : b = a
    · subst same
      cases found : f b with
      | refused =>
        refine first_eq_refused fun c inside => ?_
        by_cases again : c = b
        · rw [again, found]
        · exact others.2 c inside again
      | done x => rfl
      | broken => rfl
    · rw [others.1 same]
      exact ih ((List.mem_cons.1 member).resolve_left (Ne.symm same)) others.2

end Attempt

/-! ## Words -/

namespace Text

variable {x c : Char} {p q t : Text}

theorem utf8Size_toLower (h : x.utf8Size = 1) : x.toLower.utf8Size = 1 := by
  by_cases changed : x.toLower = x
  · rwa [changed]
  · obtain ⟨-, most, shifted⟩ := toNat_of_toLower_ne changed
    exact Char.utf8Size_eq_one_iff.2 (UInt32.le_iff_toNat_le.2 (by
      change x.toLower.toNat ≤ 127
      omega))

theorem utf8Size_of_toLower (h : c.toLower.utf8Size = 1) : c.utf8Size = 1 := by
  by_cases changed : c.toLower = c
  · rwa [changed] at h
  · obtain ⟨-, most, -⟩ := toNat_of_toLower_ne changed
    exact Char.utf8Size_eq_one_iff.2 (UInt32.le_iff_toNat_le.2 (by
      change c.toNat ≤ 127
      omega))

/-- The characters that are the same as an ASCII character in lower case: those that differ in the
case of a letter, and the Kelvin sign if the letter is a `k`. -/
theorem lowered_eq_iff (h : x.utf8Size = 1) :
    lowered x = lowered c ↔ x.toLower = c.toLower ∨ c = kelvin ∧ x.toLower = 'k' := by
  have small : x ≠ kelvin := by
    rintro rfl
    exact absurd h (by decide)
  rw [lowered, lowered, if_neg small]
  by_cases sign : c = kelvin
  · subst sign
    have other : x.toLower ≠ kelvin.toLower := by
      intro same
      have := utf8Size_toLower h
      rw [same] at this
      exact absurd this (by decide)
    simp [other]
  · simp [sign]

@[simp] theorem tagWord_nil (t : Text) : tagWord [] t = .done t := by
  cases t <;> rfl

theorem tagWord_cons_nil (h : x.utf8Size = 1) (p : Text) : tagWord (x :: p) [] = .refused := by
  refine if_neg ?_
  simp [byteLength, h]

theorem tagWord_cons (hx : x.utf8Size = 1) (hc : c.utf8Size = 1) (same : lowered x = lowered c)
    (p t : Text) : tagWord (x :: p) (c :: t) = tagWord p t := by
  have passed : dropBytes? (1 + byteLength p) (c :: t) = dropBytes? (byteLength p) t := by
    rw [Nat.add_comm, dropBytes?, hc, if_pos (Nat.le_add_left _ _), Nat.add_sub_cancel]
  simp only [tagWord, agrees, byteLength, same, hx, hc, passed, beq_self_eq_true, Bool.true_and,
    Nat.add_le_add_iff_left]

theorem tagWord_of_ne (other : lowered x ≠ lowered c) (p t : Text) :
    tagWord (x :: p) (c :: t) = .refused := by
  simp [tagWord, agrees, other]

/-- A word that has no `k` is taken off character by character. -/
theorem tagWord_append (plain : ∀ x ∈ p, x.utf8Size = 1 ∧ x.toLower ≠ 'k') (q t : Text) :
    tagWord (p ++ q) t =
      match dropWord? p t with
      | some r => tagWord q r
      | none => .refused := by
  -- By the characters of `p`: each is one byte long, and so is any character that agrees with it.
  induction p generalizing t with
  | nil => rw [dropWord?_nil]; rfl
  | cons x p ih =>
    obtain ⟨⟨size, letter⟩, rest⟩ := List.forall_mem_cons.1 plain
    cases t with
    | nil => exact tagWord_cons_nil size _
    | cons c t =>
      rw [List.cons_append, dropWord?]
      by_cases same : x.toLower = c.toLower
      · have size' : c.utf8Size = 1 := utf8Size_of_toLower (same ▸ utf8Size_toLower size)
        rw [if_pos same, tagWord_cons size size' ((lowered_eq_iff size).2 (.inl same)), ih rest]
      · rw [if_neg same]
        refine tagWord_of_ne (fun agree => ?_) _ _
        rcases (lowered_eq_iff size).1 agree with same' | ⟨-, letter'⟩
        · exact same same'
        · exact letter letter'

theorem tagWord_eq (plain : ∀ x ∈ p, x.utf8Size = 1 ∧ x.toLower ≠ 'k') (t : Text) :
    tagWord p t = .ofOption (dropWord? p t) := by
  have := tagWord_append plain [] t
  rw [List.append_nil] at this
  rw [this]
  cases dropWord? p t with
  | none => rfl
  | some r => exact tagWord_nil r

theorem tagWord_k (t : Text) :
    (∃ r, t = kelvin :: r) ∧ tagWord ['K'] t = .broken ∨
      (∀ r, t ≠ kelvin :: r) ∧ tagWord ['K'] t = .ofOption (dropWord? ['K'] t) := by
  cases t with
  | nil => exact .inr ⟨nofun, rfl⟩
  | cons c r =>
    by_cases sign : c = kelvin
    · -- The one byte of the word ends inside of the sign.
      subst sign
      refine .inl ⟨⟨r, rfl⟩, ?_⟩
      have long : byteLength ['K'] ≤ byteLength (kelvin :: r) := by
        simp only [byteLength, show kelvin.utf8Size = 3 from rfl, show 'K'.utf8Size = 1 from rfl]
        omega
      simp only [tagWord, long, decide_true, Bool.and_true]
      rfl
    · refine .inr ⟨fun r' same => sign (List.cons.inj same).1, ?_⟩
      rw [dropWord?]
      by_cases same : 'K'.toLower = c.toLower
      · have size : c.utf8Size = 1 := utf8Size_of_toLower (same ▸ rfl)
        rw [if_pos same, tagWord_cons rfl size ((lowered_eq_iff rfl).2 (.inl same)), tagWord_nil,
          dropWord?_nil]
        rfl
      · rw [if_neg same]
        refine tagWord_of_ne (fun agree => ?_) _ _
        exact ((lowered_eq_iff rfl).1 agree).elim same fun h => sign h.1

theorem agrees_cons_iff (h : x.utf8Size = 1) (letter : x.toLower ≠ 'k') :
    agrees (x :: p) (c :: t) = true ↔ x.toLower = c.toLower ∧ agrees p t = true := by
  rw [agrees, Bool.and_eq_true, beq_iff_eq, lowered_eq_iff h]
  simp [letter]

/-- After a Kelvin sign too little is taken off, so that a letter is next. -/
theorem tagWord_kdir_of_kelvin (r : Text) :
    (tagWord ['K', 'D', 'I', 'R'] (kelvin :: r)).bind (fun r => .ofOption (blanks? r)) =
      .refused := by
  cases r with
  | nil => rfl
  | cons d s =>
    cases agree : agrees ['D', 'I', 'R'] (d :: s) with
    | false =>
      have : agrees ['K', 'D', 'I', 'R'] (kelvin :: d :: s) = false := agree
      simp only [tagWord, this, Bool.false_and]
      rfl
    | true =>
      obtain ⟨first, rest⟩ := (agrees_cons_iff rfl (by decide)).1 agree
      have size : d.utf8Size = 1 := utf8Size_of_toLower (first ▸ rfl)
      -- The four bytes of the word are three for the sign and one for `d`.
      have passed : dropBytes? (byteLength ['K', 'D', 'I', 'R']) (kelvin :: d :: s) = some s := by
        change (if d.utf8Size ≤ 1 then dropBytes? (1 - d.utf8Size) s else none) = some s
        rw [size]
        cases s <;> rfl
      -- What is left still agrees with the end of the word, so it begins with a letter.
      have solid : blanks? s = none := by
        cases s with
        | nil => rfl
        | cons e s =>
          obtain ⟨second, -⟩ := (agrees_cons_iff rfl (by decide)).1 rest
          refine if_neg fun blank => ?_
          rw [toLower_of_isSpace (isSpace_of_isBlank blank)] at second
          rw [← second] at blank
          exact absurd blank (by decide)
      rw [tagWord, passed]
      split
      · exact congrArg Attempt.ofOption solid
      · rfl

theorem tagWord_kdir_bind (t : Text) :
    (tagWord "KDIR".toList t).bind (fun r => .ofOption (blanks? r)) =
      .ofOption ((dropWord? "KDIR".toList t).bind blanks?) := by
  cases t with
  | nil => rfl
  | cons c r =>
    change (tagWord ('K' :: "DIR".toList) (c :: r)).bind _ =
      .ofOption ((if 'K'.toLower = c.toLower then dropWord? "DIR".toList r else none).bind blanks?)
    by_cases same : 'K'.toLower = c.toLower
    · have size : c.utf8Size = 1 := utf8Size_of_toLower (same ▸ rfl)
      rw [if_pos same, tagWord_cons rfl size ((lowered_eq_iff rfl).2 (.inl same)),
        tagWord_eq (by decide), Attempt.bind_ofOption]
    · rw [if_neg same]
      by_cases sign : c = kelvin
      · subst sign
        exact tagWord_kdir_of_kelvin r
      · rw [tagWord_of_ne fun agree => ((lowered_eq_iff rfl).1 agree).elim same fun h => sign h.1]
        rfl

end Text

/-! ## Keywords -/

namespace Kind

theorem attemptBody_eq {k : Kind} (other : k ≠ .healthCheck) (t : Text) :
    k.attemptBody t = .ofOption (k.body? t) := by
  have plain (plain : ∀ x ∈ k.name, x.utf8Size = 1 ∧ x.toLower ≠ 'k') :
      (tagWord k.name t).bind (fun r => .ofOption (blanks? r)) =
        .ofOption ((dropWord? k.name t).bind blanks?) := by
    rw [tagWord_eq plain, Attempt.bind_ofOption]
  -- Of all other keywords only that of WORKDIR has a `k`.
  cases k with
  | comment => rfl
  | healthCheck => exact absurd rfl other
  | workdir =>
    change (tagWord ("WOR".toList ++ "KDIR".toList) t).bind _ =
      .ofOption ((dropWord? ("WOR".toList ++ "KDIR".toList) t).bind blanks?)
    rw [tagWord_append (by decide), dropWord?_append]
    cases dropWord? "WOR".toList t with
    | none => rfl
    | some r => exact tagWord_kdir_bind r
  | _ => exact plain (by decide)

theorem attemptBody_healthCheck (t : Text) :
    (∃ r, dropWord? "HEALTHCHEC".toList t = some (kelvin :: r)) ∧
        healthCheck.attemptBody t = .broken ∨
      (∀ r, dropWord? "HEALTHCHEC".toList t ≠ some (kelvin :: r)) ∧
        healthCheck.attemptBody t = .ofOption (healthCheck.body? t) := by
  have attempted : healthCheck.attemptBody t =
      (tagWord ("HEALTHCHEC".toList ++ ['K']) t).bind fun r => .ofOption (blanks? r) := rfl
  have read : healthCheck.body? t =
      (dropWord? ("HEALTHCHEC".toList ++ ['K']) t).bind blanks? := rfl
  rw [attempted, read, tagWord_append (by decide), dropWord?_append]
  cases word : dropWord? "HEALTHCHEC".toList t with
  | none => exact .inr ⟨nofun, rfl⟩
  | some s =>
    rcases tagWord_k s with ⟨⟨r, rfl⟩, broken⟩ | ⟨other, kept⟩
    · refine .inl ⟨⟨r, rfl⟩, ?_⟩
      simp only [broken]
      rfl
    · refine .inr ⟨fun r same => other r (Option.some.inj same), ?_⟩
      simp only [kept, Attempt.bind_ofOption, Option.bind_some]

theorem attemptBody_of_no_sign {t : Text}
    (other : ∀ r, dropWord? "HEALTHCHEC".toList t ≠ some (kelvin :: r)) (k : Kind) :
    k.attemptBody t = .ofOption (k.body? t) := by
  by_cases health : k = .healthCheck
  · subst health
    rcases attemptBody_healthCheck t with ⟨⟨r, word⟩, -⟩ | ⟨-, kept⟩
    · exact absurd word (other r)
    · exact kept
  · exact attemptBody_eq health t

/-- A line at which reading breaks off has no keyword that could be taken off. -/
theorem body?_of_kelvin {k : Kind} {t r : Text}
    (word : dropWord? "HEALTHCHEC".toList t = some (kelvin :: r)) : k.body? t = none := by
  cases found : k.body? t with
  | none => rfl
  | some b =>
    obtain ⟨w, rfl, letters⟩ := exists_of_dropWord? word
    -- The sign belongs to the first word, and to the name of no kind.
    have first : (w ++ kelvin :: r).head? ≠ some '#' := by
      cases w with
      | nil => cases letters
      | cons c w =>
        rintro ⟨⟩
        exact absurd (List.cons.inj letters).1 (by decide)
    have solid : ∀ c ∈ w.map Char.toLower, isBlank c = false := by
      rw [letters]
      decide
    have inside : kelvin ∈ mark (w ++ kelvin :: r) := by
      rw [mark, if_neg first, List.map_append,
        List.takeWhile_append_of_pos fun c member => by simp [solid c member]]
      exact List.mem_append_right _ List.mem_cons_self
    rw [mark_of_body? found] at inside
    exfalso
    revert inside
    cases k <;> decide

end Kind

/-! ## Lines -/

namespace Instruction

variable {t : Text}

theorem read?_of_no_keyword (none : ∀ k : Kind, k.body? t = none) : read? t = Option.none := by
  refine List.findSome?_eq_none_iff.2 fun k _ => ?_
  rw [readKind?, none]
  rfl

/-- What a kind makes of a line. -/
theorem attempt_step (t : Text) :
    attempt t = Attempt.first (fun k => (k.attemptBody t).bind fun b =>
      if k = .onbuild then (attempt b).bind attemptDeferred else .ofOption (plainBody? k b))
      Kind.all := by
  rw [attempt]
  congr 1
  funext k
  split <;> next found => rw [found]; rfl

theorem attempt_of_kelvin {r : Text}
    (word : dropWord? "HEALTHCHEC".toList t = some (kelvin :: r)) : attempt t = .broken := by
  have broken : Kind.healthCheck.attemptBody t = .broken := by
    rcases Kind.attemptBody_healthCheck t with ⟨-, broken⟩ | ⟨other, -⟩
    · exact broken
    · exact absurd word (other r)
  rw [attempt_step, Attempt.first_eq_of_unique (Kind.mem_all .healthCheck), broken]
  · rfl
  · intro k _ other
    rw [Kind.attemptBody_eq other, Kind.body?_of_kelvin word]
    rfl

/-- A line is read by the kind whose keyword it has. -/
theorem attempt_of_body? {k : Kind} {b : Text} (keyword : k.body? t = some b) :
    attempt t =
      if k = .onbuild then (attempt b).bind attemptDeferred else .ofOption (plainBody? k b) := by
  have plain := Kind.attemptBody_of_no_sign fun r word =>
    Option.some_ne_none b (keyword.symm.trans (Kind.body?_of_kelvin word))
  rw [attempt_step, Attempt.first_eq_of_unique k.mem_all, plain, keyword]
  · rfl
  · intro l _ other
    rw [plain]
    cases found : l.body? t with
    | none => rfl
    | some c => exact absurd (Kind.eq_of_body? found keyword) other

theorem attempt_of_no_keyword (none : ∀ k : Kind, k.body? t = none)
    (other : ∀ r, dropWord? "HEALTHCHEC".toList t ≠ some (kelvin :: r)) : attempt t = .refused := by
  rw [attempt_step]
  refine Attempt.first_eq_refused fun k _ => ?_
  rw [Kind.attemptBody_of_no_sign other, none]
  rfl

theorem attemptDeferred_bind (b : Text) :
    (Attempt.ofOption (read? b)).bind attemptDeferred =
      .ofOption ((deferred? b).map fun (i, r) => (onbuild i, r)) := by
  rw [deferred?_eq_filter]
  cases read? b with
  | none => rfl
  | some x =>
    change attemptDeferred x = _
    rw [attemptDeferred, Option.filter_some]
    split <;> rfl

/-! ## Breaking off -/

theorem breaksOff_iff_of_waits {b : Text} (waits : Kind.onbuild.body? t = some b) :
    BreaksOff t ↔ BreaksOff b := by
  refine ⟨?_, .deferred waits⟩
  rintro (⟨word⟩ | ⟨waits', inner⟩)
  · exact absurd (waits.symm.trans (Kind.body?_of_kelvin word)) (Option.some_ne_none b)
  · cases waits.symm.trans waits'
    exact inner

theorem not_breaksOff_of_body? {k : Kind} {b : Text} (keyword : k.body? t = some b)
    (other : k ≠ .onbuild) : ¬ BreaksOff t := by
  rintro (⟨word⟩ | ⟨waits, -⟩)
  · exact Option.some_ne_none b (keyword.symm.trans (Kind.body?_of_kelvin word))
  · exact other (Kind.eq_of_body? keyword waits)

theorem breaksOff_iff_of_no_keyword (none : ∀ k : Kind, k.body? t = none) :
    BreaksOff t ↔ ∃ r, dropWord? "HEALTHCHEC".toList t = some (kelvin :: r) := by
  refine ⟨?_, fun ⟨r, word⟩ => .keyword word⟩
  rintro (⟨word⟩ | ⟨waits, -⟩)
  · exact ⟨_, word⟩
  · exact absurd (waits.symm.trans (none .onbuild)) (Option.some_ne_none _)

/-- An attempt at reading a line either breaks off or comes to what the line is read as. -/
theorem attempt_eq (t : Text) :
    BreaksOff t ∧ attempt t = .broken ∨ ¬ BreaksOff t ∧ attempt t = .ofOption (read? t) := by
  by_cases keyed : ∃ k : Kind, ∃ b, k.body? t = some b
  · obtain ⟨k, b, keyword⟩ := keyed
    rw [attempt_of_body? keyword, read?_eq keyword]
    by_cases waits : k = .onbuild
    · -- The line after ONBUILD is shorter, and decides.
      subst waits
      have shorter : b.length < t.length := Kind.length_lt_of_attemptBody
        ((Kind.attemptBody_eq (by decide) t).trans (congrArg Attempt.ofOption keyword))
      rw [breaksOff_iff_of_waits keyword, if_pos rfl]
      rcases attempt_eq b with ⟨inner, broken⟩ | ⟨whole, kept⟩
      · exact .inl ⟨inner, by rw [broken]; rfl⟩
      · exact .inr ⟨whole, by rw [kept, attemptDeferred_bind]; rfl⟩
    · refine .inr ⟨not_breaksOff_of_body? keyword waits, ?_⟩
      rw [if_neg waits, body?_eq_plainBody? waits]
  · have none (k : Kind) : k.body? t = none :=
      Option.eq_none_iff_forall_ne_some.2 fun b found => keyed ⟨k, b, found⟩
    rw [breaksOff_iff_of_no_keyword none, read?_of_no_keyword none]
    by_cases sign : ∃ r, dropWord? "HEALTHCHEC".toList t = some (kelvin :: r)
    · obtain ⟨r, word⟩ := sign
      exact .inl ⟨⟨r, word⟩, attempt_of_kelvin word⟩
    · exact .inr ⟨sign, attempt_of_no_keyword none fun r word => sign ⟨r, word⟩⟩
termination_by t.length

theorem attemptLine_eq (t : Text) :
    BreaksOff t ∧ attemptLine t = .broken ∨
      ¬ BreaksOff t ∧ attemptLine t = .ofOption (readLine? t) := by
  rcases attempt_eq t with ⟨broken, attempted⟩ | ⟨whole, attempted⟩
  · exact .inl ⟨broken, by rw [attemptLine, attempted]; rfl⟩
  · refine .inr ⟨whole, ?_⟩
    rw [attemptLine, attempted, readLine?]
    cases read? t with
    | none => rfl
    | some x =>
      change (if (skipBlanks x.2).isEmpty then _ else _) = Attempt.ofOption (ite _ _ _)
      split <;> rfl

end Instruction

end ImageAudit
