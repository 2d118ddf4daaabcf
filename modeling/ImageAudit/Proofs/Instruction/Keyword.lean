import ImageAudit.Instruction.Reader
import Mathlib.Data.List.Nodup

/-!
# Keywords

A line has at most one keyword, so that at most one kind of instruction can be read from it.

* `Kind.eq_of_body?`: what follows a keyword can be found for one kind only.
* `Instruction.read?_eq`: an instruction is read by the kind whose keyword the line has.
* `Instruction.kind_of_body?`: a kind reads instructions of that kind.
-/

namespace ImageAudit

open Text

/-! ## The word at the beginning of a line -/

theorem Text.exists_of_dropWord? {p t r : Text} (h : dropWord? p t = some r) :
    ∃ w, t = w ++ r ∧ w.map Char.toLower = p.map Char.toLower := by
  induction p generalizing t with
  | nil =>
    rw [dropWord?_nil, Option.some.injEq] at h
    exact ⟨[], h, rfl⟩
  | cons x p ih =>
    cases t with
    | nil => cases h
    | cons c t =>
      rw [dropWord?] at h
      split at h
      · next same =>
        obtain ⟨w, rfl, hw⟩ := ih h
        exact ⟨c :: w, rfl, by rw [List.map_cons, List.map_cons, hw, same]⟩
      · cases h

theorem Text.toNat_of_toLower_ne {c : Char} (h : c.toLower ≠ c) :
    65 ≤ c.toNat ∧ c.toNat ≤ 90 ∧ c.toLower.toNat = c.toNat + 32 := by
  by_cases upper : c.val ≥ 'A'.val ∧ c.val ≤ 'Z'.val
  · have least : 65 ≤ c.toNat := UInt32.le_iff_toNat_le.1 upper.1
    have most : c.toNat ≤ 90 := UInt32.le_iff_toNat_le.1 upper.2
    have lower : c.toLower.val = c.val + ('a'.val - 'A'.val) := congrArg Char.val (dif_pos upper)
    have sum : c.toLower.toNat = (c.toNat + ('a'.val - 'A'.val).toNat) % 2 ^ 32 :=
      (congrArg UInt32.toNat lower).trans (UInt32.toNat_add ..)
    have : ('a'.val - 'A'.val).toNat = 32 := by decide
    omega
  · exact absurd (dif_neg upper) h

theorem Text.toLower_of_isSpace {c : Char} (h : isSpace c = true) : c.toLower = c := by
  by_contra changed
  have := toNat_of_toLower_ne changed
  simp only [isSpace, Bool.or_eq_true, Bool.and_eq_true, decide_eq_true_eq, beq_iff_eq] at h
  omega

/-- No other character becomes white space in lower case. -/
theorem Text.toLower_of_isSpace_toLower {c : Char} (h : isSpace c.toLower = true) :
    c.toLower = c := by
  by_contra changed
  have := toNat_of_toLower_ne changed
  simp only [isSpace, Bool.or_eq_true, Bool.and_eq_true, decide_eq_true_eq, beq_iff_eq] at h
  omega

theorem Text.dropWord?_append (p q t : Text) :
    dropWord? (p ++ q) t = (dropWord? p t).bind (dropWord? q) := by
  induction p generalizing t with
  | nil => simp
  | cons x p ih =>
    cases t with
    | nil => rfl
    | cons c t =>
      rw [List.cons_append, dropWord?, dropWord?, ih]
      split <;> rfl

theorem Text.exists_of_blanks? {t r : Text} (h : blanks? t = some r) :
    ∃ c s, t = c :: s ∧ isBlank c = true ∧ r = skipBlanks s := by
  cases t with
  | nil => cases h
  | cons c s =>
    rw [blanks?] at h
    split at h
    · next blank => exact ⟨c, s, rfl, blank, (Option.some.inj h).symm⟩
    · cases h

namespace Kind

/-- The name of the kind whose keyword a line begins with, in lower case. -/
def mark (t : Text) : Text :=
  if t.head? = some '#' then comment.name.map Char.toLower
  else (t.map Char.toLower).takeWhile fun c => !isBlank c

theorem name_lower_injective {k l : Kind}
    (h : k.name.map Char.toLower = l.name.map Char.toLower) : k = l := by
  have distinct : (all.map fun k => k.name.map Char.toLower).Nodup := by decide
  exact List.inj_on_of_nodup_map distinct (mem_all k) (mem_all l) h

theorem body?_eq {k : Kind} (code : k ≠ comment) (t : Text) :
    k.body? t = (dropWord? k.name t).bind blanks? := by
  cases k with
  | comment => exact absurd rfl code
  | _ => rfl

theorem mark_of_body? {k : Kind} {t b : Text} (h : k.body? t = some b) :
    mark t = k.name.map Char.toLower := by
  by_cases comment : k = .comment
  · subst comment
    have : t = '#' :: b := dropPrefix?_eq_some_iff.1 h
    rw [this]
    rfl
  · rw [body?_eq comment] at h
    obtain ⟨r, keyword, blanks⟩ := Option.bind_eq_some_iff.1 h
    obtain ⟨w, rfl, hw⟩ := exists_of_dropWord? keyword
    obtain ⟨c, s, rfl, blank, -⟩ := exists_of_blanks? blanks
    -- The keyword ends at the first blank, since it has none itself.
    have letters : (k.name.map Char.toLower).all (fun d => !isBlank d && d != '#') = true := by
      cases k <;> decide
    simp only [List.all_eq_true, Bool.and_eq_true, bne_iff_ne] at letters
    have first : (w ++ c :: s).head? ≠ some '#' := by
      cases w with
      | nil =>
        rintro ⟨⟩
        exact absurd blank (by decide)
      | cons d w =>
        rintro ⟨⟩
        have := (letters '#' (by rw [← hw]; exact List.mem_cons_self)).2
        exact this rfl
    rw [mark, if_neg first, List.map_append, hw,
      List.takeWhile_append_of_pos fun d member => (letters d member).1, List.map_cons,
      toLower_of_isSpace (isSpace_of_isBlank blank), List.takeWhile_cons_of_neg (by simp [blank]),
      List.append_nil]

/-- A line has the keyword of at most one kind. -/
theorem eq_of_body? {k l : Kind} {t a b : Text} (hk : k.body? t = some a)
    (hl : l.body? t = some b) : k = l :=
  name_lower_injective ((mark_of_body? hk).symm.trans (mark_of_body? hl))

end Kind

namespace Instruction

/-! ## The kind that reads a line -/

theorem exists_of_read? {t r : Text} {i : Instruction} (h : read? t = some (i, r)) :
    ∃ k b, Kind.body? k t = some b ∧ body? k b = some (i, r) := by
  obtain ⟨k, -, hk⟩ := List.exists_of_findSome?_eq_some h
  obtain ⟨b, hb, hi⟩ := Option.bind_eq_some_iff.1 hk
  exact ⟨k, b, hb, hi⟩

/-- A line is read by the kind whose keyword it has. -/
theorem read?_eq {k : Kind} {t b : Text} (h : k.body? t = some b) : read? t = body? k b := by
  cases hr : read? t with
  | some x =>
    -- Whichever kind has read the line, it has found its keyword there.
    obtain ⟨l, a, ha, hx⟩ := exists_of_read? hr
    obtain rfl := Kind.eq_of_body? h ha
    obtain rfl := Option.some.inj (h.symm.trans ha)
    exact hx.symm
  | none =>
    have := List.findSome?_eq_none_iff.1 hr k k.mem_all
    rw [readKind?, h] at this
    exact this.symm

/-- A line with nothing left over is read as the kind whose keyword it has. -/
theorem readLine?_eq {k : Kind} {line b : Text} {i : Instruction} (h : k.body? line = some b)
    (read : body? k b = some (i, [])) : readLine? line = some i := by
  rw [readLine?, read?_eq h, read]
  rfl

theorem read?_of_readLine? {line : Text} {i : Instruction} (h : readLine? line = some i) :
    ∃ r, read? line = some (i, r) := by
  obtain ⟨⟨j, r⟩, read, h⟩ := Option.bind_eq_some_iff.1 h
  refine ⟨r, ?_⟩
  change (if (skipBlanks r).isEmpty then some j else none) = some i at h
  split at h
  · rwa [← Option.some.inj h]
  · cases h

theorem kind_of_readBase? {t r : Text} {i : Instruction} (h : readBase? t = some (i, r)) :
    i.kind = .base := by
  obtain ⟨_, _, h⟩ := Option.bind_eq_some_iff.1 h
  obtain ⟨_, _, h⟩ := Option.bind_eq_some_iff.1 h
  split at h <;> cases h <;> rfl

theorem kind_of_readExpose? {t : Text} {i : Instruction} (h : readExpose? t = some i) :
    i.kind = .expose := by
  rw [readExpose?] at h
  split at h
  · cases h
  · obtain ⟨ports, _, rfl⟩ := Option.map_eq_some_iff.1 h
    rfl

theorem kind_of_readAdd? {t : Text} {i : Instruction} (h : readAdd? t = some i) :
    i.kind = .add := by
  obtain ⟨_, _, h⟩ := Option.bind_eq_some_iff.1 h
  split at h <;> cases h
  rfl

theorem kind_of_readVolume? {t : Text} {i : Instruction} (h : readVolume? t = some i) :
    i.kind = .volume := by
  rw [readVolume?] at h
  split at h
  · cases h
    rfl
  · split at h <;> cases h
    rfl

/-- A kind reads instructions of that kind. -/
theorem kind_of_body? {k : Kind} {b r : Text} {i : Instruction} (h : body? k b = some (i, r)) :
    i.kind = k := by
  -- Most bodies are read whole, many by a reader whose result is only wrapped.
  have whole {o : Option Instruction} (h : o.map alone = some (i, r)) : o = some i := by
    obtain ⟨j, hj, same⟩ := Option.map_eq_some_iff.1 h
    rw [hj, (Prod.mk.inj same).1]
  have mapped {α : Type} {o : Option α} {f : α → Instruction × Text}
      (h : o.map f = some (i, r)) (hf : ∀ a, (f a).1.kind = k) : i.kind = k := by
    obtain ⟨a, _, same⟩ := Option.map_eq_some_iff.1 h
    have := hf a
    rwa [same] at this
  cases k with
  | base => exact kind_of_readBase? h
  | run =>
    obtain ⟨_, _, h⟩ := Option.bind_eq_some_iff.1 (whole h)
    cases h
    rfl
  | cmd => exact mapped h fun _ => rfl
  | label => exact mapped h fun _ => rfl
  | maintainer =>
    have h := whole h
    rw [readMaintainer?] at h
    split at h <;> cases h
    rfl
  | expose => exact kind_of_readExpose? (whole h)
  | env => exact mapped h fun _ => rfl
  | add => exact kind_of_readAdd? (whole h)
  | copy => exact mapped h fun _ => rfl
  | entrypoint => exact mapped h fun _ => rfl
  | volume => exact kind_of_readVolume? (whole h)
  | user =>
    obtain ⟨_, _, h⟩ := Option.bind_eq_some_iff.1 h
    obtain ⟨_, _, h⟩ := Option.bind_eq_some_iff.1 h
    cases h
    rfl
  | workdir =>
    have h := whole h
    rw [readWorkdir?] at h
    split at h <;> cases h
    rfl
  | arg =>
    have h := whole h
    rw [readArg?] at h
    cases definition : cut '=' (trim b) <;> simp only [definition] at h <;> split at h <;>
      cases h <;> rfl
  | onbuild => exact mapped h fun _ => rfl
  | stopSignal => exact mapped h fun _ => rfl
  | healthCheck => exact mapped h fun _ => rfl
  | shell => exact mapped h fun _ => rfl
  | comment =>
    cases h
    rfl

/-! ## RUN without flags -/

theorem readRun?_eq {t : Text} {arguments : Arguments} (unflagged : runFlag? t = none)
    (read : Arguments.read? t = some arguments) : readRun? t = some (run ⟨arguments, []⟩) := by
  have flags : runFlags t = ([], t) := by
    rw [runFlags]
    split
    · rfl
    · next found =>
      rw [unflagged] at found
      cases found
  rw [readRun?, flags]
  simp [read]

end Instruction

end ImageAudit
