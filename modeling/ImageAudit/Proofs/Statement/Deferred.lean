import ImageAudit.Proofs.Instruction.Keyword
import ImageAudit.Proofs.Statement.SingleLine

/-!
# Deferred instructions

ONBUILD makes an instruction wait for a later build. What stands after it is read just as it is read
alone, and refused if it is of a kind that may not wait.

* `Instruction.deferred?_eq_some_iff`: the instructions that may wait are those of certain kinds.
* `Instruction.readLine?_onbuild`: a line after ONBUILD and the line alone.
* `Statement.readAll_onbuild`: the same of a text of one line, and what ONBUILD never holds.
-/

namespace ImageAudit

open Text

/-! ## Instructions that may wait -/

namespace Instruction

variable {t r : Text} {i : Instruction}

theorem readLine?_eq_some_iff :
    readLine? t = some i ↔ ∃ r, read? t = some (i, r) ∧ skipBlanks r = [] := by
  rw [readLine?, Option.bind_eq_bind, Option.bind_eq_some_iff]
  constructor
  · rintro ⟨⟨j, r⟩, read, h⟩
    dsimp only at h
    split at h
    · next blank =>
      cases h
      exact ⟨r, read, List.isEmpty_iff.1 blank⟩
    · cases h
  · rintro ⟨r, read, blank⟩
    exact ⟨(i, r), read, by simp [blank]⟩

theorem body?_eq_plainBody? {k : Kind} (other : k ≠ .onbuild) (b : Text) :
    body? k b = plainBody? k b := by
  cases k with
  | onbuild => exact absurd rfl other
  | _ => rfl

theorem body?_of_isDeferrable {k : Kind} (h : k.isDeferrable = true) (b : Text) :
    body? k b = plainBody? k b := by
  refine body?_eq_plainBody? ?_ b
  rintro rfl
  cases h

/-- What may wait is read as it is read without ONBUILD. -/
theorem deferred?_eq_some_iff :
    deferred? t = some (i, r) ↔ read? t = some (i, r) ∧ i.kind.isDeferrable = true := by
  have found {j : Instruction} {s : Text} (h : deferred? t = some (j, s)) :
      read? t = some (j, s) ∧ j.kind.isDeferrable = true := by
    obtain ⟨k, member, h⟩ := List.exists_of_findSome?_eq_some h
    obtain ⟨b, keyword, h⟩ := Option.bind_eq_some_iff.1 h
    have deferrable : k.isDeferrable = true := (List.mem_filter.1 member).2
    rw [← body?_of_isDeferrable deferrable] at h
    exact ⟨(read?_eq keyword).trans h, kind_of_body? h ▸ deferrable⟩
  refine ⟨found, fun ⟨read, deferrable⟩ => ?_⟩
  -- The kind that reads the text is among those that are tried.
  obtain ⟨k, b, keyword, h⟩ := exists_of_read? read
  rw [kind_of_body? h] at deferrable
  rw [body?_of_isDeferrable deferrable] at h
  cases waits : deferred? t with
  | none =>
    have := List.findSome?_eq_none_iff.1 waits k (List.mem_filter.2 ⟨k.mem_all, deferrable⟩)
    rw [keyword] at this
    exact absurd (h.symm.trans this) (Option.some_ne_none _)
  | some x => exact (found waits).1.symm.trans read

theorem deferred?_eq_filter (t : Text) :
    deferred? t = (read? t).filter fun x => x.1.kind.isDeferrable := by
  ext ⟨i, r⟩
  rw [deferred?_eq_some_iff, Option.filter_eq_some_iff]

theorem read?_onbuild {line : Text} (solid : skipBlanks line = line) :
    read? ("ONBUILD ".toList ++ line) = (deferred? line).map fun (i, r) => (onbuild i, r) := by
  have keyword : Kind.onbuild.body? ("ONBUILD ".toList ++ line) = some line :=
    congrArg some solid
  exact read?_eq keyword

/-- A line may stand after ONBUILD exactly if the line alone is an instruction that may wait. -/
theorem readLine?_onbuild {line : Text} (solid : skipBlanks line = line) :
    readLine? ("ONBUILD ".toList ++ line) = some i ↔
      ∃ j, readLine? line = some j ∧ j.kind.isDeferrable = true ∧ i = onbuild j := by
  simp only [readLine?_eq_some_iff, read?_onbuild solid, Option.map_eq_some_iff, Prod.exists,
    Prod.mk.injEq, deferred?_eq_some_iff]
  constructor
  · rintro ⟨r, ⟨j, s, ⟨read, deferrable⟩, rfl, rfl⟩, blank⟩
    exact ⟨j, ⟨s, read, blank⟩, deferrable, rfl⟩
  · rintro ⟨j, ⟨s, read, blank⟩, deferrable, rfl⟩
    exact ⟨s, ⟨j, s, ⟨read, deferrable⟩, rfl, rfl⟩, blank⟩

/-- ONBUILD holds nothing that may not wait. -/
theorem isDeferrable_of_readLine? {j : Instruction} (h : readLine? t = some (onbuild j)) :
    j.kind.isDeferrable = true := by
  obtain ⟨r, read⟩ := read?_of_readLine? h
  obtain ⟨k, b, -, body⟩ := exists_of_read? read
  obtain rfl : Kind.onbuild = k := kind_of_body? body
  obtain ⟨⟨j', r'⟩, waits, same⟩ := Option.map_eq_some_iff.1 body
  cases same
  exact (deferred?_eq_some_iff.1 waits).2

end Instruction

/-! ## Statements -/

/-- The kinds that may not wait in ONBUILD. -/
theorem Kind.isDeferrable_iff {k : Kind} :
    k.isDeferrable = true ↔ k ∉ [onbuild, base, maintainer, comment] := by
  cases k <;> decide

namespace Statement

/-- ONBUILD before a line is read exactly if the line alone is read, as an instruction that is no
ONBUILD, FROM or MAINTAINER and no comment; then it holds this instruction. So no text, and no file,
that is read has an ONBUILD that holds one of these. -/
theorem readAll_onbuild :
    (∀ l, IsSingleLine l → ∀ ss,
      (readAll ("ONBUILD ".toList ++ l) = .ok ss ↔
        ∃ i, readAll l = .ok [⟨i, 1, l⟩] ∧ i.kind ∉ [.onbuild, .base, .maintainer, .comment] ∧
          ss = [⟨.onbuild i, 1, "ONBUILD ".toList ++ l⟩])) ∧
    (∀ t ss, readAll t = .ok ss → ∀ s ∈ ss, ∀ i, s.instruction = .onbuild i →
      i.kind ∉ [.onbuild, .base, .maintainer, .comment]) ∧
    ∀ path t d, Dockerfile.ofFile path t = .ok d → ∀ s ∈ d.statements, ∀ i,
      s.instruction = .onbuild i → i.kind ∉ [.onbuild, .base, .maintainer, .comment] := by
  have never (t : Text) (ss : List Statement) (accepted : readAll t = .ok ss) :
      ∀ s ∈ ss, ∀ i, s.instruction = .onbuild i →
        i.kind ∉ [.onbuild, .base, .maintainer, .comment] := by
    intro s member i holds
    obtain ⟨l, -, read⟩ := exists_of_mem_statements accepted member
    have found := readLine?_of_read read
    rw [holds] at found
    exact Kind.isDeferrable_iff.1 (Instruction.isDeferrable_of_readLine? found)
  refine ⟨fun l single ss => ?_, never, fun path t d accepted => ?_⟩
  · have whole : IsSingleLine ("ONBUILD ".toList ++ l) :=
      single.append (by decide) (by rintro c ⟨⟩; decide)
    rw [readAll_eq_ok_iff_of_isSingleLine whole]
    simp only [Instruction.readLine?_onbuild single.skipBlanks_eq, ← Kind.isDeferrable_iff]
    constructor
    · rintro ⟨-, ⟨i, read, deferrable, rfl⟩, rfl⟩
      exact ⟨i, (readAll_eq_ok_iff_of_isSingleLine single).2 ⟨i, read, rfl⟩, deferrable, rfl⟩
    · rintro ⟨i, accepted, deferrable, rfl⟩
      obtain ⟨j, read, same⟩ := (readAll_eq_ok_iff_of_isSingleLine single).1 accepted
      cases same
      exact ⟨_, ⟨i, read, deferrable, rfl⟩, rfl⟩
  · exact never _ _ (Dockerfile.readAll_of_ofFile accepted)

/-- A health check may wait, in whatever case its keyword is written; ONBUILD itself may not. -/
theorem readAll_onbuild_of_health_check :
    let check := "healthcheck --retries=2 CMD ['a', 'b']".toList
    let nested := "ONBUILD RUN a".toList
    readAll ("ONBUILD ".toList ++ check) =
        .ok [⟨.onbuild (.healthCheck (.command (.exec ["a".toList, "b".toList])
          ⟨none, none, none, none, some 2⟩)), 1, "ONBUILD ".toList ++ check⟩] ∧
      (∀ ss, readAll ("ONBUILD ".toList ++ nested) ≠ .ok ss) ∧
      ∀ i, readAll nested = .ok [⟨.onbuild i, 1, nested⟩] → i.kind ≠ .onbuild := by
  intro check nested
  have single : IsSingleLine check := ⟨by decide, by decide, by decide, by decide⟩
  have single' : IsSingleLine nested := ⟨by decide, by decide, by decide, by decide⟩
  refine ⟨?_, fun ss accepted => ?_, fun i accepted => ?_⟩
  · exact (readAll_onbuild.1 check single _).2 ⟨_, by decide +kernel, by decide, rfl⟩
  · obtain ⟨i, read, kind, -⟩ := (readAll_onbuild.1 nested single' ss).1 accepted
    have nests : readAll nested =
        .ok [⟨.onbuild (.run ⟨.shell "a".toList, []⟩), 1, nested⟩] := by decide +kernel
    rw [nests] at read
    cases read
    exact absurd kind (by decide)
  · have kind := readAll_onbuild.2.1 nested _ accepted _ (List.mem_singleton_self _) i rfl
    rintro same
    rw [same] at kind
    exact kind List.mem_cons_self

end Statement

end ImageAudit
