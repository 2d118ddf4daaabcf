import ImageAudit.Proofs.Instruction.Keyword
import ImageAudit.Proofs.Text.Ends
import ImageAudit.Proofs.Text.Lines
import Mathlib.Algebra.GroupWithZero.Nat
import Mathlib.Data.List.Induction

/-!
# Ports

A port that is read is a number, a range of numbers or a reference to a variable, and which of the
three it is can be told from its first character.

* `Port.IsNumeral` says what number a port has, `Port.RefersTo` to which variable it refers.
* `Port.isWritten_of_isRead`: no other ports are read.
* `Port.isSome_number?_of_isRead`: a port has a number, or else it refers to a variable.
* `Port.isRead_of_readLine?`: the ports of an instruction have been read as ports.
-/

namespace ImageAudit

open Text

/-! ## Digits -/

theorem Text.toNat_of_isDigit {c : Char} (digit : c.isDigit = true) :
    48 ≤ c.toNat ∧ c.toNat ≤ 57 := by
  delta Char.isDigit at digit
  simp only [Bool.and_eq_true, decide_eq_true_eq, ge_iff_le, UInt32.le_iff_toNat_le] at digit
  exact digit

theorem Text.isSpace_of_isDigit {c : Char} (digit : c.isDigit = true) : isSpace c = false := by
  have := toNat_of_isDigit digit
  rw [← Bool.not_eq_true]
  simp only [isSpace, Bool.or_eq_true, Bool.and_eq_true, decide_eq_true_eq, beq_iff_eq]
  omega

theorem Text.digitsValue_concat (t : Text) (c : Char) :
    digitsValue (t ++ [c]) = 10 * digitsValue t + (c.toNat - '0'.toNat) := by
  rw [digitsValue, List.foldl_append]
  rfl

theorem Text.digitsValue_lt {t : Text} (digits : ∀ c ∈ t, c.isDigit = true) :
    digitsValue t < 10 ^ t.length := by
  induction t using List.reverseRecOn with
  | nil => decide
  | append_singleton t c ih =>
    rw [List.forall_mem_append, List.forall_mem_singleton] at digits
    have before := ih digits.1
    have := toNat_of_isDigit digits.2
    have : '0'.toNat = 48 := rfl
    rw [digitsValue_concat, List.length_append, List.length_singleton, Nat.pow_succ]
    omega

/-- A text without white space is left as it is. -/
theorem Text.trim_of_solid {t : Text} (solid : ∀ c ∈ t, isSpace c = false) : trim t = t :=
  stripWhile_eq_self (fun c first => solid c (List.mem_of_mem_head? first))
    fun c last => solid c (List.mem_of_getLast? last)

namespace Port

/-! ## Numbers and ranges -/

section

variable {t : Text}

theorem isDigit_of_isNumber (number : isNumber t = true) : ∀ c ∈ t, c.isDigit = true := by
  rw [isNumber, Bool.and_eq_true, List.all_eq_true] at number
  exact number.2

theorem notMem_of_isNumber (number : isNumber t = true) {c : Char} (other : c.isDigit = false) :
    c ∉ t := by
  intro inside
  rw [isDigit_of_isNumber number c inside] at other
  cases other

theorem numeral?_of_isNumber (number : isNumber t = true) : numeral? t = some (digitsValue t) := by
  have digits := isDigit_of_isNumber number
  rw [isNumber, Bool.and_eq_true, Bool.and_eq_true, decide_eq_true_eq, decide_eq_true_eq] at number
  obtain ⟨⟨filled, short⟩, all⟩ := number
  have small : digitsValue t < numeralLimit :=
    calc
      digitsValue t < 10 ^ t.length := digitsValue_lt digits
      _ ≤ 10 ^ 5 := Nat.pow_le_pow_right (by decide) short
      _ < numeralLimit := by decide
  cases t with
  | nil => cases filled
  | cons c r =>
    -- The first digit is no sign that would be taken off.
    have unsigned_eq : unsigned (c :: r) = c :: r := by
      rw [unsigned.eq_def]
      split
      · next same =>
        have := digits c List.mem_cons_self
        rw [(List.cons.inj same).1] at this
        cases this
      · rfl
    rw [numeral?, unsigned_eq, isDigits, all]
    simp [small]

/-- What number a text of digits stands for, or a range by its lower end. -/
inductive IsNumeral : Text → Nat → Prop where
  | number {digits : Text} (number : isNumber digits = true) :
      IsNumeral digits (digitsValue digits)
  | range {low high : Text} (first : isNumber low = true) (last : isNumber high = true) :
      IsNumeral (low ++ '-' :: high) (digitsValue low)

theorem IsNumeral.numberOf?_eq {n : Nat} (numeral : IsNumeral t n) : numberOf? t = some n := by
  have solid {u : Text} (number : isNumber u = true) : ∀ c ∈ u, isSpace c = false :=
    fun c inside => isSpace_of_isDigit (isDigit_of_isNumber number c inside)
  cases numeral with
  | number number =>
    rw [numberOf?, trim_of_solid (solid number), cut_eq_none_iff.2 (notMem_of_isNumber number rfl)]
    exact numeral?_of_isNumber number
  | @range low high first last =>
    have solid_range : ∀ c ∈ low ++ '-' :: high, isSpace c = false := by
      rw [List.forall_mem_append, List.forall_mem_cons]
      exact ⟨solid first, by decide, solid last⟩
    rw [numberOf?, trim_of_solid solid_range,
      cut_eq_some_iff.2 ⟨rfl, notMem_of_isNumber first rfl⟩]
    exact numeral?_of_isNumber first

/-- A numeral begins with a digit. -/
theorem IsNumeral.ne_dollar {n : Nat} (numeral : IsNumeral t n) (r : Text) : t ≠ '$' :: r := by
  have front {u s : Text} (number : isNumber u = true) : u ++ s ≠ '$' :: r := by
    intro same
    cases u with
    | nil => cases number
    | cons c u =>
      obtain ⟨rfl, -⟩ := List.cons.inj same
      exact notMem_of_isNumber number (c := '$') rfl List.mem_cons_self
  cases numeral with
  | number number => simpa using front (s := []) number
  | range first last => exact front first

/-- What begins with a dollar sign is no number. -/
theorem numberOf?_dollar (t : Text) : numberOf? ('$' :: t) = none := by
  have trimmed : ∃ r, trim ('$' :: t) = '$' :: r := by
    rw [trim, stripWhile, List.dropWhile_cons_of_neg (by decide), dropEndWhile]
    split
    · exact ⟨[], rfl⟩
    · next d s _ => exact ⟨d :: s, rfl⟩
  obtain ⟨r, same⟩ := trimmed
  rw [numberOf?, same]
  split
  · next low high found =>
    obtain ⟨split, -⟩ := cut_eq_some_iff.1 found
    cases low with
    | nil => cases split
    | cons c low =>
      obtain ⟨rfl, -⟩ := List.cons.inj split
      rfl
  · rfl

end

/-! ## References -/

/-- Whether a text refers to the variable of a name: `$name` or `${name}`. -/
inductive RefersTo : Text → Text → Prop where
  | bare {name : Text} (filled : name ≠ []) (unbraced : name.head? ≠ some '\x7b') :
      RefersTo ('$' :: name) name
  | braced {name : Text} (filled : name ≠ []) : RefersTo ('$' :: '\x7b' :: (name ++ ['\x7d'])) name

theorem referenceOf?_eq_some_iff {t name : Text} :
    referenceOf? t = some name ↔ RefersTo t name := by
  -- Whatever the form, what is found of it must not be empty.
  have named (o : Option Text) :
      (o.bind fun n => if n.isEmpty then none else some n) = some name ↔
        o = some name ∧ name ≠ [] := by
    rw [Option.bind_eq_some_iff]
    constructor
    · rintro ⟨n, rfl, kept⟩
      split at kept
      · cases kept
      · next filled =>
        obtain rfl := Option.some.inj kept
        exact ⟨rfl, by simpa using filled⟩
    · rintro ⟨rfl, filled⟩
      exact ⟨name, rfl, by simpa using filled⟩
  rw [referenceOf?.eq_def]
  dsimp only
  split
  · next inner =>
    refine (named _).trans ⟨?_, ?_⟩
    · rintro ⟨found, filled⟩
      obtain rfl := dropSuffix?_eq_some_iff.1 found
      exact .braced filled
    · rintro (⟨-, unbraced⟩ | filled)
      · exact absurd rfl unbraced
      · exact ⟨dropSuffix?_eq_some_iff.2 rfl, filled⟩
  · next n unbraced =>
    refine (named _).trans ⟨?_, ?_⟩
    · rintro ⟨found, filled⟩
      obtain rfl := Option.some.inj found
      refine .bare filled fun brace => ?_
      obtain ⟨r, rfl⟩ := List.head?_eq_some_iff.1 brace
      exact unbraced r rfl
    · rintro (⟨filled, -⟩ | filled)
      · exact ⟨rfl, filled⟩
      · exact absurd rfl (unbraced _)
  · next other =>
    refine (named _).trans ⟨fun h => (Option.some_ne_none _ h.1.symm).elim, ?_⟩
    rintro (_ | _)
    · exact absurd rfl (other _)
    · exact absurd rfl (other _)

/-! ## Ports that are read -/

/-- How a port is written, without its protocol. -/
inductive IsWritten : Text → Prop where
  | numeral {t : Text} {n : Nat} (numeral : IsNumeral t n) : IsWritten t
  | reference {t name : Text} (refers : RefersTo t name) : IsWritten t

theorem RefersTo.exists_eq {t name : Text} (refers : RefersTo t name) : ∃ r, t = '$' :: r := by
  cases refers with
  | bare => exact ⟨_, rfl⟩
  | braced => exact ⟨_, rfl⟩

theorem isWritten_of_isPort {t : Text} (port : isPort t = true) : IsWritten t := by
  rw [isPort] at port
  split at port
  · obtain ⟨name, found⟩ := Option.isSome_iff_exists.1 port
    exact .reference (referenceOf?_eq_some_iff.1 found)
  · split at port
    · next low high found =>
      rw [Bool.and_eq_true] at port
      obtain ⟨rfl, -⟩ := cut_eq_some_iff.1 found
      exact .numeral (.range port.1 port.2)
    · exact .numeral (.number port)

/-- Whether a port has been read from a text. -/
def IsRead (p : Port) : Prop := ∃ t, read? t = some p

theorem isWritten_of_isRead {p : Port} (accepted : p.IsRead) : IsWritten p.written := by
  obtain ⟨t, read⟩ := accepted
  have kept {w : Text} {q : Protocol}
      (h : (if isPort w then some (⟨w, q⟩ : Port) else none) = some p) : IsWritten p.written := by
    split at h
    · next port =>
      obtain rfl := Option.some.inj h
      exact isWritten_of_isPort port
    · cases h
  rw [read?] at read
  dsimp only at read
  split at read
  · obtain ⟨⟨w, q⟩, -, h⟩ := Option.bind_eq_some_iff.1 read
    exact kept h
  · exact kept read

theorem IsNumeral.referenceOf?_eq_none {t : Text} {n : Nat} (numeral : IsNumeral t n) :
    referenceOf? t = none := by
  rw [Option.eq_none_iff_forall_ne_some]
  intro name found
  obtain ⟨r, same⟩ := (referenceOf?_eq_some_iff.1 found).exists_eq
  exact numeral.ne_dollar r same

theorem RefersTo.numberOf?_eq_none {t name : Text} (refers : RefersTo t name) :
    numberOf? t = none := by
  obtain ⟨r, rfl⟩ := refers.exists_eq
  exact numberOf?_dollar r

theorem IsWritten.isSome_numberOf? {t : Text} (h : IsWritten t) :
    (numberOf? t).isSome = (referenceOf? t).isNone := by
  cases h with
  | numeral numeral => rw [numeral.numberOf?_eq, numeral.referenceOf?_eq_none]; rfl
  | reference refers => rw [refers.numberOf?_eq_none, referenceOf?_eq_some_iff.2 refers]; rfl

/-- A port that is read has a number, or else it refers to a variable. -/
theorem isSome_number?_of_isRead {p : Port} (accepted : p.IsRead) :
    p.number?.isSome = p.reference?.isNone :=
  (isWritten_of_isRead accepted).isSome_numberOf?

/-! ## Ports of instructions -/

theorem isRead_of_mapM {ts : List Text} {ports : List Port} (read : ts.mapM read? = some ports) :
    ∀ p ∈ ports, p.IsRead := by
  induction ts generalizing ports with
  | nil =>
    cases read
    exact List.forall_mem_nil _
  | cons t ts ih =>
    rw [List.mapM_cons] at read
    obtain ⟨p, first, read⟩ := Option.bind_eq_some_iff.1 read
    obtain ⟨ps, later, read⟩ := Option.bind_eq_some_iff.1 read
    obtain rfl := Option.some.inj read
    exact List.forall_mem_cons.2 ⟨⟨t, first⟩, ih later⟩

/-- The ports of an instruction have been read as ports. -/
theorem isRead_of_readLine? {line : Text} {ports : List Port}
    (h : Instruction.readLine? line = some (.expose ports)) : ∀ p ∈ ports, p.IsRead := by
  obtain ⟨r, read⟩ := Instruction.read?_of_readLine? h
  obtain ⟨k, body, -, here⟩ := Instruction.exists_of_read? read
  obtain rfl : k = .expose := (Instruction.kind_of_body? here).symm
  obtain ⟨i, found, same⟩ := Option.map_eq_some_iff.1 here
  obtain rfl := (Prod.mk.inj same).1
  rw [Instruction.readExpose?] at found
  split at found
  · cases found
  · obtain ⟨ps, all, same⟩ := Option.map_eq_some_iff.1 found
    cases same
    exact isRead_of_mapM all

end Port

end ImageAudit
