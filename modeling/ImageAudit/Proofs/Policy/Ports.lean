import ImageAudit.Policy.Rule
import ImageAudit.Proofs.Dockerfile.Groups
import ImageAudit.Proofs.Instruction.Port
import ImageAudit.Proofs.Statement.Reading

/-!
# Ports that need privileges

Which ports a file is blamed for: those that stand for a number of at most 1024, be it written down
or given by a variable.

* `Port.StandsFor` says what number a port stands for, `portNumber?_eq_some_iff` that this number is
  found.
* `ReportsPorts` says what is reported of a row of ports.
* `portFindings_exact`: a file is blamed for these ports, in their order, and for no other ones.
-/

namespace ImageAudit

open Text

/-! ## Numbers of ports -/

/-- The number a port stands for, given the pairs of ENV. A number that is written down counts
whatever the pairs are; a reference counts for the number in the last pair of its name, up to the
first slash. -/
inductive Port.StandsFor (pairs : List Pair) : Text → Nat → Prop where
  | numeral {t : Text} {n : Nat} (numeral : IsNumeral t n) : StandsFor pairs t n
  | reference {t name value : Text} {before after : List Pair} {n : Nat} (refers : RefersTo t name)
      (defined : pairs = before ++ (name, value) :: after) (last : ∀ p ∈ after, p.1 ≠ name)
      (read : numberOf? (value.takeWhile (· != '/')) = some n) : StandsFor pairs t n

section

variable {d : Dockerfile} {p : Port} {n : Nat}

theorem portNumber?_of_isNumeral (numeral : Port.IsNumeral p.written n) (v : View) :
    portNumber? v p = some n := by
  rw [portNumber?, Port.number?, numeral.numberOf?_eq]

/-- Without a number of its own, a port has the one that the last pair of its name gives it. -/
theorem portNumber?_eq_some_iff_of_refersTo {name : Text}
    (refers : Port.RefersTo p.written name) :
    portNumber? d.view p = some n ↔
      ∃ value, Pair.lookup d.envPairs name = some value ∧
        Port.numberOf? (value.takeWhile (· != '/')) = some n := by
  have named : p.reference? = some name := Port.referenceOf?_eq_some_iff.2 refers
  rw [portNumber?, Port.number?, refers.numberOf?_eq_none, named]
  simp only [Option.bind_eq_bind, Option.bind_some, Option.bind_eq_some_iff, cut_getD,
    Dockerfile.envValue_view]

/-- The number that is found for a port is the one it stands for. -/
theorem portNumber?_eq_some_iff (accepted : p.IsRead) :
    portNumber? d.view p = some n ↔ Port.StandsFor d.envPairs p.written n := by
  constructor
  · intro found
    cases Port.isWritten_of_isRead accepted with
    | numeral numeral =>
      rw [portNumber?_of_isNumeral numeral] at found
      obtain rfl := Option.some.inj found
      exact .numeral numeral
    | reference refers =>
      rw [portNumber?_eq_some_iff_of_refersTo refers] at found
      obtain ⟨value, looked_up, read⟩ := found
      obtain ⟨before, after, defined, last⟩ := Pair.lookup_eq_some_iff.1 looked_up
      exact .reference refers defined last read
  · intro stands
    cases stands with
    | numeral numeral => exact portNumber?_of_isNumeral numeral d.view
    | reference refers defined last read =>
      rw [portNumber?_eq_some_iff_of_refersTo refers]
      exact ⟨_, Pair.lookup_eq_some_iff.2 ⟨_, _, defined, last⟩, read⟩

theorem portFinding?_eq_some_iff (accepted : p.IsRead) {e : Located (List Port)} {f : Finding} :
    portFinding? d.view e p = some f ↔
      ∃ n, Port.StandsFor d.envPairs p.written n ∧ n ≤ highestPrivilegedPort ∧
        f = portFinding n e := by
  simp only [← portNumber?_eq_some_iff accepted]
  rw [portFinding?]
  cases portNumber? d.view p with
  | none => simp
  | some n =>
    refine Option.ite_none_right_eq_some.trans ⟨?_, ?_⟩
    · rintro ⟨low, same⟩
      exact ⟨n, rfl, low, (Option.some.inj same).symm⟩
    · rintro ⟨m, same, low, rfl⟩
      cases same
      exact ⟨low, rfl⟩

end

/-! ## What is reported -/

/-- The exposed ports, each with its statement: statements in their order, and of each its ports in
their order. -/
def Dockerfile.exposedPorts (d : Dockerfile) : List (Located (List Port) × Port) :=
  d.statements.flatMap fun s =>
    match s.instruction with
    | .expose ports => ports.map fun p => (⟨ports, s⟩, p)
    | _ => []

/-- What is reported of a row of ports: a finding with its number for each that stands for a number
of at most 1024, nothing for any other, and the findings in the order of the ports. -/
inductive ReportsPorts (pairs : List Pair) :
    List (Located (List Port) × Port) → List Finding → Prop where
  | nil : ReportsPorts pairs [] []
  | privileged {e : Located (List Port)} {p : Port} {n : Nat}
      {xs : List (Located (List Port) × Port)} {fs : List Finding}
      (stands : Port.StandsFor pairs p.written n) (low : n ≤ 1024)
      (rest : ReportsPorts pairs xs fs) : ReportsPorts pairs ((e, p) :: xs) (portFinding n e :: fs)
  | harmless {e : Located (List Port)} {p : Port} {xs : List (Located (List Port) × Port)}
      {fs : List Finding} (high : ∀ n, Port.StandsFor pairs p.written n → 1024 < n)
      (rest : ReportsPorts pairs xs fs) : ReportsPorts pairs ((e, p) :: xs) fs

theorem Dockerfile.flatMap_exposes (d : Dockerfile) :
    (d.view.exposes.flatMap fun e => e.item.map fun p => (e, p)) = d.exposedPorts := by
  change ((Located.select Instruction.expose? d.statements).flatMap fun e =>
    e.item.map fun p => (e, p)) = _
  rw [exposedPorts]
  induction d.statements with
  | nil => rfl
  | cons s ss ih =>
    rw [List.flatMap_cons, ← ih]
    cases carried : s.instruction <;> simp [Located.select, carried, Instruction.expose?]

theorem portFindings_view (d : Dockerfile) :
    portFindings d.view = d.exposedPorts.filterMap fun x => portFinding? d.view x.1 x.2 := by
  rw [← Dockerfile.flatMap_exposes, List.filterMap_flatMap, portFindings]
  simp only [List.filterMap_map]
  rfl

/-- What is reported is what the filter of the ports lets through. -/
theorem reportsPorts_iff {d : Dockerfile} {xs : List (Located (List Port) × Port)}
    (accepted : ∀ x ∈ xs, x.2.IsRead) {fs : List Finding} :
    ReportsPorts d.envPairs xs fs ↔
      (xs.filterMap fun x => portFinding? d.view x.1 x.2) = fs := by
  constructor
  · intro reported
    induction reported with
    | nil => rfl
    | privileged stands low _ ih =>
      obtain ⟨here, accepted⟩ := List.forall_mem_cons.1 accepted
      simp only [List.filterMap_cons, (portFinding?_eq_some_iff here).2 ⟨_, stands, low, rfl⟩,
        ih accepted]
    | @harmless e p _ _ high _ ih =>
      obtain ⟨here, accepted⟩ := List.forall_mem_cons.1 accepted
      -- A finding would come of a number of at most 1024 that the port stands for.
      have unreported : portFinding? d.view e p = none := by
        rw [Option.eq_none_iff_forall_ne_some]
        intro f found
        obtain ⟨n, stands, low, -⟩ := (portFinding?_eq_some_iff here).1 found
        exact absurd low (Nat.not_le.2 (high n stands))
      simp only [List.filterMap_cons, unreported, ih accepted]
  · rintro rfl
    induction xs with
    | nil => exact .nil
    | cons x xs ih =>
      obtain ⟨here, accepted⟩ := List.forall_mem_cons.1 accepted
      cases found : portFinding? d.view x.1 x.2 with
      | none =>
        simp only [List.filterMap_cons, found]
        refine .harmless (fun n stands => Nat.lt_of_not_le fun low => ?_) (ih accepted)
        rw [(portFinding?_eq_some_iff here).2 ⟨n, stands, low, rfl⟩] at found
        cases found
      | some f =>
        obtain ⟨n, stands, low, rfl⟩ := (portFinding?_eq_some_iff here).1 found
        simp only [List.filterMap_cons, found]
        exact .privileged stands low (ih accepted)

namespace Dockerfile

/-- The ports of a file that is read have been read as ports. -/
theorem isRead_of_ofText {t : Text} {d : Dockerfile} (read : ofText t = .ok d) :
    ∀ x ∈ d.exposedPorts, x.2.IsRead := by
  intro x inside
  obtain ⟨s, member, here⟩ := List.mem_flatMap.1 inside
  obtain ⟨l, -, line⟩ := Statement.exists_of_mem_statements (ofText_eq_ok_iff.1 read).2 member
  have found := Statement.readLine?_of_read line
  split at here
  · next ports carried =>
    obtain ⟨p, listed, rfl⟩ := List.mem_map.1 here
    exact Port.isRead_of_readLine? (carried ▸ found) p listed
  · cases here

/-- Where all exposed ports have been read as ports, the rule reports those that stand for a number
of at most 1024, each once and in their order, and no other ones. Each port that is read has a
number or refers to a variable, and never both. -/
theorem portFindings_exact {d : Dockerfile} (accepted : ∀ x ∈ d.exposedPorts, x.2.IsRead) :
    (∀ fs, ReportsPorts d.envPairs d.exposedPorts fs ↔
        Rule.forbidPrivilegedPorts.findings d.view = fs) ∧
      ∀ p : Port, p.IsRead → p.number?.isSome = p.reference?.isNone := by
  refine ⟨fun fs => ?_, fun p read => Port.isSome_number?_of_isRead read⟩
  change _ ↔ portFindings d.view = fs
  rw [portFindings_view]
  exact reportsPorts_iff accepted

/-- A variable that is set twice, a number above the bound, a range, and an unset variable. -/
theorem portFindings_exact_of_four_ports :
    let ports : List Port :=
      [⟨"$P".toList, .tcp⟩, ⟨"8080".toList, .udp⟩, ⟨"443-500".toList, .tcp⟩,
        ⟨"$\x7bQ\x7d".toList, .tcp⟩]
    let expose : Statement := ⟨.expose ports, 3, "EXPOSE $P 8080/udp 443-500 $\x7bQ\x7d".toList⟩
    let d : Dockerfile :=
      ⟨none, [⟨.env [("P".toList, "22/udp".toList)], 1, "ENV P=22/udp".toList⟩,
        ⟨.env [("P".toList, "80/tcp".toList)], 2, "ENV P=80/tcp".toList⟩, expose]⟩
    (∀ x ∈ d.exposedPorts, x.2.IsRead) ∧
      ReportsPorts d.envPairs d.exposedPorts
        [portFinding 80 ⟨ports, expose⟩, portFinding 443 ⟨ports, expose⟩] := by
  intro ports expose d
  have accepted : ∀ x ∈ d.exposedPorts, x.2.IsRead := by
    refine List.forall_mem_cons.2 ⟨⟨"$P".toList, by decide +kernel⟩, ?_⟩
    refine List.forall_mem_cons.2 ⟨⟨"8080/udp".toList, by decide +kernel⟩, ?_⟩
    refine List.forall_mem_cons.2 ⟨⟨"443-500/tcp".toList, by decide +kernel⟩, ?_⟩
    refine List.forall_mem_cons.2 ⟨⟨"$\x7bQ\x7d".toList, by decide +kernel⟩, ?_⟩
    exact List.forall_mem_nil _
  exact ⟨accepted, ((portFindings_exact accepted).1 _).2 (by rfl)⟩

end Dockerfile

end ImageAudit
