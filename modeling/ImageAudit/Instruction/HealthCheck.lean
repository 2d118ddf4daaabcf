import ImageAudit.Instruction.Transfer
import ImageAudit.Text.Numeral

/-!
# Health checks

HEALTHCHECK switches the check off, or gives a command with options before it.

* `HealthOption.read?` reads one option, `HealthOptions.set?` takes it over.
* `HealthCheck.read?` reads `NONE`, or options and `CMD` with its arguments.
-/

namespace ImageAudit

open Text

/-- The options of a health check; durations are kept as written. -/
structure HealthOptions where
  interval : Option Text
  timeout : Option Text
  startPeriod : Option Text
  startInterval : Option Text
  retries : Option Nat
  deriving DecidableEq

/-- No option at all. -/
def HealthOptions.empty : HealthOptions := ⟨none, none, none, none, none⟩

/-- How the health of a container is checked. -/
inductive HealthCheck where
  /-- Not at all. -/
  | off
  /-- By a command. -/
  | command (arguments : Arguments) (options : HealthOptions)
  deriving DecidableEq

/-- One option as written. -/
inductive HealthOption where
  | interval (duration : Text)
  | timeout (duration : Text)
  | startPeriod (duration : Text)
  | startInterval (duration : Text)
  | retries (count : Text)
  deriving DecidableEq

namespace HealthOption

/-- Reads `name=value` with at least one blank after it. -/
def setting? (name t : Text) : Option (Text × Text) := do
  let (v, r) ← flagValue? name t
  let r ← blanks? r
  some (v, r)

/-- Reads an option and the blanks after it. -/
def read? (t : Text) : Option (HealthOption × Text) :=
  ((setting? "--interval".toList t).map fun (v, r) => (interval v, r)).or <|
  ((setting? "--timeout".toList t).map fun (v, r) => (timeout v, r)).or <|
  ((setting? "--start-period".toList t).map fun (v, r) => (startPeriod v, r)).or <|
  ((setting? "--start-interval".toList t).map fun (v, r) => (startInterval v, r)).or <|
  (setting? "--retries".toList t).map fun (v, r) => (retries v, r)

/-- Sets an option; refuses a number of retries that is none. -/
def set? (options : HealthOptions) : HealthOption → Option HealthOptions
  | interval d => some { options with interval := some d }
  | timeout d => some { options with timeout := some d }
  | startPeriod d => some { options with startPeriod := some d }
  | startInterval d => some { options with startInterval := some d }
  | retries n => (numeral? n).map fun n => { options with retries := some n }

theorem length_lt_of_setting? {name t v r : Text} (h : setting? name t = some (v, r)) :
    r.length < t.length := by
  obtain ⟨⟨v', s⟩, h₁, h⟩ := Option.bind_eq_some_iff.1 h
  obtain ⟨s', h₂, h⟩ := Option.bind_eq_some_iff.1 h
  simp only [Option.some.injEq, Prod.mk.injEq] at h
  have := TransferFlag.length_lt_of_flagValue? h₁
  have := length_lt_of_blanks? h₂
  rw [← h.2]
  omega

theorem length_lt_of_read? {t r : Text} {o : HealthOption} (h : read? t = some (o, r)) :
    r.length < t.length := by
  simp only [read?, Option.or_eq_some_iff, Option.map_eq_some_iff, Prod.mk.injEq] at h
  rcases h with ⟨⟨v, s⟩, h, -, rfl⟩ | ⟨-, ⟨⟨v, s⟩, h, -, rfl⟩ | ⟨-, ⟨⟨v, s⟩, h, -, rfl⟩ |
    ⟨-, ⟨⟨v, s⟩, h, -, rfl⟩ | ⟨-, ⟨v, s⟩, h, -, rfl⟩⟩⟩⟩ <;>
  exact length_lt_of_setting? h

/-- Reads options as long as there are any. -/
def readAll (t : Text) : List HealthOption × Text :=
  match _h : read? t with
  | none => ([], t)
  | some (o, r) =>
    let (os, rest) := readAll r
    (o :: os, rest)
termination_by t.length
decreasing_by exact length_lt_of_read? _h

end HealthOption

namespace HealthCheck

/-- Whether a text is `NONE` with nothing but blanks after it. -/
def isOff (t : Text) : Bool :=
  match dropWord? "NONE".toList t with
  | some r => (skipBlanks r).isEmpty
  | none => false

/-- Reads a health check. -/
def read? (t : Text) : Option HealthCheck :=
  if isOff t then some off
  else do
    let (options, r) := HealthOption.readAll t
    let options ← options.foldlM HealthOption.set? HealthOptions.empty
    let r ← dropWord? "CMD".toList r
    let r ← blanks? r
    let arguments ← Arguments.read? r
    some (command arguments options)

end HealthCheck

end ImageAudit
