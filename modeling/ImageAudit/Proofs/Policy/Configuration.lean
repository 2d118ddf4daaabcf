import ImageAudit.Policy.Basic
import ImageAudit.Proofs.Pattern.WholeWord

/-!
# The rules of a configuration

A configuration gives one rule for each section that is enabled and has the list it needs. Building
the rules fails only on patterns: those of the packages come first, then those of secrets.

* `Policy.ofConfigWith_eq`: the rules, or the first text that is no pattern.
* `Policy.ofConfig_eq_error_iff`: when the project's own reader refuses a configuration.
* `Policy.ofConfigWith_enabled_rules`: which rules there are, and when there are none.
-/

namespace ImageAudit

/-! ## What a configuration asks for -/

/-- Whether a section is enabled and has its list. -/
def ListConfig.asks (s : ListConfig) : Bool := s.enabled && s.items.isSome

namespace SecretsConfig

/-- Whether the section on secrets is enabled and has patterns. -/
def asks (s : SecretsConfig) : Bool := s.enabled && s.secrets.any fun ts => !ts.isEmpty

/-- All patterns in the order they are read. -/
def patterns (s : SecretsConfig) : List Text := s.secrets.getD [] ++ s.allowed

end SecretsConfig

namespace PolicyConfig

/-- Whether a configuration asks for a rule of a kind: its section is there, enabled, and has the
list that the rule cannot do without. -/
def asks (c : PolicyConfig) : RuleKind → Bool
  | .enforceRegistry => c.registries.any ListConfig.asks
  | .forbidTags => c.tags.any ListConfig.asks
  | .forbidInsecureRegistries => c.insecureRegistries.any SwitchConfig.enabled
  | .forbidRoot => c.root.any SwitchConfig.enabled
  | .forbidPrivilegedPorts => c.privilegedPorts.any SwitchConfig.enabled
  | .forbidPackages => c.packages.any ListConfig.asks
  | .forbidSecrets => c.secrets.any SecretsConfig.asks

/-- The packages of a section that asks for their rule. -/
def forbiddenPackages (c : PolicyConfig) : List Text :=
  ((c.packages.filter ListConfig.asks).bind ListConfig.items).getD []

/-- The patterns of a section that asks for the rule on secrets. -/
def secretPatterns (c : PolicyConfig) : List Text :=
  ((c.secrets.filter SecretsConfig.asks).map SecretsConfig.patterns).getD []

/-- A configuration without the sections that are not enabled. -/
def onlyEnabled (c : PolicyConfig) : PolicyConfig where
  registries := c.registries.filter ListConfig.enabled
  tags := c.tags.filter ListConfig.enabled
  insecureRegistries := c.insecureRegistries.filter SwitchConfig.enabled
  root := c.root.filter SwitchConfig.enabled
  privilegedPorts := c.privilegedPorts.filter SwitchConfig.enabled
  packages := c.packages.filter ListConfig.enabled
  secrets := c.secrets.filter SecretsConfig.enabled

end PolicyConfig

/-! ## Reading patterns -/

/-- A result, unless some text is no pattern. -/
def unlessInvalid {α : Type} (invalid : Option Text) (a : α) : Except PolicyError α :=
  match invalid with
  | some t => .error (.invalidPattern t)
  | none => .ok a

theorem unlessInvalid_map {α β : Type} (invalid : Option Text) (a : α) (f : α → β) :
    (unlessInvalid invalid a).map f = unlessInvalid invalid (f a) := by
  cases invalid <;> rfl

theorem unlessInvalid_eq_error_iff {α : Type} {invalid : Option Text} {a : α} {e : PolicyError} :
    unlessInvalid invalid a = .error e ↔ ∃ t, invalid = some t ∧ e = .invalidPattern t := by
  cases invalid <;> simp [unlessInvalid, eq_comm]

theorem eq_of_unlessInvalid {α : Type} {invalid : Option Text} {a b : α}
    (accepted : unlessInvalid invalid a = .ok b) : b = a := by
  cases invalid <;> cases accepted
  rfl

section Reader

variable (read : Text → Option SourcePattern)

/-- The first text that is no pattern. -/
def firstUnreadable (ts : List Text) : Option Text := ts.find? fun t => (read t).isNone

theorem firstUnreadable_eq_none_iff {ts : List Text} :
    firstUnreadable read ts = none ↔ ∀ t ∈ ts, (read t).isSome := by
  simp [firstUnreadable, Option.isSome_iff_ne_none]

theorem firstUnreadable_append (ss ts : List Text) :
    firstUnreadable read (ss ++ ts) = (firstUnreadable read ss).or (firstUnreadable read ts) :=
  List.find?_append

theorem readPatterns_eq (ts : List Text) :
    readPatterns read ts = unlessInvalid (firstUnreadable read ts) (ts.filterMap read) := by
  induction ts with
  | nil => rfl
  | cons t ts ih =>
    rw [readPatterns, firstUnreadable, List.find?_cons, List.filterMap_cons]
    cases read t with
    | none => rfl
    | some p =>
      rw [ih]
      exact unlessInvalid_map _ _ _

/-! ## Rules -/

namespace Rule

/-- The rule on secrets that a section asks for, from those of its patterns that can be read. -/
def ofReadable (s : Option SecretsConfig) : List Rule :=
  ((s.filter SecretsConfig.asks).map fun s =>
    forbidSecrets ((s.secrets.getD []).filterMap read) (s.allowed.filterMap read)).toList

theorem ofSecretsWith_eq (secrets allowed : List Text) :
    ofSecretsWith read secrets allowed =
      unlessInvalid (firstUnreadable read (secrets ++ allowed))
        (forbidSecrets (secrets.filterMap read) (allowed.filterMap read)) := by
  rw [ofSecretsWith, readPatterns_eq, readPatterns_eq, firstUnreadable_append]
  cases firstUnreadable read secrets with
  | some t => rfl
  | none => cases firstUnreadable read allowed <;> rfl

theorem ofPackagesConfig_eq (c : PolicyConfig) :
    ofPackagesConfig read c.packages =
      unlessInvalid (firstUnreadable read (c.forbiddenPackages.map Pattern.wholeWordText))
        (ofList forbidPackages c.packages) := by
  rw [PolicyConfig.forbiddenPackages]
  rcases c.packages with - | ⟨_ | _, - | packages⟩
  · rfl
  · rfl
  · rfl
  · rfl
  · simp only [ofPackagesConfig, ofPackagesWith, readPatterns_eq, unlessInvalid_map]
    rfl

theorem ofSecretsConfig_eq (c : PolicyConfig) :
    ofSecretsConfig read c.secrets =
      unlessInvalid (firstUnreadable read c.secretPatterns) (ofReadable read c.secrets) := by
  rw [PolicyConfig.secretPatterns]
  rcases c.secrets with - | ⟨_ | _, - | (_ | ⟨t, ts⟩), allowed⟩
  case some.true.some.cons =>
    simp only [ofSecretsConfig, ofSecretsWith_eq, unlessInvalid_map]
    rfl
  all_goals rfl

theorem map_kind_ofSwitch (rule : Rule) (s : Option SwitchConfig) :
    (ofSwitch rule s).map kind = [rule.kind].filter fun _ => s.any SwitchConfig.enabled := by
  rcases s with - | ⟨_ | _⟩ <;> simp [ofSwitch]

theorem map_kind_ofList (rule : List Text → Rule) {k : RuleKind} (same : ∀ ts, (rule ts).kind = k)
    (s : Option ListConfig) :
    (ofList rule s).map kind = [k].filter fun _ => s.any ListConfig.asks := by
  rcases s with - | ⟨_ | _, - | ts⟩ <;> simp [ofList, ListConfig.asks, same]

theorem map_kind_ofReadable (s : Option SecretsConfig) :
    (ofReadable read s).map kind = [.forbidSecrets].filter fun _ => s.any SecretsConfig.asks := by
  cases s with
  | none => rfl
  | some s =>
    cases asked : s.asks with
    | false => simp [ofReadable, Option.filter, asked]
    | true => simp [ofReadable, Option.filter, asked, kind]

/-! A section that is not enabled is like one that is missing. -/

theorem ofSwitch_filter (rule : Rule) (s : Option SwitchConfig) :
    ofSwitch rule (s.filter SwitchConfig.enabled) = ofSwitch rule s := by
  rcases s with - | ⟨_ | _⟩ <;> rfl

theorem ofList_filter (rule : List Text → Rule) (s : Option ListConfig) :
    ofList rule (s.filter ListConfig.enabled) = ofList rule s := by
  rcases s with - | ⟨_ | _, _⟩ <;> rfl

theorem ofPackagesConfig_filter (s : Option ListConfig) :
    ofPackagesConfig read (s.filter ListConfig.enabled) = ofPackagesConfig read s := by
  rcases s with - | ⟨_ | _, _⟩ <;> rfl

theorem ofSecretsConfig_filter (s : Option SecretsConfig) :
    ofSecretsConfig read (s.filter SecretsConfig.enabled) = ofSecretsConfig read s := by
  rcases s with - | ⟨_ | _, _, _⟩ <;> rfl

end Rule

/-! ## Policies -/

namespace Policy

/-- The rules a configuration asks for, from those patterns that can be read. -/
def ofReadable (c : PolicyConfig) : Policy :=
  ⟨Rule.ofList .enforceRegistry c.registries ++
    Rule.ofList .forbidTags c.tags ++
    Rule.ofSwitch .forbidInsecureRegistries c.insecureRegistries ++
    Rule.ofSwitch .forbidRoot c.root ++
    Rule.ofSwitch .forbidPrivilegedPorts c.privilegedPorts ++
    Rule.ofList .forbidPackages c.packages ++
    Rule.ofReadable read c.secrets⟩

theorem ofConfigWith_eq (c : PolicyConfig) :
    ofConfigWith read c =
      unlessInvalid
        (firstUnreadable read
          (c.forbiddenPackages.map Pattern.wholeWordText ++ c.secretPatterns))
        (ofReadable read c) := by
  rw [ofConfigWith, Rule.ofPackagesConfig_eq, Rule.ofSecretsConfig_eq, firstUnreadable_append]
  cases firstUnreadable read (c.forbiddenPackages.map Pattern.wholeWordText) with
  | some t => rfl
  | none => cases firstUnreadable read c.secretPatterns <;> rfl

theorem kinds_ofReadable (c : PolicyConfig) :
    (ofReadable read c).kinds = RuleKind.all.filter c.asks := by
  have registries := Rule.map_kind_ofList .enforceRegistry (fun _ => rfl) c.registries
  have tags := Rule.map_kind_ofList .forbidTags (fun _ => rfl) c.tags
  have packages := Rule.map_kind_ofList .forbidPackages (fun _ => rfl) c.packages
  simp only [kinds, ofReadable, List.map_append, registries, tags, packages,
    Rule.map_kind_ofSwitch, Rule.map_kind_ofReadable]
  -- Each section keeps or drops its own kind, as `c.asks` does in the list of all.
  change [.enforceRegistry].filter c.asks ++ [.forbidTags].filter c.asks ++
    [.forbidInsecureRegistries].filter c.asks ++ [.forbidRoot].filter c.asks ++
    [.forbidPrivilegedPorts].filter c.asks ++ [.forbidPackages].filter c.asks ++
    [.forbidSecrets].filter c.asks = _
  simp only [← List.filter_append]
  rfl

theorem ofConfigWith_onlyEnabled (c : PolicyConfig) :
    ofConfigWith read c.onlyEnabled = ofConfigWith read c := by
  simp only [ofConfigWith, PolicyConfig.onlyEnabled, Rule.ofSwitch_filter, Rule.ofList_filter,
    Rule.ofPackagesConfig_filter, Rule.ofSecretsConfig_filter]

theorem ofConfigWith_eq_error_iff {c : PolicyConfig}
    (escaped : ∀ p ∈ c.forbiddenPackages, (read (Pattern.wholeWordText p)).isSome)
    {e : PolicyError} :
    ofConfigWith read c = .error e ↔
      ∃ s ∈ c.secrets, s.asks ∧ ∃ t, firstUnreadable read s.patterns = some t ∧
        e = .invalidPattern t := by
  have readable :
      firstUnreadable read (c.forbiddenPackages.map Pattern.wholeWordText) = none := by
    simpa [firstUnreadable_eq_none_iff] using escaped
  rw [ofConfigWith_eq, unlessInvalid_eq_error_iff, firstUnreadable_append, readable,
    Option.none_or, PolicyConfig.secretPatterns]
  cases c.secrets with
  | none => simp [firstUnreadable]
  | some s =>
    cases asked : s.asks with
    | false => simp [Option.filter, firstUnreadable, asked]
    | true => simp [Option.filter, asked]

theorem ofConfig_eq_error_iff {c : PolicyConfig}
    (short : ∀ p ∈ c.forbiddenPackages, p.length < 100000) {e : PolicyError} :
    ofConfig c = .error e ↔
      ∃ s ∈ c.secrets, s.asks ∧ ∃ t, firstUnreadable SourcePattern.ofText? s.patterns = some t ∧
        e = .invalidPattern t := by
  refine ofConfigWith_eq_error_iff SourcePattern.ofText? fun p forbidden => ?_
  obtain ⟨q, escaped, -⟩ := SourcePattern.exists_of_wholeWordText (short p forbidden)
  rw [escaped, Option.isSome_some]

/-- A configuration is refused for the first pattern on secrets, or else allowed pattern, that is
none, provided their section is enabled and not without patterns on secrets; the names of packages,
once escaped, have to be patterns. Otherwise it gives one rule for each section that is enabled and
has its list, in the order of the kinds. What sections hold that are not enabled does not matter. -/
theorem ofConfigWith_enabled_rules (c : PolicyConfig) :
    ((∀ p ∈ c.forbiddenPackages, (read (Pattern.wholeWordText p)).isSome) →
        ∀ e, ofConfigWith read c = .error e ↔
          ∃ s ∈ c.secrets, s.asks ∧ ∃ t, firstUnreadable read s.patterns = some t ∧
            e = .invalidPattern t) ∧
      (∀ p, ofConfigWith read c = .ok p →
        p.kinds.Sublist RuleKind.all ∧ p.kinds.Nodup ∧ ∀ k, k ∈ p.kinds ↔ c.asks k) ∧
      ofConfigWith read c.onlyEnabled = ofConfigWith read c := by
  refine ⟨fun escaped e => ofConfigWith_eq_error_iff read escaped, fun p accepted => ?_,
    ofConfigWith_onlyEnabled read c⟩
  rw [ofConfigWith_eq] at accepted
  obtain rfl := eq_of_unlessInvalid accepted
  rw [kinds_ofReadable]
  have nodup_all : RuleKind.all.Nodup := by decide
  exact ⟨List.filter_sublist, nodup_all.filter _, fun k => by simp [RuleKind.mem_all]⟩

/-- A bracket that is not closed matters only where its section is enabled. -/
theorem ofConfigWith_enabled_rules_of_open_bracket :
    let secrets (enabled : Bool) : SecretsConfig :=
      ⟨enabled, some ["id_rsa".toList, "[".toList], ["(".toList]⟩
    let c (enabled : Bool) : PolicyConfig :=
      ⟨some ⟨false, some []⟩, some ⟨true, none⟩, none, some ⟨true⟩, none,
        some ⟨true, some ["c++".toList]⟩, some (secrets enabled)⟩
    ofConfig (c true) = .error (.invalidPattern "[".toList) ∧
      ∃ p, ofConfig (c false) = .ok p ∧ p.kinds.Sublist RuleKind.all ∧
        ∀ k, k ∈ p.kinds ↔ k = .forbidRoot ∨ k = .forbidPackages := by
  intro secrets c
  have readable : ∀ p ∈ ["c++".toList],
      (SourcePattern.ofText? (Pattern.wholeWordText p)).isSome := by decide +kernel
  have first : firstUnreadable SourcePattern.ofText? (secrets true).patterns =
      some "[".toList := by decide +kernel
  obtain ⟨refused, -, -⟩ := ofConfigWith_enabled_rules SourcePattern.ofText? (c true)
  obtain ⟨accepted, built, -⟩ := ofConfigWith_enabled_rules SourcePattern.ofText? (c false)
  refine ⟨(refused readable _).2 ⟨_, rfl, rfl, _, first, rfl⟩, ?_⟩
  cases result : ofConfig (c false) with
  | error e =>
    obtain ⟨s, present, asked, -⟩ := (accepted readable e).1 result
    obtain rfl := Option.some.inj present
    cases asked
  | ok p =>
    obtain ⟨sublist, -, asked⟩ := built p result
    refine ⟨p, rfl, sublist, fun k => (asked k).trans ?_⟩
    cases k <;> decide

end Policy

end Reader

end ImageAudit
