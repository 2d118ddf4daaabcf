import ImageAudit.Policy.Basic
import ImageAudit.Yaml.Node

/-!
# Policy documents

A policy document is a YAML mapping whose entry `policy` has one entry for each rule. Unknown
entries are passed over, known ones must not be given twice.

* `PolicyConfig.ofText` reads the text of a document. It knows the common forms of YAML; what is
  built on documents takes their reader as a parameter where any reader will do.
* `Policy.ofText` builds the rules a document enables, `Policy.ofTextWith` does so with any readers
  of documents and patterns.
-/

namespace ImageAudit

open Text Yaml

namespace PolicyDocument

/-! ## Values -/

/-- The words for nothing. -/
def isNull (t : Text) : Bool :=
  ["~".toList, "null".toList, "Null".toList, "NULL".toList].contains t

/-- Reads a truth value. -/
def bool? (t : Text) : Option Bool :=
  if ["true".toList, "True".toList, "TRUE".toList].contains t then some true
  else if ["false".toList, "False".toList, "FALSE".toList].contains t then some false
  else none

/-- The tag of a type of the core schema. -/
def coreTag (name : Text) : Text := "tag:yaml.org,2002:".toList ++ name

/-- Whether a scalar may be a truth value: it is plain, or a literal block that is tagged so. -/
def mayBeBool (s : Scalar) : Bool :=
  s.style == .plain || (s.style == .literal && s.tag == some (coreTag "bool".toList))

/-- Reads a switch. -/
def switch? (d : Document) (n : Node) : Option Bool :=
  match d.resolve? n with
  | some (.scalar s) => if mayBeBool s then bool? s.value else none
  | _ => none

/-- Whether nothing is written. -/
def isBlankScalar (s : Scalar) : Bool := s.style == .plain && s.value.isEmpty

/-- Reads a text; any scalar is one as written. -/
def text? (d : Document) (n : Node) : Option Text :=
  match d.resolve? n with
  | some (.scalar s) => some s.value
  | _ => none

/-- Reads a list of texts; where nothing is written it is empty. -/
def texts? (d : Document) (n : Node) : Option (List Text) :=
  match d.resolve? n with
  | some (.sequence items) => items.mapM (text? d)
  | some (.scalar s) => if isBlankScalar s then some [] else none
  | _ => none

/-- Whether a value that may be missing is there. A plain scalar says so if it is empty or a word
for nothing; with the tag for nothing it has to be such a word. -/
def isPresent? (d : Document) (n : Node) : Option Bool :=
  match d.resolve? n with
  | some (.scalar ⟨value, .plain, none⟩) => some (!value.isEmpty && !isNull value)
  | some (.scalar ⟨value, .plain, some tag⟩) =>
    if tag == coreTag "null".toList then (if isNull value then some false else none) else some true
  | some _ => some true
  | none => none

/-- Reads a value that may be missing. -/
def optional? {α : Type} (read : Node → Option α) (d : Document) (n : Node) :
    Option (Option α) := do
  if ← isPresent? d n then (read n).map some else some none

/-! ## Entries -/

/-- Reads the entries of a mapping; keys are texts, and where nothing is written there are no
entries. -/
def entries? (d : Document) (n : Node) : Option (List (Text × Node)) :=
  match d.resolve? n with
  | some (.mapping es) => es.mapM fun (k, v) => (text? d k).map fun k => (k, v)
  | some (.scalar s) => if isBlankScalar s then some [] else none
  | _ => none

/-- Reads the entry of a key with `read`; without an entry it is `missing`, with two none. -/
def entry? {α : Type} (missing : Option α) (read : Node → Option α) (key : Text)
    (es : List (Text × Node)) : Option α :=
  match es.filter fun e => e.1 == key with
  | [] => missing
  | [e] => read e.2
  | _ => none

/-- Reads the entry that enables a rule. -/
def enabled? (d : Document) (es : List (Text × Node)) : Option Bool :=
  entry? (some false) (switch? d) "enabled".toList es

/-- Reads the configuration of a rule without parameters. -/
def switchConfig? (d : Document) (n : Node) : Option SwitchConfig := do
  let es ← entries? d n
  let enabled ← enabled? d es
  some ⟨enabled⟩

/-- Reads the configuration of a rule whose list has this key. -/
def listConfig? (key : Text) (d : Document) (n : Node) : Option ListConfig := do
  let es ← entries? d n
  let enabled ← enabled? d es
  let items ← entry? (some none) (optional? (texts? d) d) key es
  some ⟨enabled, items⟩

/-- Reads the configuration of the rule on secrets; its allowed patterns must not be nothing. -/
def secretsConfig? (d : Document) (n : Node) : Option SecretsConfig := do
  let es ← entries? d n
  let enabled ← enabled? d es
  let secrets ← entry? (some none) (optional? (texts? d) d) "secrets_patterns".toList es
  let allowed ← entry? (some []) (texts? d) "allowed_patterns".toList es
  some ⟨enabled, secrets, allowed⟩

/-- Reads the entry of a rule, which may be missing. -/
def rule? {α : Type} (d : Document) (read : Document → Node → Option α) (key : Text)
    (es : List (Text × Node)) : Option (Option α) :=
  entry? (some none) (optional? (read d) d) key es

/-- Reads the configuration of all rules. -/
def config? (d : Document) (n : Node) : Option PolicyConfig := do
  let es ← entries? d n
  let registries ← rule? d (listConfig? "registries".toList)
    "enforce_authorized_registries".toList es
  let tags ← rule? d (listConfig? "forbidden_tags".toList) "forbid_floating_tags".toList es
  let insecureRegistries ← rule? d switchConfig? "forbid_insecure_registries".toList es
  let root ← rule? d switchConfig? "forbid_root".toList es
  let privilegedPorts ← rule? d switchConfig? "forbid_privileged_ports".toList es
  let packages ← rule? d (listConfig? "forbidden_packages".toList) "forbid_packages".toList es
  let secrets ← rule? d secretsConfig? "forbid_secrets".toList es
  some ⟨registries, tags, insecureRegistries, root, privilegedPorts, packages, secrets⟩

/-- Reads a document, which has to have a policy. -/
def ofDocument? (d : Document) : Option PolicyConfig := do
  let es ← entries? d d.root
  entry? none (config? d) "policy".toList es

end PolicyDocument

/-- Reads the text of a policy document. -/
def PolicyConfig.ofText (t : Text) : Except PolicyError PolicyConfig :=
  match (Document.ofText? t).bind PolicyDocument.ofDocument? with
  | some c => .ok c
  | none => .error .invalidConfig

/-- Builds the rules that a policy document enables, with readers of documents and of patterns. -/
def Policy.ofTextWith (readConfig : Text → Option PolicyConfig)
    (readPattern : Text → Option SourcePattern) (t : Text) : Except PolicyError Policy :=
  match readConfig t with
  | some c => Policy.ofConfigWith readPattern c
  | none => .error .invalidConfig

/-- Builds the rules that a policy document enables. -/
def Policy.ofText (t : Text) : Except PolicyError Policy :=
  (PolicyConfig.ofText t).bind Policy.ofConfig

end ImageAudit
