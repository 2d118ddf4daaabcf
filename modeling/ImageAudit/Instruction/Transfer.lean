import ImageAudit.Instruction.Arguments

/-!
# Transfers

ADD and COPY bring files into an image: flags in any order, then sources and a destination, either
as words or as an array.

* `escapedWords` splits a text at white space that does not follow a backslash.
* `Owner.read?` reads `user` or `user:group`.
* `Transfer.read?` reads flags and paths.
-/

namespace ImageAudit

open Text

/-! ## Escaped words -/

/-- The word in progress at the front of a text, and the words after it. A backslash keeps white
space in the word; before anything else it stands for itself. -/
def escapedWordsFrom : Text → Text × List Text
  | [] => ([], [])
  | ['\\'] => (['\\'], [])
  | '\\' :: c :: r =>
    let (w, ws) := escapedWordsFrom r
    (if isSpace c then c :: w else '\\' :: c :: w, ws)
  | c :: r =>
    let (w, ws) := escapedWordsFrom r
    if isSpace c then ([], if w.isEmpty then ws else w :: ws) else (c :: w, ws)

/-- The non-empty parts between white space that does not follow a backslash. -/
def escapedWords (t : Text) : List Text :=
  let (w, ws) := escapedWordsFrom t
  if w.isEmpty then ws else w :: ws

/-! ## Owners -/

/-- A user, with or without a group. -/
structure Owner where
  user : Text
  group : Option Text
  deriving DecidableEq

namespace Owner

/-- Whether the user is root, by name or by number. -/
def isRoot (o : Owner) : Bool := o.user == "root".toList || o.user == "0".toList

/-- Reads `user` or `user:group`; neither is empty, and there is at most one colon. -/
def read? (t : Text) : Option Owner :=
  match cut ':' t with
  | some (user, group) =>
    if user.isEmpty || group.isEmpty || group.contains ':' then none else some ⟨user, some group⟩
  | none => if t.isEmpty then none else some ⟨t, none⟩

end Owner

/-! ## Flags -/

/-- The flags of ADD and COPY together. -/
structure TransferFlags where
  chown : Option Owner
  chmod : Option Text
  source : Option Text
  checksum : Option Text
  link : Bool
  keepGitDir : Bool
  deriving DecidableEq

/-- No flag at all. -/
def TransferFlags.empty : TransferFlags := ⟨none, none, none, none, false, false⟩

/-- What ADD and COPY bring where. -/
structure Transfer where
  sources : List Text
  destination : Text
  flags : TransferFlags
  deriving DecidableEq

/-- One flag as written. -/
inductive TransferFlag where
  | chown (owner : Text)
  | chmod (mode : Text)
  | source (stage : Text)
  | checksum (value : Text)
  | link (on : Bool)
  | keepGitDir (on : Bool)
  deriving DecidableEq

/-- Reads `name=value`, where the value is a word. -/
def flagValue? (name t : Text) : Option (Text × Text) := do
  let r ← dropPrefix? (name ++ ['=']) t
  word? r

/-- Whether a flag may end before `t`: at a blank or at the end of the text. -/
def atFlagEnd (t : Text) : Bool := t.isEmpty || (blanks? t).isSome

/-- Reads `=true` or `=false`; the case of the letters does not matter. -/
def switchValue? : Text → Option (Bool × Text)
  | '=' :: v =>
    ((dropWord? "true".toList v).map fun r => (true, r)).or
      ((dropWord? "false".toList v).map fun r => (false, r))
  | _ => none

/-- The setting of a switch that was named before `t`: on, unless a value says otherwise. -/
def switchSetting (t : Text) : Bool × Text := (switchValue? t).getD (true, t)

/-- Reads `name`, `name=true` or `name=false`. -/
def flagSwitch? (name t : Text) : Option (Bool × Text) := do
  let r ← dropPrefix? name t
  if atFlagEnd (switchSetting r).2 then some (switchSetting r) else none

namespace TransferFlag

/-- Reads a flag. -/
def read? (t : Text) : Option (TransferFlag × Text) :=
  ((flagValue? "--chown".toList t).map fun (v, r) => (chown v, r)).or <|
  ((flagValue? "--chmod".toList t).map fun (v, r) => (chmod v, r)).or <|
  ((flagValue? "--from".toList t).map fun (v, r) => (source v, r)).or <|
  ((flagValue? "--checksum".toList t).map fun (v, r) => (checksum v, r)).or <|
  ((flagSwitch? "--link".toList t).map fun (b, r) => (link b, r)).or <|
  (flagSwitch? "--keep-git-dir".toList t).map fun (b, r) => (keepGitDir b, r)

/-- Sets a flag; refuses an owner that is none. -/
def set? (flags : TransferFlags) : TransferFlag → Option TransferFlags
  | chown t => (Owner.read? t).map fun o => { flags with chown := some o }
  | chmod m => some { flags with chmod := some m }
  | source s => some { flags with source := some s }
  | checksum c => some { flags with checksum := some c }
  | link b => some { flags with link := b }
  | keepGitDir b => some { flags with keepGitDir := b }

theorem length_of_dropPrefix? {p t r : Text} (h : dropPrefix? p t = some r) :
    t.length = p.length + r.length := by
  rw [dropPrefix?_eq_some_iff] at h
  simp [h]

theorem length_lt_of_flagValue? {name t v r : Text} (h : flagValue? name t = some (v, r)) :
    r.length < t.length := by
  obtain ⟨s, h₁, h₂⟩ := Option.bind_eq_some_iff.1 h
  have := length_of_dropPrefix? h₁
  have := length_lt_of_word? h₂
  omega

theorem length_le_of_switchSetting (t : Text) : (switchSetting t).2.length ≤ t.length := by
  cases h : switchValue? t with
  | none => simp [switchSetting, h]
  | some p =>
    simp only [switchSetting, h, Option.getD_some]
    simp only [switchValue?] at h
    split at h
    · rw [Option.or_eq_some_iff] at h
      rcases h with h | ⟨-, h⟩ <;>
        · obtain ⟨r, hr, rfl⟩ := Option.map_eq_some_iff.1 h
          have := length_of_dropWord? hr
          simp
          omega
    · cases h

theorem length_lt_of_flagSwitch? {name t r : Text} {on : Bool} (hn : name ≠ [])
    (h : flagSwitch? name t = some (on, r)) : r.length < t.length := by
  obtain ⟨s, h₁, h₂⟩ := Option.bind_eq_some_iff.1 h
  have h₃ := length_of_dropPrefix? h₁
  have h₄ : 0 < name.length := List.length_pos_iff.2 hn
  have h₅ := length_le_of_switchSetting s
  split at h₂
  · simp only [Option.some.injEq] at h₂
    rw [h₂] at h₅
    simp at h₅
    omega
  · cases h₂

theorem length_lt_of_read? {t r : Text} {f : TransferFlag} (h : read? t = some (f, r)) :
    r.length < t.length := by
  simp only [read?, Option.or_eq_some_iff, Option.map_eq_some_iff, Prod.mk.injEq] at h
  rcases h with ⟨⟨v, s⟩, h, -, rfl⟩ | ⟨-, ⟨⟨v, s⟩, h, -, rfl⟩ | ⟨-, ⟨⟨v, s⟩, h, -, rfl⟩ |
    ⟨-, ⟨⟨v, s⟩, h, -, rfl⟩ | ⟨-, ⟨⟨v, s⟩, h, -, rfl⟩ | ⟨-, ⟨v, s⟩, h, -, rfl⟩⟩⟩⟩⟩
  · exact length_lt_of_flagValue? h
  · exact length_lt_of_flagValue? h
  · exact length_lt_of_flagValue? h
  · exact length_lt_of_flagValue? h
  · exact length_lt_of_flagSwitch? (by decide) h
  · exact length_lt_of_flagSwitch? (by decide) h

/-- Reads flags as long as there are any. -/
def readAll (t : Text) : List TransferFlag × Text :=
  match _h : read? (skipBlanks t) with
  | none => ([], t)
  | some (f, r) =>
    let (fs, rest) := readAll r
    (f :: fs, rest)
termination_by t.length
decreasing_by
  exact Nat.lt_of_lt_of_le (length_lt_of_read? _h) (length_dropWhile_le _ _)

end TransferFlag

namespace Transfer

/-- Sources and destination: the last of at least two paths is the destination. -/
def ofPaths? (paths : List Text) (flags : TransferFlags) : Option Transfer :=
  if 2 ≤ paths.length then paths.getLast?.map fun d => ⟨paths.dropLast, d, flags⟩ else none

/-- Reads the flags and the paths of ADD or COPY. -/
def read? (t : Text) : Option Transfer := do
  let (flags, r) := TransferFlag.readAll t
  let flags ← flags.foldlM TransferFlag.set? TransferFlags.empty
  let paths := skipBlanks r
  match Arguments.wholeArray? paths with
  | some items => ofPaths? items flags
  | none => ofPaths? (escapedWords paths) flags

end Transfer

end ImageAudit
