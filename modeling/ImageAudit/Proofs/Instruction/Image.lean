import ImageAudit.Instruction.Image
import ImageAudit.Proofs.Text.Lines

/-!
# Splitting image references

Reading an image reference cuts it at its separators; nothing is lost, and the cuts fall where
writing put the separators.

* `ImageReference.read?_eq_some_iff`: the texts that are read are those that well formed references
  are written as.
* `ImageReference.render_read_inverse`: what is read is written as the text it was read from, and a
  reference without braces in its name is read again from what it is written as.
-/

namespace ImageAudit

open Text

/-- Whether a digest has an algorithm and a hash of at least 32 digits. -/
def Digest.isValid (d : Digest) : Bool :=
  !d.algorithm.isEmpty && d.algorithm.all ImageReference.isAlgorithmChar && 32 ≤ d.hash.length &&
    d.hash.all ImageReference.isHexDigit

namespace ImageReference

variable {t path first rest : Text} {registry tag : Option Text} {digest : Option Digest}

/-! ## Written parts -/

/-- A registry as it is written before a name. -/
def registryText : Option Text → Text
  | some registry => registry ++ ['/']
  | none => []

/-- A tag as it is written after a name. -/
def tagText : Option Text → Text
  | some tag => ':' :: tag
  | none => []

/-- A digest as it is written at the end. -/
def digestText : Option Digest → Text
  | some d => '@' :: d.algorithm ++ ':' :: d.hash
  | none => []

theorem render_eq (r : ImageReference) :
    render r = registryText r.registry ++ r.name ++ tagText r.tag ++ digestText r.digest := rfl

/-! ## Characters -/

theorem isReferenceChar_or_of_mem_name {name : Text} {c : Char} (h : isName name = true)
    (inside : c ∈ name) : isReferenceChar c = true ∨ c = '/' ∨ c = ':' := by
  simp only [isName, Bool.and_eq_true, List.all_eq_true, Bool.or_eq_true, beq_iff_eq] at h
  exact or_assoc.1 (h.1.2 c inside)

theorem isReferenceChar_or_of_mem_tag {tag : Text} {c : Char} (h : isTag tag = true)
    (inside : c ∈ tag) : isReferenceChar c = true ∨ c = ':' := by
  simp only [isTag, Bool.and_eq_true, List.all_eq_true, Bool.or_eq_true, beq_iff_eq] at h
  exact h.2 c inside

theorem isHostChar_or_of_mem_host {host : Text} {c : Char} (h : isHost host = true)
    (inside : c ∈ host) : isHostChar c = true ∨ c = ':' := by
  rw [isHost] at h
  split at h
  · next name port found =>
    obtain ⟨rfl, -⟩ := cut_eq_some_iff.1 found
    simp only [isHostName, isHostPort, Bool.and_eq_true, List.all_eq_true] at h
    rcases List.mem_append.1 inside with inside | inside
    · exact .inl (h.1.2 c inside)
    · rcases List.mem_cons.1 inside with same | inside
      · exact .inr same
      · exact .inl (by simp [isHostChar, Char.isAlphanum, h.2.2 c inside])
  · simp only [isHostName, Bool.and_eq_true, List.all_eq_true] at h
    exact .inl (h.2 c inside)

theorem notMem_tagText {c : Char} (h : ∀ x ∈ tag, isTag x = true)
    (other : isReferenceChar c = false ∧ c ≠ ':') : c ∉ tagText tag := by
  cases tag with
  | none => exact List.not_mem_nil
  | some x =>
    intro inside
    rcases List.mem_cons.1 inside with same | inside
    · exact other.2 same
    · rcases isReferenceChar_or_of_mem_tag (h x rfl) inside with char | same
      · rw [other.1] at char
        cases char
      · exact other.2 same

/-! ## The digest -/

theorem digest?_eq_some_iff {d : Digest} :
    digest? t = some d ↔ t = d.algorithm ++ ':' :: d.hash ∧ d.isValid = true := by
  constructor
  · intro h
    obtain ⟨⟨algorithm, hash⟩, found, checked⟩ := Option.bind_eq_some_iff.1 h
    simp only at checked
    split at checked
    · next valid =>
      cases checked
      exact ⟨(cut_eq_some_iff.1 found).1, valid⟩
    · cases checked
  · rintro ⟨rfl, valid⟩
    have algorithm : ':' ∉ d.algorithm := by
      intro inside
      simp only [Digest.isValid, Bool.and_eq_true, List.all_eq_true] at valid
      exact absurd (valid.1.1.2 ':' inside) (by decide)
    rw [digest?, cut_eq_some_iff.2 ⟨rfl, algorithm⟩]
    exact if_pos valid

theorem splitDigest_eq_some_iff {named : Text} :
    splitDigest t = some (named, digest) ↔
      t = named ++ digestText digest ∧ '@' ∉ named ∧ ∀ d ∈ digest, d.isValid = true := by
  rw [splitDigest]
  constructor
  · intro h
    split at h
    · next found =>
      obtain ⟨rfl, absent⟩ := cut_eq_some_iff.1 found
      obtain ⟨d, read, same⟩ := Option.map_eq_some_iff.1 h
      cases same
      obtain ⟨rfl, valid⟩ := digest?_eq_some_iff.1 read
      refine ⟨rfl, absent, ?_⟩
      rintro d ⟨⟩
      exact valid
    · next found =>
      cases h
      exact ⟨(List.append_nil t).symm, cut_eq_none_iff.1 found, nofun⟩
  · rintro ⟨rfl, absent, valid⟩
    cases digest with
    | none => simp only [digestText, List.append_nil, cut_eq_none_iff.2 absent]
    | some d =>
      have found : cut '@' (named ++ digestText (some d)) =
          some (named, d.algorithm ++ ':' :: d.hash) := cut_eq_some_iff.2 ⟨rfl, absent⟩
      simp only [found, digest?_eq_some_iff.2 ⟨rfl, valid d rfl⟩, Option.map_some]

/-! ## The registry -/

/-- A registry: a host after a scheme, or a host that cannot be taken for a part of a name. -/
def IsRegistry (t : Text) : Prop :=
  ∃ scheme host, t = scheme ++ host ∧ isHost host = true ∧
    (scheme ∈ schemes ∨ scheme = [] ∧ ('.' ∈ host ∨ ':' ∈ host ∨ host = "localhost".toList))

/-- Whether what stands before a path is a registry; without one, the path does not begin with what
is meant as one. -/
def RegistryStands : Option Text → (path : Text) → Prop
  | some registry, _ => IsRegistry registry
  | none, path => ∀ first rest, cut '/' path = some (first, rest) → namesHost first = false

theorem slash_notMem_of_isHost {host : Text} (h : isHost host = true) : '/' ∉ host := by
  intro inside
  rcases isHostChar_or_of_mem_host h inside with char | same
  · exact absurd char (by decide)
  · exact absurd same (by decide)

theorem namesHost_iff_of_isHost {host : Text} (h : isHost host = true) :
    namesHost host = true ↔ '.' ∈ host ∨ ':' ∈ host ∨ host = "localhost".toList := by
  have first : host.head? ≠ some '$' := by
    intro first
    rcases isHostChar_or_of_mem_host h (List.mem_of_mem_head? first) with char | same
    · exact absurd char (by decide)
    · exact absurd same (by decide)
  simp [namesHost, first, or_assoc]

/-- What stands before the first slash of a scheme would be meant as a registry, but is no host. -/
theorem exists_cut_of_mem_schemes {scheme : Text} (h : scheme ∈ schemes) (r : Text) :
    ∃ word, cut '/' (scheme ++ r) = some (word, '/' :: r) ∧ namesHost word = true ∧
      isHost word = false := by
  simp only [schemes, List.mem_cons, List.not_mem_nil, or_false] at h
  rcases h with rfl | rfl
  · exact ⟨"http:".toList, rfl, by decide, by decide⟩
  · exact ⟨"https:".toList, rfl, by decide, by decide⟩

theorem scheme?_eq_some_iff {scheme r : Text} :
    scheme? t = some (scheme, r) ↔ scheme ∈ schemes ∧ t = scheme ++ r := by
  constructor
  · intro h
    obtain ⟨s, member, found⟩ := List.exists_of_findSome?_eq_some h
    obtain ⟨r', read, same⟩ := Option.map_eq_some_iff.1 found
    cases same
    exact ⟨member, dropPrefix?_eq_some_iff.1 read⟩
  · rintro ⟨member, rfl⟩
    simp only [schemes, List.mem_cons, List.not_mem_nil, or_false] at member
    rcases member with rfl | rfl <;> simp [scheme?, schemes, dropPrefix?]

theorem scheme?_eq_none (h : ∀ word rest, cut '/' t = some (word, rest) →
    isHost word = true ∨ namesHost word = false) : scheme? t = none := by
  cases found : scheme? t with
  | none => rfl
  | some p =>
    obtain ⟨member, rfl⟩ := scheme?_eq_some_iff.1 found
    obtain ⟨word, before, host, other⟩ := exists_cut_of_mem_schemes member p.2
    rcases h word _ before with is_host | no_host
    · rw [other] at is_host
      cases is_host
    · rw [host] at no_host
      cases no_host

theorem of_splitRegistry (h : splitRegistry t = some (registry, path)) :
    t = registryText registry ++ path ∧ RegistryStands registry path := by
  rw [splitRegistry] at h
  split at h
  · -- Behind a scheme there is a host, or nothing is read.
    next scheme r found =>
    obtain ⟨member, rfl⟩ := scheme?_eq_some_iff.1 found
    obtain ⟨⟨host, path'⟩, before, checked⟩ := Option.bind_eq_some_iff.1 h
    obtain ⟨rfl, -⟩ := cut_eq_some_iff.1 before
    simp only at checked
    split at checked
    · next valid =>
      cases checked
      exact ⟨by simp [registryText], scheme, host, rfl, valid, .inl member⟩
    · cases checked
  · split at h
    · next first path' before =>
      split at h
      · next meant =>
        split at h
        · next valid =>
          cases h
          obtain ⟨rfl, -⟩ := cut_eq_some_iff.1 before
          exact ⟨by simp [registryText], [], first, rfl, valid,
            .inr ⟨rfl, (namesHost_iff_of_isHost valid).1 meant⟩⟩
        · cases h
      · next name =>
        cases h
        refine ⟨rfl, fun first' rest' before' => ?_⟩
        rw [before] at before'
        cases before'
        simpa using name
    · next uncut =>
      cases h
      refine ⟨rfl, fun first' rest' before' => ?_⟩
      rw [uncut] at before'
      cases before'

theorem splitRegistry_append (stands : RegistryStands registry path) :
    splitRegistry (registryText registry ++ path) = some (registry, path) := by
  cases registry with
  | none =>
    rw [registryText, List.nil_append, splitRegistry,
      scheme?_eq_none fun word rest before => .inr (stands word rest before)]
    cases before : cut '/' path with
    | none => rfl
    | some p => simp [stands p.1 p.2 before]
  | some registry =>
    obtain ⟨scheme, host, rfl, valid, cases⟩ := stands
    have before : cut '/' (host ++ '/' :: path) = some (host, path) :=
      cut_eq_some_iff.2 ⟨rfl, slash_notMem_of_isHost valid⟩
    have whole : registryText (some (scheme ++ host)) ++ path =
        scheme ++ (host ++ '/' :: path) := by simp [registryText]
    rw [whole, splitRegistry]
    rcases cases with member | ⟨rfl, meant⟩
    · rw [scheme?_eq_some_iff.2 ⟨member, rfl⟩]
      simp [before, valid]
    · -- A host is not the beginning of a scheme, whose colon has no port behind it.
      have plain : scheme? (host ++ '/' :: path) = none := by
        refine scheme?_eq_none fun word rest before' => .inl ?_
        rw [before] at before'
        cases before'
        exact valid
      rw [List.nil_append, plain]
      simp [before, valid, (namesHost_iff_of_isHost valid).2 meant]

theorem splitRegistry_eq_some_iff :
    splitRegistry t = some (registry, path) ↔
      t = registryText registry ++ path ∧ RegistryStands registry path := by
  refine ⟨of_splitRegistry, ?_⟩
  rintro ⟨rfl, stands⟩
  exact splitRegistry_append stands

/-! ## The tag -/

/-- How deep in braces a place is after a text. -/
def depthAfter (depth : Nat) (t : Text) : Nat := t.foldl braceDepth depth

/-- What stands after the last slash of a path. -/
def lastPart (path : Text) : Text := ((cutLast '/' path).map (·.2)).getD path

/-- Whether a tag begins at the last colon that is not between braces: all braces of the last part
of the name are closed, and each colon of the tag is between braces. -/
def TagStands (name : Text) : Option Text → Prop
  | some tag => depthAfter 0 (lastPart name) = 0 ∧ cutLastOutside ':' 0 tag = none
  | none => cutLastOutside ':' 0 (lastPart name) = none

theorem depthAfter_cons (depth : Nat) (c : Char) (r : Text) :
    depthAfter depth (c :: r) = depthAfter (braceDepth depth c) r := rfl

theorem cutLastOutside_append (sep : Char) (depth : Nat) (a b : Text) :
    cutLastOutside sep depth (a ++ b) =
      match cutLastOutside sep (depthAfter depth a) b with
      | some (x, y) => some (a ++ x, y)
      | none => (cutLastOutside sep depth a).map fun p => (p.1, p.2 ++ b) := by
  induction a generalizing depth with
  | nil =>
    rw [List.nil_append, depthAfter, List.foldl_nil]
    cases cutLastOutside sep depth b <;> rfl
  | cons c a ih =>
    rw [List.cons_append, cutLastOutside, ih, cutLastOutside, depthAfter_cons]
    cases cutLastOutside sep (depthAfter (braceDepth depth c) a) b with
    | some p => rfl
    | none =>
      cases cutLastOutside sep (braceDepth depth c) a with
      | some p => rfl
      | none =>
        simp only [Option.map_none]
        split <;> rfl

theorem eq_of_cutLastOutside {sep : Char} {depth : Nat} {a b : Text}
    (h : cutLastOutside sep depth t = some (a, b)) : t = a ++ sep :: b := by
  induction t generalizing depth a with
  | nil => cases h
  | cons c r ih =>
    rw [cutLastOutside] at h
    split at h
    · next found =>
      cases h
      rw [ih found, List.cons_append]
    · split at h
      · next here =>
        cases h
        simp only [Bool.and_eq_true, beq_iff_eq] at here
        rw [here.1, List.nil_append]
      · cases h

/-- Without braces all separators count. -/
theorem cutLastOutside_eq_cutLast (sep : Char) (h : '{' ∉ t) :
    cutLastOutside sep 0 t = cutLast sep t := by
  induction t with
  | nil => rfl
  | cons c r ih =>
    rw [List.mem_cons, not_or] at h
    have depth : braceDepth 0 c = 0 := by simp [braceDepth, Ne.symm h.1]
    rw [cutLastOutside, depth, ih h.2, cutLast]
    cases cutLast sep r <;> simp

theorem depthAfter_eq_zero (h : '{' ∉ t) : depthAfter 0 t = 0 := by
  induction t with
  | nil => rfl
  | cons c r ih =>
    rw [List.mem_cons, not_or] at h
    have depth : braceDepth 0 c = 0 := by simp [braceDepth, Ne.symm h.1]
    rw [depthAfter_cons, depth, ih h.2]

/-- The tag begins at the colon before it exactly if the braces before it are closed and no colon
in it is outside of braces. -/
theorem cutLastOutside_eq_some_iff {part tag : Text} :
    cutLastOutside ':' 0 (part ++ ':' :: tag) = some (part, tag) ↔
      depthAfter 0 part = 0 ∧ cutLastOutside ':' 0 tag = none := by
  have colon : braceDepth (depthAfter 0 part) ':' = depthAfter 0 part := rfl
  rw [cutLastOutside_append, cutLastOutside, colon]
  -- Another place to cut at would leave parts of another length.
  cases inTag : cutLastOutside ':' (depthAfter 0 part) tag with
  | some p =>
    refine iff_of_false (fun h => ?_) fun ⟨closed, h⟩ => ?_
    · have same := congrArg List.length (Prod.ext_iff.1 (Option.some.inj h)).1
      simp at same
    · rw [closed, h] at inTag
      cases inTag
  | none =>
    by_cases closed : depthAfter 0 part = 0
    · rw [closed] at inTag
      simp [closed, inTag]
    · refine iff_of_false (fun h => ?_) fun h => closed h.1
      simp only [beq_self_eq_true, Bool.true_and, beq_iff_eq, closed, if_false] at h
      obtain ⟨p, -, same⟩ := Option.map_eq_some_iff.1 h
      have same := congrArg List.length (Prod.ext_iff.1 same).2
      simp at same
      omega

theorem lastPart_of_cutLast {directory last : Text}
    (h : cutLast '/' path = some (directory, last)) : lastPart path = last := by
  rw [lastPart, h]
  rfl

theorem lastPart_of_notMem (h : '/' ∉ path) : lastPart path = path := by
  rw [lastPart, cutLast_eq_none_iff.2 h]
  rfl

theorem exists_directory (path : Text) :
    ∃ directory, path = directory ++ lastPart path ∧ '/' ∉ lastPart path ∧
      splitTag path = match cutLastOutside ':' 0 (lastPart path) with
        | some (a, tag) => (directory ++ a, some tag)
        | none => (path, none) := by
  cases found : cutLast '/' path with
  | none =>
    have absent := cutLast_eq_none_iff.1 found
    rw [lastPart_of_notMem absent]
    refine ⟨[], rfl, absent, ?_⟩
    cases cutting : cutLastOutside ':' 0 path <;>
      simp only [splitTag, found, cutting, List.nil_append]
  | some p =>
    obtain ⟨whole, absent⟩ := cutLast_eq_some_iff.1 found
    rw [lastPart_of_cutLast found]
    refine ⟨p.1 ++ ['/'], ?_, absent, ?_⟩
    · rw [List.append_assoc]
      exact whole
    · cases cutting : cutLastOutside ':' 0 p.2 <;> simp only [splitTag, found, cutting]

theorem lastPart_append (path : Text) {t : Text} (h : '/' ∉ t) :
    lastPart (path ++ t) = lastPart path ++ t := by
  cases found : cutLast '/' path with
  | none =>
    have absent := cutLast_eq_none_iff.1 found
    rw [lastPart_of_notMem absent, lastPart_of_notMem]
    exact fun inside => (List.mem_append.1 inside).elim absent h
  | some p =>
    obtain ⟨rfl, absent⟩ := cutLast_eq_some_iff.1 found
    have longer : cutLast '/' (p.1 ++ '/' :: p.2 ++ t) = some (p.1, p.2 ++ t) :=
      cutLast_eq_some_iff.2 ⟨by simp, fun inside => (List.mem_append.1 inside).elim absent h⟩
    rw [lastPart_of_cutLast found, lastPart_of_cutLast longer]

theorem append_tagText_splitTag (path : Text) :
    (splitTag path).1 ++ tagText (splitTag path).2 = path := by
  obtain ⟨directory, whole, -, split⟩ := exists_directory path
  rw [split]
  cases cutting : cutLastOutside ':' 0 (lastPart path) with
  | none => exact List.append_nil path
  | some p =>
    rw [eq_of_cutLastOutside cutting] at whole
    simpa [tagText] using whole.symm

theorem splitTag_eq_iff {name : Text} (h : '/' ∉ tagText tag) :
    splitTag (name ++ tagText tag) = (name, tag) ↔ TagStands name tag := by
  obtain ⟨directory, whole, -, split⟩ := exists_directory (name ++ tagText tag)
  rw [lastPart_append name h] at whole split
  rw [split]
  cases tag with
  | none =>
    simp only [tagText, List.append_nil, TagStands]
    cases cutLastOutside ':' 0 (lastPart name) <;> simp
  | some tag =>
    have front : name = directory ++ lastPart name :=
      List.append_cancel_right (by simpa using whole)
    rw [TagStands, ← cutLastOutside_eq_some_iff, tagText]
    cases cutLastOutside ':' 0 (lastPart name ++ ':' :: tag) with
    | none => simp
    | some p =>
      simp only [Option.some.injEq, Prod.ext_iff]
      refine and_congr_left fun _ => ⟨fun same => ?_, fun same => ?_⟩
      · exact List.append_cancel_left (same.trans front)
      · rw [same]
        exact front.symm

/-! ## References -/

/-- Whether all parts of a reference have their form, and reading finds them where they are. -/
structure IsWellFormed (r : ImageReference) : Prop where
  registry : RegistryStands r.registry r.name
  name : isName r.name = true
  tag : ∀ tag ∈ r.tag, isTag tag = true
  place : TagStands r.name r.tag
  digest : ∀ d ∈ r.digest, d.isValid = true

theorem read?_eq_some_iff_split {r : ImageReference} :
    read? t = some r ↔ ∃ named path, splitDigest t = some (named, r.digest) ∧
      splitRegistry named = some (r.registry, path) ∧ splitTag path = (r.name, r.tag) ∧
      isName r.name = true ∧ ∀ tag ∈ r.tag, isTag tag = true := by
  have tags (tag : Option Text) : tag.all isTag = true ↔ ∀ x ∈ tag, isTag x = true := by
    cases tag <;> simp
  constructor
  · intro h
    obtain ⟨⟨named, digest⟩, digestFound, h⟩ := Option.bind_eq_some_iff.1 h
    obtain ⟨⟨registry, path⟩, registryFound, checked⟩ := Option.bind_eq_some_iff.1 h
    simp only at checked
    split at checked
    · next valid =>
      cases checked
      rw [Bool.and_eq_true, tags] at valid
      exact ⟨named, path, digestFound, registryFound, rfl, valid⟩
    · cases checked
  · rintro ⟨named, path, digestFound, registryFound, split, valid⟩
    rw [← tags, ← Bool.and_eq_true] at valid
    simpa [read?, digestFound, registryFound, split] using valid

theorem slash_notMem_tagText (h : ∀ x ∈ tag, isTag x = true) : '/' ∉ tagText tag :=
  notMem_tagText h ⟨by decide, by decide⟩

theorem registryStands_append {name : Text} (h : '/' ∉ t) :
    RegistryStands registry (name ++ t) ↔ RegistryStands registry name := by
  cases registry with
  | some registry => rfl
  | none =>
    simp only [RegistryStands]
    cases found : cut '/' name with
    | none =>
      have absent : '/' ∉ name ++ t := fun inside =>
        (List.mem_append.1 inside).elim (cut_eq_none_iff.1 found) h
      simp [cut_eq_none_iff.2 absent]
    | some p =>
      obtain ⟨first, rest⟩ := p
      obtain ⟨whole, absent⟩ := cut_eq_some_iff.1 found
      have longer : cut '/' (name ++ t) = some (first, rest ++ t) :=
        cut_eq_some_iff.2 ⟨by simp [whole], absent⟩
      simp [longer]

theorem at_notMem_registryText (h : RegistryStands registry path) :
    '@' ∉ registryText registry := by
  cases registry with
  | none => exact List.not_mem_nil
  | some registry =>
    obtain ⟨scheme, host, rfl, valid, place⟩ := h
    have schemePlain : '@' ∉ scheme := by
      rcases place with member | ⟨rfl, -⟩
      · revert scheme
        decide
      · exact List.not_mem_nil
    have hostPlain : '@' ∉ host := fun inside =>
      (isHostChar_or_of_mem_host valid inside).elim (by decide) (by decide)
    simp [registryText, schemePlain, hostPlain]

theorem at_notMem_name {name : Text} (h : isName name = true) : '@' ∉ name := by
  intro inside
  rcases isReferenceChar_or_of_mem_name h inside with char | same | same
  · exact absurd char (by decide)
  · exact absurd same (by decide)
  · exact absurd same (by decide)

/-- Reading accepts exactly what well formed references are written as. -/
theorem read?_eq_some_iff {r : ImageReference} :
    read? t = some r ↔ render r = t ∧ r.IsWellFormed := by
  rw [read?_eq_some_iff_split, render_eq]
  constructor
  · rintro ⟨named, path, digestFound, registryFound, split, name, tags⟩
    obtain ⟨rfl, -, digest⟩ := splitDigest_eq_some_iff.1 digestFound
    obtain ⟨rfl, registry⟩ := splitRegistry_eq_some_iff.1 registryFound
    -- A tag has no slash, so that the first slash is found with or without it.
    have noSlash := slash_notMem_tagText tags
    have whole : r.name ++ tagText r.tag = path := by
      rw [← append_tagText_splitTag path, split]
    subst whole
    refine ⟨by simp, (registryStands_append noSlash).1 registry, name, tags, ?_, digest⟩
    exact (splitTag_eq_iff noSlash).1 split
  · rintro ⟨rfl, registry, name, tags, place, digest⟩
    have noSlash := slash_notMem_tagText tags
    have noAt : '@' ∉ registryText r.registry ++ (r.name ++ tagText r.tag) := by
      simp only [List.mem_append, not_or]
      exact ⟨at_notMem_registryText registry, at_notMem_name name,
        notMem_tagText tags ⟨by decide, by decide⟩⟩
    refine ⟨registryText r.registry ++ (r.name ++ tagText r.tag), r.name ++ tagText r.tag,
      splitDigest_eq_some_iff.2 ⟨by simp, noAt, digest⟩, splitRegistry_eq_some_iff.2 ⟨rfl, ?_⟩,
      (splitTag_eq_iff noSlash).2 place, name, tags⟩
    exact (registryStands_append noSlash).2 registry

/-- A reference that needs no reading to see where its parts are: no brace in its name and no colon
in its tag, and without a registry a name that does not begin like one. -/
structure IsPlain (r : ImageReference) : Prop where
  name : isName r.name = true
  brace : '{' ∉ r.name
  tag : ∀ tag ∈ r.tag, isTag tag = true ∧ ':' ∉ tag
  digest : ∀ d ∈ r.digest, d.isValid = true
  registry : ∀ registry ∈ r.registry, IsRegistry registry
  first : r.registry = none → ∀ first rest, cut '/' r.name = some (first, rest) →
    first.head? = some '$' ∨ '.' ∉ first ∧ first ≠ "localhost".toList

theorem colon_notMem_name {name : Text} (h : isName name = true) (brace : '{' ∉ name) :
    ':' ∉ name := by
  simp only [isName, Bool.and_eq_true, Option.isNone_iff_eq_none] at h
  rw [cutLastOutside_eq_cutLast ':' brace] at h
  exact cutLast_eq_none_iff.1 h.2

theorem mem_of_mem_lastPart {c : Char} (h : c ∈ lastPart path) : c ∈ path := by
  obtain ⟨directory, whole, -, -⟩ := exists_directory path
  rw [whole]
  exact List.mem_append_right directory h

theorem IsPlain.isWellFormed {r : ImageReference} (h : r.IsPlain) : r.IsWellFormed where
  name := h.name
  tag tag member := (h.tag tag member).1
  digest := h.digest
  registry := by
    cases written : r.registry with
    | some registry => exact h.registry registry written
    | none =>
      intro first rest found
      obtain ⟨whole, -⟩ := cut_eq_some_iff.1 found
      have colon : ':' ∉ first := fun inside =>
        colon_notMem_name h.name h.brace (whole ▸ List.mem_append_left _ inside)
      rcases h.first written first rest found with dollar | ⟨dot, word⟩
      · simp [namesHost, dollar]
      · rw [namesHost, beq_false_of_ne word]
        simp [colon, dot]
  place := by
    have brace : '{' ∉ lastPart r.name := fun inside => h.brace (mem_of_mem_lastPart inside)
    cases written : r.tag with
    | none =>
      rw [TagStands, cutLastOutside_eq_cutLast ':' brace, cutLast_eq_none_iff]
      exact fun inside => colon_notMem_name h.name h.brace (mem_of_mem_lastPart inside)
    | some tag =>
      refine ⟨depthAfter_eq_zero brace, ?_⟩
      cases found : cutLastOutside ':' 0 tag with
      | none => rfl
      | some p =>
        refine absurd ?_ (h.tag tag written).2
        rw [eq_of_cutLastOutside found]
        simp

/-- What is read is written as the text it was read from, with a name and a tag of their form and
a host for a registry; and a plain reference is read from what it is written as. -/
theorem render_read_inverse :
    (∀ t r, read? t = some r → render r = t ∧ isName r.name = true ∧
      (∀ tag ∈ r.tag, isTag tag = true) ∧ (∀ registry ∈ r.registry, IsRegistry registry) ∧
      ∀ d ∈ r.digest, d.isValid = true) ∧
    ∀ r : ImageReference, r.IsPlain → read? (render r) = some r := by
  constructor
  · intro t r found
    obtain ⟨same, formed⟩ := read?_eq_some_iff.1 found
    refine ⟨same, formed.name, formed.tag, fun registry written => ?_, formed.digest⟩
    have stands := formed.registry
    rwa [Option.mem_def.1 written] at stands
  · intro r plain
    exact read?_eq_some_iff.2 ⟨rfl, plain.isWellFormed⟩

theorem render_read_inverse_default_tag :
    (∃ r,
      read? "https://gcr.io:80/a/b:$\x7bT:-x\x7d@sha256:0123456789abcdef0123456789abcdef".toList =
        some r ∧ r.registry = some "https://gcr.io:80".toList ∧
      render r =
        "https://gcr.io:80/a/b:$\x7bT:-x\x7d@sha256:0123456789abcdef0123456789abcdef".toList) ∧
    ∃ r, r.IsPlain ∧ r.name = "$HUB.io/app".toList ∧ read? (render r) = some r := by
  constructor
  · have found : read?
        "https://gcr.io:80/a/b:$\x7bT:-x\x7d@sha256:0123456789abcdef0123456789abcdef".toList =
          some ⟨some "https://gcr.io:80".toList, "a/b".toList, some "$\x7bT:-x\x7d".toList,
            some ⟨"sha256".toList, "0123456789abcdef0123456789abcdef".toList⟩⟩ := by decide
    exact ⟨_, found, rfl, (render_read_inverse.1 _ _ found).1⟩
  · have plain : IsPlain ⟨none, "$HUB.io/app".toList, some "1.0".toList, none⟩ := by
      refine ⟨by decide, by decide, ?_, nofun, nofun, ?_⟩
      · rintro tag ⟨⟩
        decide
      · rintro - first rest ⟨⟩
        exact .inl rfl
    exact ⟨_, plain, rfl, render_read_inverse.2 _ plain⟩

end ImageReference

end ImageAudit
