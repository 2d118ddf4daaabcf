import ImageAudit.Policy.Basic
import Mathlib.Data.List.Forall2

/-!
# Stricter policies

A policy gets stricter by more rules, and by rules that allow less or forbid more. It may then say
something else of a statement, as findings name what is allowed and the pattern that is met first;
but it objects to every statement again that it objected to before.

* `Rule.findings_tightened` compares the findings of two rules.
* `Policy.evaluate_tightened` compares two audits.
-/

namespace ImageAudit

/-! ## Findings that are kept -/

/-- Whether two findings object to the same statement for rules of one kind. -/
def Finding.SameSubject (f g : Finding) : Prop := f.kind = g.kind ∧ f.statement = g.statement

instance : Std.Refl Finding.SameSubject := ⟨fun _ => ⟨rfl, rfl⟩⟩

section

variable {α β γ δ : Type} {R : α → β → Prop} {S : γ → δ → Prop}

theorem sublistForall₂_eq (as : List α) : List.SublistForall₂ Eq as as :=
  (List.Sublist.refl as).sublistForall₂

theorem sublistForall₂_append {as cs : List γ} {bs ds : List δ}
    (first : List.SublistForall₂ S as bs) (second : List.SublistForall₂ S cs ds) :
    List.SublistForall₂ S (as ++ cs) (bs ++ ds) := by
  induction first with
  | @nil bs =>
    -- All of the longer list may be passed over.
    induction bs with
    | nil => exact second
    | cons b bs ih => exact .cons_right ih
  | cons related _ ih => exact .cons related ih
  | cons_right _ ih => exact .cons_right ih

theorem sublistForall₂_flatMap {f : α → List γ} {g : β → List δ} {as : List α} {bs : List β}
    (kept : List.SublistForall₂ R as bs) (each : ∀ a b, R a b → List.SublistForall₂ S (f a) (g b)) :
    List.SublistForall₂ S (as.flatMap f) (bs.flatMap g) := by
  induction kept with
  | nil => exact .nil
  | cons related _ ih => exact sublistForall₂_append (each _ _ related) ih
  | cons_right _ ih => exact sublistForall₂_append .nil ih

theorem sublistForall₂_filterMap {f : α → Option γ} {g : β → Option δ} {as : List α} {bs : List β}
    (kept : List.SublistForall₂ R as bs)
    (each : ∀ a b, R a b → ∀ x, f a = some x → ∃ y, g b = some y ∧ S x y) :
    List.SublistForall₂ S (as.filterMap f) (bs.filterMap g) := by
  rw [List.filterMap_eq_flatMap_toList, List.filterMap_eq_flatMap_toList]
  refine sublistForall₂_flatMap kept fun a b related => ?_
  cases found : f a with
  | none => exact .nil
  | some x =>
    obtain ⟨y, found_again, same⟩ := each a b related x found
    rw [found_again]
    exact .cons same .nil

end

section

variable {fs gs : List Finding}

theorem countP_kind_le (kept : List.SublistForall₂ Finding.SameSubject fs gs) (k : RuleKind) :
    fs.countP (fun f => f.kind == k) ≤ gs.countP (fun f => f.kind == k) := by
  induction kept with
  | nil => exact Nat.zero_le _
  | cons same _ ih =>
    rw [List.countP_cons, List.countP_cons, same.1]
    omega
  | cons_right _ ih =>
    rw [List.countP_cons]
    omega

theorem ne_nil_of_kept (kept : List.SublistForall₂ Finding.SameSubject fs gs)
    (some_finding : fs ≠ []) : gs ≠ [] := by
  cases kept with
  | nil => exact absurd rfl some_finding
  | cons _ _ => exact List.cons_ne_nil _ _
  | cons_right _ => exact List.cons_ne_nil _ _

end

/-! ## Rules -/

/-- Whether the second rule is the first one, or the first one with less that is allowed or more
that is forbidden. -/
inductive Rule.IsTightened : Rule → Rule → Prop where
  | enforceRegistry {old new : List Text} (fewer : new.Sublist old) :
      IsTightened (.enforceRegistry old) (.enforceRegistry new)
  | forbidTags {old new : List Text} (more : old.Sublist new) :
      IsTightened (.forbidTags old) (.forbidTags new)
  | forbidInsecureRegistries : IsTightened .forbidInsecureRegistries .forbidInsecureRegistries
  | forbidRoot : IsTightened .forbidRoot .forbidRoot
  | forbidPrivilegedPorts : IsTightened .forbidPrivilegedPorts .forbidPrivilegedPorts
  | forbidPackages {old new : List Text} (more : old.Sublist new) :
      IsTightened (.forbidPackages old) (.forbidPackages new)
  | forbidSecrets {old new oldAllowed newAllowed : List SourcePattern} (more : old.Sublist new)
      (fewer : newAllowed.Sublist oldAllowed) :
      IsTightened (.forbidSecrets old oldAllowed) (.forbidSecrets new newAllowed)

section

variable {old new : List Text}

theorem registryFindings_tightened (fewer : new.Sublist old) (v : View) :
    List.SublistForall₂ Finding.SameSubject (registryFindings old v) (registryFindings new v) := by
  have from_here (names : List Text) (bs : List (Located BaseImage)) :
      List.SublistForall₂ Finding.SameSubject (registryFindingsFrom old names bs)
        (registryFindingsFrom new names bs) := by
    induction bs generalizing names with
    | nil => exact .nil
    | cons b bs ih =>
      simp only [registryFindingsFrom]
      split
      · split
        · exact ih _
        · exact .cons_right (ih _)
      · next reported =>
        -- Exemptions do not depend on what is allowed.
        have reported_again : ¬ (isExempt names b.item ||
            new.contains b.item.reference.effectiveRegistry) = true := by
          simp only [Bool.or_eq_true, List.contains_iff_mem, not_or] at reported ⊢
          exact ⟨reported.1, fun allowed => reported.2 (fewer.subset allowed)⟩
        rw [if_neg reported_again]
        exact .cons ⟨rfl, rfl⟩ (ih _)
  exact from_here [] v.bases

theorem tagFindings_tightened (more : old.Sublist new) (v : View) :
    List.SublistForall₂ Finding.SameSubject (tagFindings old v) (tagFindings new v) := by
  refine sublistForall₂_filterMap (sublistForall₂_eq v.bases) ?_
  rintro b _ rfl f found
  rw [tagFinding?] at found ⊢
  split at found
  · cases found
  · next based =>
    rw [if_neg based]
    split at found
    · next tag _ =>
      split at found
      · next forbidden =>
        cases found
        have forbidden_again : new.contains tag = true :=
          List.contains_iff_mem.2 (more.subset (List.contains_iff_mem.1 forbidden))
        exact ⟨tagFinding new tag b, if_pos forbidden_again, rfl, rfl⟩
      · cases found
    · cases found

theorem packageFindings_tightened (more : old.Sublist new) (v : View) :
    List.SublistForall₂ Finding.SameSubject (packageFindings old v) (packageFindings new v) := by
  -- Whether calls are found at all does not depend on what is forbidden.
  simp only [packageFindings]
  split
  · refine sublistForall₂_flatMap (sublistForall₂_eq (commandStatements v)) ?_
    rintro s _ rfl
    exact ((more.filter _).map _).sublistForall₂
  · exact (more.filterMap _).sublistForall₂

end

section

variable {secrets allowed : List SourcePattern} {path : Text}

theorem isSome_secretPattern?_iff :
    (secretPattern? secrets allowed path).isSome = true ↔
      (∃ p ∈ secrets, p.pattern.occursIn path = true) ∧
        ∀ a ∈ allowed, a.pattern.occursIn path = false := by
  have none_allowed : (allowed.any fun a => a.pattern.occursIn path) = false ↔
      ∀ a ∈ allowed, a.pattern.occursIn path = false := by
    simp
  rw [← none_allowed, ← List.find?_isSome, secretPattern?]
  cases secrets.find? fun p => p.pattern.occursIn path with
  | none => simp
  | some p => cases allowed.any fun a => a.pattern.occursIn path <;> simp

theorem secretFindings_tightened {old new oldAllowed newAllowed : List SourcePattern}
    (more : old.Sublist new) (fewer : newAllowed.Sublist oldAllowed) (v : View) :
    List.SublistForall₂ Finding.SameSubject (secretFindings old oldAllowed v)
      (secretFindings new newAllowed v) := by
  refine sublistForall₂_flatMap (sublistForall₂_eq v.transfers) ?_
  rintro t _ rfl
  rw [List.map_filterMap, List.map_filterMap]
  refine sublistForall₂_filterMap (sublistForall₂_eq t.item.sources) ?_
  rintro path _ rfl f found
  obtain ⟨p, matched, rfl⟩ := Option.map_eq_some_iff.1 found
  have both := isSome_secretPattern?_iff.1 (Option.isSome_of_eq_some matched)
  obtain ⟨⟨q, secret, occurs⟩, none_allowed⟩ := both
  -- Another pattern may come first now.
  obtain ⟨first, matched_again⟩ := Option.isSome_iff_exists.1 (isSome_secretPattern?_iff.2
    ⟨⟨q, more.subset secret, occurs⟩, fun a inside => none_allowed a (fewer.subset inside)⟩)
  exact ⟨secretFinding first t, by rw [matched_again]; rfl, rfl, rfl⟩

end

/-- The findings of a rule are kept in order, statement by statement, when it is tightened. -/
theorem Rule.findings_tightened {r r' : Rule} (tighter : r.IsTightened r') (v : View) :
    List.SublistForall₂ Finding.SameSubject (r.findings v) (r'.findings v) := by
  have same (fs : List Finding) : List.SublistForall₂ Finding.SameSubject fs fs :=
    (List.Sublist.refl fs).sublistForall₂
  cases tighter with
  | enforceRegistry fewer => exact registryFindings_tightened fewer v
  | forbidTags more => exact tagFindings_tightened more v
  | forbidInsecureRegistries => exact same _
  | forbidRoot => exact same _
  | forbidPrivilegedPorts => exact same _
  | forbidPackages more => exact packageFindings_tightened more v
  | forbidSecrets more fewer => exact secretFindings_tightened more fewer v

/-! ## Policies -/

/-- Whether the second policy has all rules of the first one in their order, each as it was or
tightened, and possibly further ones anywhere. -/
def Policy.IsTightened (p q : Policy) : Prop := List.SublistForall₂ Rule.IsTightened p.rules q.rules

/-- A stricter policy objects again, in the same order, to every statement that a rule of some kind
objected to; so it has as many findings of each kind at least, and no file passes that failed. -/
theorem Policy.evaluate_tightened {p q : Policy} (tighter : p.IsTightened q) (d : Dockerfile) :
    List.SublistForall₂ Finding.SameSubject (p.evaluate d).findings (q.evaluate d).findings ∧
      (∀ k, (p.evaluate d).countOf k ≤ (q.evaluate d).countOf k) ∧
      ((p.evaluate d).verdict = .fail → (q.evaluate d).verdict = .fail) := by
  have kept : List.SublistForall₂ Finding.SameSubject (p.evaluate d).findings
      (q.evaluate d).findings :=
    sublistForall₂_flatMap tighter fun _ _ rule => Rule.findings_tightened rule d.view
  refine ⟨kept, fun k => countP_kind_le kept k, ?_⟩
  rw [AuditResult.verdict_eq_fail_iff, AuditResult.verdict_eq_fail_iff]
  exact ne_nil_of_kept kept

/-- A rule more in front, another tag that is forbidden, a secret pattern that is met before the old
one, and an allowed pattern less. -/
theorem evaluate_tightened_of_secret :
    let base : Statement := ⟨.base ⟨⟨none, "a".toList, none, none⟩, none, none⟩, 1, "FROM a".toList⟩
    let copy : Statement :=
      ⟨.copy ⟨["id.key".toList], "/".toList, .empty⟩, 2, "COPY id.key /".toList⟩
    let d : Dockerfile := ⟨none, [base, copy]⟩
    let key : SourcePattern := ⟨"key".toList, .literal "key".toList⟩
    let id : SourcePattern := ⟨"^id".toList, .cat (.assertion .textStart) (.literal "id".toList)⟩
    let pub : SourcePattern := ⟨"pub".toList, .literal "pub".toList⟩
    let p : Policy := ⟨[.forbidTags ["latest".toList], .forbidSecrets [key] [pub]]⟩
    let q : Policy :=
      ⟨[.forbidRoot, .forbidTags ["edge".toList, "latest".toList], .forbidSecrets [id, key] []]⟩
    p.IsTightened q ∧ (p.evaluate d).verdict = .fail ∧ (q.evaluate d).verdict = .fail ∧
      (p.evaluate d).countOf .forbidSecrets ≤ (q.evaluate d).countOf .forbidSecrets := by
  intro base copy d key id pub p q
  have tighter : p.IsTightened q :=
    .cons_right (.cons (.forbidTags (by decide))
      (.cons (.forbidSecrets (.cons _ (.refl _)) (.cons _ (.refl _))) .nil))
  have fails : (p.evaluate d).verdict = .fail := rfl
  obtain ⟨-, counts, fails_again⟩ := Policy.evaluate_tightened tighter d
  exact ⟨tighter, fails, fails_again fails, counts _⟩

end ImageAudit
