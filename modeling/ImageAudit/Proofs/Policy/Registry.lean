import ImageAudit.Policy.Rule
import Mathlib.Data.List.Infix

/-!
# What the registry rule reports

An image is meant to be exempt from the registry rule only if it names no registry of its own and
is `scratch` or an earlier stage. The rule looks at the name alone, so an image from an unapproved
registry escapes it by being called like one of these.

* `registryFindings_eq_reports` says what is reported in fact.
* `registryFindings_eq_promised_iff` says for which files this is what is meant.
-/

namespace ImageAudit

open Text

/-! ## Images and those before them -/

/-- The names of the stages these images begin. -/
def stageNames (bs : List (Located BaseImage)) : List Text := bs.filterMap (·.item.stageName)

/-- Each image together with the images before it. -/
def withEarlier (bs : List (Located BaseImage)) :
    List (List (Located BaseImage) × Located BaseImage) :=
  bs.inits.zip bs

theorem stageNames_concat (bs : List (Located BaseImage)) (b : Located BaseImage) :
    stageNames (bs ++ [b]) = stageNames bs ++ b.item.stageName.toList := by
  cases h : b.item.stageName <;> simp [stageNames, h]

theorem withEarlier_cons (b : Located BaseImage) (bs : List (Located BaseImage)) :
    withEarlier (b :: bs) = ([], b) :: (withEarlier bs).map fun p => (b :: p.1, p.2) := by
  simp only [withEarlier, List.inits_cons, List.zip_cons_cons, List.zip_map_left]
  rfl

theorem mem_withEarlier {bs earlier : List (Located BaseImage)} {b : Located BaseImage} :
    (earlier, b) ∈ withEarlier bs ↔ ∃ later, bs = earlier ++ b :: later := by
  induction bs generalizing earlier with
  | nil => simp [withEarlier]
  | cons c bs ih =>
    rw [withEarlier_cons, List.mem_cons, List.mem_map]
    constructor
    · rintro (h | ⟨⟨before, b'⟩, member, h⟩)
      · simp only [Prod.mk.injEq] at h
        obtain ⟨rfl, rfl⟩ := h
        exact ⟨bs, rfl⟩
      · simp only [Prod.mk.injEq] at h
        obtain ⟨rfl, rfl⟩ := h
        obtain ⟨later, rfl⟩ := ih.1 member
        exact ⟨later, rfl⟩
    · rintro ⟨later, h⟩
      cases earlier with
      | nil =>
        simp only [List.nil_append, List.cons.injEq] at h
        exact .inl (by rw [h.1])
      | cons e earlier =>
        simp only [List.cons_append, List.cons.injEq] at h
        obtain ⟨rfl, rfl⟩ := h
        exact .inr ⟨(earlier, b), ih.2 ⟨later, rfl⟩, rfl⟩

/-! ## What is reported and what is meant to be -/

/-- Whether the rule passes an image over because of its name. -/
def hasExemptName (earlier : List (Located BaseImage)) (b : Located BaseImage) : Bool :=
  isExempt (stageNames earlier) b.item

/-- Whether an image is meant to be exempt: it names no registry, and it is `scratch` or an
earlier stage. -/
def isMeantExempt (earlier : List (Located BaseImage)) (b : Located BaseImage) : Bool :=
  b.item.reference.registry.isNone && hasExemptName earlier b

/-- The findings on the images from registries that are not allowed, but for the images that
`exempts`, which also sees the images before. -/
def reports (allowed : List Text)
    (exempts : List (Located BaseImage) → Located BaseImage → Bool)
    (bs : List (Located BaseImage)) : List Finding :=
  ((withEarlier bs).filter fun p =>
    !exempts p.1 p.2 && !allowed.contains p.2.item.reference.effectiveRegistry).map
      fun p => registryFinding allowed p.2

/-- One image more before all others. -/
theorem reports_cons (allowed : List Text)
    (exempts : List (Located BaseImage) → Located BaseImage → Bool)
    (b : Located BaseImage) (bs : List (Located BaseImage)) :
    reports allowed exempts (b :: bs) =
      (if exempts [] b || allowed.contains b.item.reference.effectiveRegistry then []
        else [registryFinding allowed b]) ++
      reports allowed (fun earlier => exempts (b :: earlier)) bs := by
  unfold reports
  rw [withEarlier_cons, List.filter_cons, List.filter_map, ← Bool.not_or]
  cases exempts [] b || allowed.contains b.item.reference.effectiveRegistry <;>
    simp [Function.comp_def]

/-- The rule reports every image from a registry that is not allowed, unless its name is `scratch`
or that of an earlier stage. -/
theorem registryFindings_eq_reports (allowed : List Text) (v : View) :
    registryFindings allowed v = reports allowed hasExemptName v.bases := by
  -- The rule carries the names of the stages before along.
  have run : ∀ (before bs : List (Located BaseImage)),
      registryFindingsFrom allowed (stageNames before) bs =
        reports allowed (fun earlier => hasExemptName (before ++ earlier)) bs := by
    intro before bs
    induction bs generalizing before with
    | nil => rfl
    | cons b bs ih =>
      rw [reports_cons, registryFindingsFrom, ← stageNames_concat, ih]
      simp only [List.append_nil, List.append_assoc, List.singleton_append]
      change (if hasExemptName before b || _ then _ else _) = _
      split <;> rfl
  exact run [] v.bases

/-- Leaving elements out of a list shows, whatever they are mapped to. -/
theorem map_filter_eq_map_iff {α β : Type} (f : α → β) (p : α → Bool) (l : List α) :
    (l.filter p).map f = l.map f ↔ ∀ a ∈ l, p a = true := by
  rw [← List.length_filter_eq_length_iff]
  constructor
  · intro h
    simpa using congrArg List.length h
  · intro h
    rw [List.filter_eq_self.2 (List.length_filter_eq_length_iff.1 h)]

/-- Exempting more images changes nothing if and only if none of them comes from a registry that is
not allowed. -/
theorem reports_eq_iff {exempts meant : List (Located BaseImage) → Located BaseImage → Bool}
    (narrower : ∀ earlier b, meant earlier b = true → exempts earlier b = true)
    (allowed : List Text) (bs : List (Located BaseImage)) :
    reports allowed exempts bs = reports allowed meant bs ↔
      ∀ earlier b later, bs = earlier ++ b :: later →
        b.item.reference.effectiveRegistry ∉ allowed → exempts earlier b = true →
          meant earlier b = true := by
  -- What is reported is what is left of the reports that are meant.
  have fewer : reports allowed exempts bs =
      (((withEarlier bs).filter fun p => !meant p.1 p.2 &&
        !allowed.contains p.2.item.reference.effectiveRegistry).filter
          fun p => !exempts p.1 p.2).map fun p => registryFinding allowed p.2 := by
    unfold reports
    rw [List.filter_filter]
    congr 2
    funext p
    have := narrower p.1 p.2
    cases hm : meant p.1 p.2 with
    | false => simp
    | true => simp [this hm]
  rw [fewer, reports, map_filter_eq_map_iff]
  constructor
  · intro h earlier b later split foreign exempt
    cases hm : meant earlier b with
    | true => rfl
    | false =>
      have member : (earlier, b) ∈ withEarlier bs := mem_withEarlier.2 ⟨later, split⟩
      have := h (earlier, b) (List.mem_filter.2 ⟨member, by simp [hm, foreign]⟩)
      simp [exempt] at this
  · rintro h ⟨earlier, b⟩ member
    obtain ⟨member, kept⟩ := List.mem_filter.1 member
    obtain ⟨later, split⟩ := mem_withEarlier.1 member
    simp only [Bool.and_eq_true, Bool.not_eq_true', List.contains_eq_mem,
      decide_eq_false_iff_not] at kept
    cases he : exempts earlier b with
    | false => rfl
    | true =>
      have := h earlier b later split kept.2 he
      simp [kept.1] at this

/-- An image with a registry of its own is reported whatever its name is, and an image without one
only if its name is not exempt: this is what the rule does exactly for those files in which no
image from a registry that is not allowed is called `scratch` or like an earlier stage. -/
theorem registryFindings_eq_promised_iff (allowed : List Text) (d : Dockerfile) :
    (Rule.enforceRegistry allowed).findings d.view = reports allowed isMeantExempt d.view.bases ↔
      ∀ earlier b later, d.view.bases = earlier ++ b :: later →
        ∀ registry ∉ allowed, b.item.reference.registry = some registry →
          b.item.reference.name ≠ "scratch".toList ∧
            b.item.reference.name ∉ stageNames earlier := by
  have narrower : ∀ earlier b, isMeantExempt earlier b = true → hasExemptName earlier b = true := by
    intro earlier b h
    simp only [isMeantExempt, Bool.and_eq_true] at h
    exact h.2
  change registryFindings allowed d.view = _ ↔ _
  rw [registryFindings_eq_reports, reports_eq_iff narrower]
  -- Both exemptions agree on images without a registry of their own.
  refine forall_congr' fun earlier => forall_congr' fun b => forall_congr' fun later =>
    forall_congr' fun _ => ?_
  cases hr : b.item.reference.registry with
  | none => simp [isMeantExempt, hr]
  | some registry =>
    have named : hasExemptName earlier b = true ↔ ¬ (b.item.reference.name ≠ "scratch".toList ∧
        b.item.reference.name ∉ stageNames earlier) := by
      simp [hasExemptName, isExempt, ImageReference.isScratch]
      tauto
    simp only [ImageReference.effectiveRegistry, hr, Option.getD_some, named, isMeantExempt,
      Option.isNone_some, Bool.false_and, Bool.false_eq_true, imp_false, not_not,
      Option.some.injEq]
    constructor
    · rintro h _ foreign rfl
      exact h foreign
    · intro h foreign
      exact h registry foreign rfl

/-- An image called `scratch` is not reported although its registry is not allowed. -/
theorem foreign_scratch_unreported :
    (Dockerfile.ofText "FROM evil.io/scratch".toList).map (fun d =>
      ((Rule.enforceRegistry ["gcr.io".toList]).findings d.view,
        reports ["gcr.io".toList] isMeantExempt d.view.bases)) =
    .ok ([], [registryFinding ["gcr.io".toList]
      ⟨⟨⟨some "evil.io".toList, "scratch".toList, none, none⟩, none, none⟩,
        ⟨.base ⟨⟨some "evil.io".toList, "scratch".toList, none, none⟩, none, none⟩, 1,
          "FROM evil.io/scratch".toList⟩⟩]) := by
  rfl

end ImageAudit
