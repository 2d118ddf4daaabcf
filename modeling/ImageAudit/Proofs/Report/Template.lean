import ImageAudit.Proofs.Basic
import ImageAudit.Report.Template
import Mathlib.Data.List.Forall2

/-!
# What filling in a template depends on

Whether a template can be filled in does not depend on what is written in the texts it refers to,
but only on how long they are, as a loop may go through their characters.

* `Value.Alike` compares values but for what is written in them.
* `Template.isSome_render?`: alike values fill in the same templates.
* `Template.isSome_fill?_date`: the date decides nothing.
-/

namespace ImageAudit.Report

open Text

/-! ## Values that differ in what is written -/

namespace Value

/-- Whether two values are the same but for what is written in texts of one length. -/
inductive Alike : Value → Value → Prop where
  | refl (v : Value) : Alike v v
  | text {t u : Text} (same : t.length = u.length) : Alike (text t) (text u)
  | field {name : Text} {v w : Value} {fs gs : List (Text × Value)} (first : Alike v w)
      (others : Alike (record fs) (record gs)) :
      Alike (record ((name, v) :: fs)) (record ((name, w) :: gs))

namespace Alike

variable {v w : Value}

theorem holds_eq (alike : Alike v w) : v.holds = w.holds := by
  cases alike with
  | refl => rfl
  | @text t u same => cases t <;> cases u <;> simp_all [holds]
  | field => rfl

theorem rel_refl : (x : Option Value) → Option.Rel Alike x x
  | none => .none
  | some v => .some (.refl v)

theorem part? (alike : Alike v w) (name : Text) :
    Option.Rel Alike (v.part? name) (w.part? name) := by
  induction alike with
  | refl v => exact rel_refl _
  | text => exact .none
  | @field n v w fs gs first _ _ others =>
    simp only [Value.part?, List.lookup_cons] at others ⊢
    cases name == n with
    | true => exact .some first
    | false => exact others

theorem value? (alike : Alike v w) (path : ValuePath) :
    Option.Rel Alike (Template.value? v path) (Template.value? w path) := by
  induction path generalizing v w with
  | nil => exact .some alike
  | cons n ns ih =>
    have parts := alike.part? n
    rw [Template.value?, Template.value?]
    generalize v.part? n = x, w.part? n = y at parts
    cases parts with
    | none => exact .none
    | some further => exact ih further

theorem size?_eq (alike : Alike v w) : v.size? = w.size? := by
  induction alike with
  | refl => rfl
  | text same => exact congrArg some same
  | field _ _ _ others =>
    simp only [size?, Option.some.injEq] at others ⊢
    rw [List.length_cons, List.length_cons, others]

theorem filtered? (alike : Alike v w) (filters : List Filter) :
    Option.Rel Alike (Template.filtered? filters v) (Template.filtered? filters w) := by
  cases filters with
  | nil => exact .some alike
  | cons f fs =>
    -- Counting gives the same number.
    cases f
    rw [Template.filtered?, Template.filtered?, Filter.on?, Filter.on?, alike.size?_eq]
    exact rel_refl _

theorem items? (alike : Alike v w) : Option.Rel (List.Forall₂ Alike) v.items? w.items? := by
  cases alike with
  | refl =>
    cases v.items? with
    | none => exact .none
    | some vs => exact .some (List.forall₂_same.2 fun v _ => .refl v)
  | @text t u same =>
    refine .some (List.forall₂_map_left_iff.2 (List.forall₂_map_right_iff.2 ?_))
    exact List.forall₂_iff_zip.2 ⟨same, fun _ => .text rfl⟩
  | field => exact .none

theorem inner {item : Text} {count : Nat} {v' w' : Value} {n : Nat} (alike : Alike v w)
    (items : Alike v' w') :
    Alike (Template.inner item count v v' n) (Template.inner item count w w' n) := by
  have scope {fs gs : List (Text × Value)} (alike : Alike (record fs) (record gs)) :
      Alike (Template.inner item count (record fs) v' n)
        (Template.inner item count (record gs) w' n) :=
    .field items (.field (.refl _) alike)
  cases alike with
  | refl =>
    cases v with
    | record fs => exact scope (.refl _)
    | _ => exact .refl _
  | text same => exact .text same
  | field first others => exact scope (.field first others)

end Alike

end Value

/-! ## Filling in -/

namespace Template

open Value

theorem isSome_bind_bind {α β γ : Type} (x : Option α) (y : Option β) (f : α → β → γ) :
    (x.bind fun a => y.bind fun b => some (f a b)).isSome = (x.isSome && y.isSome) := by
  cases x <;> cases y <;> rfl

theorem isSome_mapM_zipIdx {vs ws : List Value} {f g : Value × Nat → Option Text}
    (alike : List.Forall₂ Alike vs ws)
    (each : ∀ v w n, Alike v w → (f (v, n)).isSome = (g (w, n)).isSome) (n : Nat) :
    ((vs.zipIdx n).mapM f).isSome = ((ws.zipIdx n).mapM g).isSome := by
  induction alike generalizing n with
  | nil => rfl
  | @cons v w vs ws first _ ih =>
    simp only [List.zipIdx_cons, List.mapM_cons, Option.bind_eq_bind, Option.pure_def,
      isSome_bind_bind, each v w n first, ih (n + 1)]

mutual

theorem isSome_renderOne? {v w : Value} (alike : Alike v w) :
    (part : Template) → (renderOne? v part).isSome = (renderOne? w part).isSome
  | text t => rfl
  | value path filters => by
    have there := alike.value? path
    simp only [renderOne?, Option.isSome_map]
    generalize value? v path = x, value? w path = y at there
    cases there with
    | none => rfl
    | @some x y found =>
      have made := found.filtered? filters
      rw [Option.bind_some, Option.bind_some]
      generalize filtered? filters x = v', filtered? filters y = w' at made
      cases made <;> rfl
  | loop item path body => by
    have there := alike.value? path
    simp only [renderOne?]
    generalize value? v path = x, value? w path = y at there
    cases there with
    | none => rfl
    | @some x y found =>
      have items := found.items?
      simp only [Option.bind_eq_bind, Option.bind_some]
      generalize x.items? = vs, y.items? = ws at items
      cases items with
      | none => rfl
      | @some vs ws same =>
        simp only [Option.bind_some, isSome_bind_some]
        refine isSome_mapM_zipIdx same (fun v' w' n item_alike => ?_) 0
        rw [same.length_eq]
        exact isSome_render? (alike.inner item_alike) body
  | branch condition yes no => by
    have there := alike.value? condition
    have agree : (value? v condition).any Value.holds = (value? w condition).any Value.holds := by
      generalize value? v condition = x, value? w condition = y at there
      cases there with
      | none => rfl
      | some found => exact found.holds_eq
    simp only [renderOne?, agree]
    split
    · exact isSome_render? alike yes
    · exact isSome_render? alike no

theorem isSome_render? {v w : Value} (alike : Alike v w) :
    (ts : List Template) → (render? v ts).isSome = (render? w ts).isSome
  | [] => rfl
  | part :: parts => by
    simp only [render?, Option.bind_eq_bind, isSome_bind_bind, isSome_renderOne? alike part,
      isSome_render? alike parts]

end

theorem isSome_fill?_date (t : Text) {d d' : Text} (same : d.length = d'.length) (p : Policy)
    (b : BatchReport) :
    (fill? t (.ofBatch d p b)).isSome = (fill? t (.ofBatch d' p b)).isSome := by
  have alike : Alike (ofContent (.ofBatch d p b)) (ofContent (.ofBatch d' p b)) :=
    .field (.text same) (.refl _)
  rw [fill?, fill?]
  cases ofText? t with
  | none => rfl
  | some ts => exact isSome_render? alike ts

end Template

end ImageAudit.Report
