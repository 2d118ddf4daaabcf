import Mathlib.Data.List.Basic
import Mathlib.Data.List.Nodup

/-!
# Facts on lists and on steps that may fail

* `lookup_filter`: other keys may be left out.
* `findSome?_eq_of_perm`: if one element at most has a result, the order does not matter.
* `bind_eq_ok_iff`: a sequence succeeds if both steps do.
* `foldlM_eq_of_perm`: steps under different names may be taken in any order.
-/

namespace ImageAudit

/-! ## Looking up -/

section

variable {α β : Type} [BEq α] [LawfulBEq α]

theorem mem_of_lookup {es : List (α × β)} {a : α} {b : β} (found : es.lookup a = some b) :
    (a, b) ∈ es := by
  obtain ⟨before, after, split, -⟩ := List.lookup_eq_some_iff.1 found
  rw [split]
  exact List.mem_append_right before List.mem_cons_self

theorem lookup_filter (p : α → Bool) {a : α} (kept : p a = true) (es : List (α × β)) :
    (es.filter fun e => p e.1).lookup a = es.lookup a := by
  induction es with
  | nil => rfl
  | cons e es ih =>
    obtain ⟨k, b⟩ := e
    cases keeps : p k with
    | true =>
      rw [List.filter_cons_of_pos (by simpa using keeps), List.lookup_cons, List.lookup_cons, ih]
    | false =>
      have other : (a == k) = false := by
        rw [beq_eq_false_iff_ne]
        rintro rfl
        rw [kept] at keeps
        cases keeps
      rw [List.filter_cons_of_neg (by simp [keeps]), List.lookup_cons, other, ih]

end

theorem findSome?_eq_of_perm {α β : Type} {f : α → Option β} {xs ys : List α}
    (permuted : xs.Perm ys)
    (unique : ∀ a ∈ xs, ∀ b ∈ xs, (f a).isSome → (f b).isSome → a = b) :
    xs.findSome? f = ys.findSome? f := by
  cases found : ys.findSome? f with
  | none =>
    rw [List.findSome?_eq_none_iff] at found ⊢
    exact fun a member => found a (permuted.subset member)
  | some y =>
    obtain ⟨b, member, hb⟩ := List.exists_of_findSome?_eq_some found
    have inside : b ∈ xs := permuted.symm.subset member
    cases found' : xs.findSome? f with
    | none =>
      rw [List.findSome?_eq_none_iff.1 found' b inside] at hb
      cases hb
    | some x =>
      obtain ⟨a, first, ha⟩ := List.exists_of_findSome?_eq_some found'
      obtain rfl := unique a first b inside (by rw [ha]; rfl) (by rw [hb]; rfl)
      exact ha.symm.trans hb

/-! ## Steps that may fail -/

section

variable {ε δ α β : Type}

theorem bind_eq_ok_iff {x : Except ε α} {f : α → Except ε β} {b : β} :
    x.bind f = .ok b ↔ ∃ a, x = .ok a ∧ f a = .ok b := by
  cases x <;> simp [Except.bind]

theorem map_eq_ok_iff {f : α → β} {x : Except ε α} {b : β} :
    x.map f = .ok b ↔ ∃ a, x = .ok a ∧ f a = b := by
  cases x <;> simp [Except.map]

@[simp] theorem mapError_eq_ok_iff {f : ε → δ} {x : Except ε α} {a : α} :
    x.mapError f = .ok a ↔ x = .ok a := by
  cases x <;> simp [Except.mapError]

@[simp] theorem isSome_bind_some (x : Option α) (f : α → β) :
    (x.bind fun a => some (f a)).isSome = x.isSome := by
  cases x <;> rfl

/-- Steps with different names may be taken in any order, if any two of them may be swapped. -/
theorem foldlM_eq_of_perm {κ : Type} {name : α → κ} {f : β → α → Option β}
    (swap : ∀ x y, name x ≠ name y → ∀ b, (f b x).bind (f · y) = (f b y).bind (f · x))
    {xs ys : List α} (permuted : xs.Perm ys) (distinct : (xs.map name).Nodup) (b : β) :
    xs.foldlM f b = ys.foldlM f b := by
  rw [List.foldlM_eq_foldl, List.foldlM_eq_foldl]
  refine permuted.foldl_eq' (fun x hx y hy o => ?_) _
  by_cases same : name x = name y
  · rw [List.inj_on_of_nodup_map distinct hx hy same]
  · cases o with
    | none => rfl
    | some b => exact swap x y same b

end

end ImageAudit
