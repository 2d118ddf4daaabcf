import ImageAudit.Text.Blank
import Mathlib.Data.List.DropRight

/-!
# The ends of a text

What is left when characters of one sort are taken off the ends of a text: a part of the text that
neither begins nor ends with such a character, and the whole text if it does neither.
-/

namespace ImageAudit.Text

variable {p : Char → Bool}

/-- What is left does not begin with a character of the sort. -/
theorem head?_dropWhile {t : Text} {c : Char} (h : (t.dropWhile p).head? = some c) :
    p c = false := by
  have := List.head?_dropWhile_not p t
  rwa [h] at this

theorem dropEndWhile_eq_rdropWhile (p : Char → Bool) (t : Text) :
    dropEndWhile p t = t.rdropWhile p := by
  induction t with
  | nil => rfl
  | cons c r ih =>
    rw [dropEndWhile, ih]
    cases h : r.rdropWhile p with
    | nil =>
      rw [List.rdropWhile, List.reverse_cons, List.dropWhile_append]
      have : List.dropWhile p r.reverse = [] := by simpa [List.rdropWhile] using h
      by_cases hc : p c = true <;> simp [this, hc]
    | cons d s =>
      rw [List.rdropWhile, List.reverse_cons, List.dropWhile_append]
      have : List.dropWhile p r.reverse = (d :: s).reverse := by
        rw [← h, List.rdropWhile, List.reverse_reverse]
      simp [this]

theorem dropEndWhile_eq_nil_iff {t : Text} : dropEndWhile p t = [] ↔ t.all p = true := by
  rw [dropEndWhile_eq_rdropWhile, List.rdropWhile_eq_nil_iff, List.all_eq_true]

/-- What is taken off the end are characters of the sort. -/
theorem exists_append_of_dropEndWhile (p : Char → Bool) (t : Text) :
    ∃ b, b.all p = true ∧ t = dropEndWhile p t ++ b := by
  refine ⟨t.rtakeWhile p, ?_, ?_⟩
  · rw [List.all_eq_true]
    exact fun c member => List.mem_rtakeWhile_imp member
  · rw [dropEndWhile_eq_rdropWhile, List.rdropWhile_append_rtakeWhile]

/-- What is taken off both ends are characters of the sort. -/
theorem exists_append_of_stripWhile (p : Char → Bool) (t : Text) :
    ∃ a b, a.all p = true ∧ b.all p = true ∧ t = a ++ stripWhile p t ++ b := by
  obtain ⟨b, hb, split⟩ := exists_append_of_dropEndWhile p (t.dropWhile p)
  refine ⟨t.takeWhile p, b, List.all_takeWhile, hb, ?_⟩
  rw [stripWhile, List.append_assoc, ← split, List.takeWhile_append_dropWhile]

theorem stripWhile_sublist (p : Char → Bool) (t : Text) : (stripWhile p t).Sublist t := by
  obtain ⟨a, b, -, -, split⟩ := exists_append_of_stripWhile p t
  conv_rhs => rw [split, List.append_assoc]
  exact (List.sublist_append_left ..).trans (List.sublist_append_right ..)

theorem getLast?_dropEndWhile {t : Text} {c : Char} (h : (dropEndWhile p t).getLast? = some c) :
    p c = false := by
  rw [dropEndWhile_eq_rdropWhile] at h
  have hne : t.rdropWhile p ≠ [] := by
    intro empty
    simp [empty] at h
  rw [List.getLast?_eq_some_getLast hne, Option.some.injEq] at h
  have := List.rdropWhile_last_not p t hne
  rw [h] at this
  simpa using this

theorem head?_stripWhile {t : Text} {c : Char} (h : (stripWhile p t).head? = some c) :
    p c = false := by
  obtain ⟨b, -, split⟩ := exists_append_of_dropEndWhile p (t.dropWhile p)
  rw [stripWhile] at h
  refine head?_dropWhile (t := t) ?_
  rw [split, List.head?_append, h]
  rfl

theorem getLast?_stripWhile {t : Text} {c : Char} (h : (stripWhile p t).getLast? = some c) :
    p c = false :=
  getLast?_dropEndWhile h

theorem dropEndWhile_eq_self {t : Text} (h : ∀ c, t.getLast? = some c → p c = false) :
    dropEndWhile p t = t := by
  rw [dropEndWhile_eq_rdropWhile, List.rdropWhile_eq_self_iff]
  intro hne
  rw [h _ (List.getLast?_eq_some_getLast hne)]
  exact Bool.false_ne_true

theorem stripWhile_eq_self {t : Text} (first : ∀ c, t.head? = some c → p c = false)
    (last : ∀ c, t.getLast? = some c → p c = false) : stripWhile p t = t := by
  have kept : t.dropWhile p = t := by
    cases t with
    | nil => rfl
    | cons c r => simp [first c rfl]
  rw [stripWhile, kept, dropEndWhile_eq_self last]

/-- A character of another sort at the end stays there. -/
theorem getLast?_stripWhile_of_getLast? {t : Text} {c : Char} (last : t.getLast? = some c)
    (other : p c = false) : (stripWhile p t).getLast? = some c := by
  have split := List.takeWhile_append_dropWhile (p := p) (l := t)
  have kept : (t.dropWhile p).getLast? = some c := by
    rw [← split, List.getLast?_append] at last
    cases rest : (t.dropWhile p).getLast? with
    | some d => rwa [rest] at last
    | none =>
      rw [rest] at last
      have taken := List.all_eq_true.1 (List.all_takeWhile (p := p) (l := t))
      have := taken c (List.mem_of_getLast? last)
      rw [other] at this
      cases this
  rw [stripWhile, dropEndWhile_eq_self, kept]
  intro d hd
  rw [kept] at hd
  rwa [← Option.some.inj hd]

theorem stripWhile_stripWhile (p : Char → Bool) (t : Text) :
    stripWhile p (stripWhile p t) = stripWhile p t :=
  stripWhile_eq_self (fun _ h => head?_stripWhile h) fun _ h => getLast?_stripWhile h

theorem trim_trim (t : Text) : trim (trim t) = trim t := stripWhile_stripWhile isSpace t

theorem dropEndWhile_append (t : Text) {b : Text} (h : b.all p = true) :
    dropEndWhile p (t ++ b) = dropEndWhile p t := by
  induction t with
  | nil => rw [List.nil_append, dropEndWhile_eq_nil_iff.2 h, dropEndWhile]
  | cons c t ih => rw [List.cons_append, dropEndWhile, dropEndWhile, ih]

theorem stripWhile_append (t : Text) {b : Text} (h : b.all p = true) :
    stripWhile p (t ++ b) = stripWhile p t := by
  have dropped : b.dropWhile p = [] := List.dropWhile_eq_nil_iff.2 (List.all_eq_true.1 h)
  rw [stripWhile, List.dropWhile_append, dropped]
  split
  · next empty => rw [stripWhile, List.isEmpty_iff.1 empty]
  · rw [dropEndWhile_append _ h, stripWhile]

end ImageAudit.Text
