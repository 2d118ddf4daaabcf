import ImageAudit.Report.Latex
import Mathlib.Algebra.Order.Floor.Div
import Mathlib.Data.List.ReduceOption

/-!
# Escaped texts

An escaped text is a row of marks: the characters of the text, and the breaks between them. No mark
runs into the next one, so that a reader finds every mark again, and with them the text.

* `unescape?` reads escaped texts and refuses all that would be active in LaTeX.
* `unescape?_flatMap_written`: what is written mark by mark is read back.
* `marksFrom_split`, `exists_of_marksFrom_eq`: where the breaks stand.
* `escape_lossless`: what holds of escaped texts.
-/

namespace ImageAudit.Latex

open Text

/-! ## Reading -/

/-- The characters that are active in LaTeX. -/
def active : List Char := ['\\', '~', '^', '&', '%', '$', '#', '_', '\x7b', '\x7d']

/-- The sequences that a backslash begins, each with the character it stands for; a break stands for
none. -/
def sequences : List (Text × Option Char) :=
  [("\\allowbreak ".toList, none),
    ("\\textbackslash\x7b\x7d".toList, some '\\'),
    ("\\textasciitilde\x7b\x7d".toList, some '~'),
    ("\\textasciicircum\x7b\x7d".toList, some '^'),
    ("\\&".toList, some '&'), ("\\%".toList, some '%'), ("\\$".toList, some '$'),
    ("\\#".toList, some '#'), ("\\_".toList, some '_'),
    ("\\\x7b".toList, some '\x7b'), ("\\\x7d".toList, some '\x7d')]

/-- Reads the sequence at the front of a text. -/
def sequence? (t : Text) : Option (Option Char × Text) :=
  sequences.findSome? fun s => (dropPrefix? s.1 t).map fun r => (s.2, r)

theorem exists_of_sequence? {t r : Text} {m : Option Char} (found : sequence? t = some (m, r)) :
    ∃ s, (s, m) ∈ sequences ∧ t = s ++ r := by
  obtain ⟨⟨s, n⟩, listed, read⟩ := List.exists_of_findSome?_eq_some found
  obtain ⟨rest, dropped, same⟩ := Option.map_eq_some_iff.1 read
  obtain ⟨rfl, rfl⟩ := Prod.mk.inj same
  exact ⟨s, listed, dropPrefix?_eq_some_iff.1 dropped⟩

theorem length_lt_of_sequence? {t r : Text} {m : Option Char}
    (found : sequence? t = some (m, r)) : r.length < t.length := by
  obtain ⟨s, listed, rfl⟩ := exists_of_sequence? found
  have filled : ∀ e ∈ sequences, 0 < e.1.length := by decide
  have := filled (s, m) listed
  simp only [List.length_append] at this ⊢
  omega

/-- Reads an escaped text. An active character has to belong to a sequence. -/
def unescape? : Text → Option Text
  | [] => some []
  | c :: r =>
    match _h : sequence? (c :: r) with
    | some (m, rest) => (unescape? rest).map (m.toList ++ ·)
    | none => if active.contains c then none else (unescape? r).map (c :: ·)
termination_by t => t.length
decreasing_by
  · exact length_lt_of_sequence? _h
  · exact Nat.lt_succ_self _

theorem sequence?_append {s : Text} {m : Option Char} (listed : (s, m) ∈ sequences) (r : Text) :
    sequence? (s ++ r) = some (m, r) := by
  simp only [sequences, List.mem_cons, List.not_mem_nil, or_false, Prod.mk.injEq] at listed
  rcases listed with h | h | h | h | h | h | h | h | h | h | h <;> obtain ⟨rfl, rfl⟩ := h <;> rfl

theorem sequence?_cons_of_ne {c : Char} (other : c ≠ '\\') (r : Text) :
    sequence? (c :: r) = none := by
  cases found : sequence? (c :: r) with
  | none => rfl
  | some p =>
    obtain ⟨s, listed, split⟩ := exists_of_sequence? found
    have begins : ∀ e ∈ sequences, e.1.head? = some '\\' := by decide
    have first := congrArg List.head? split
    rw [List.head?_append, begins _ listed] at first
    exact absurd (Option.some.inj first) other

theorem unescape?_of_sequence? {t r : Text} {m : Option Char}
    (found : sequence? t = some (m, r)) : unescape? t = (unescape? r).map (m.toList ++ ·) := by
  cases t with
  | nil => cases found
  | cons c t =>
    rw [unescape?]
    split
    · next same =>
      obtain ⟨rfl, rfl⟩ := Prod.mk.inj (Option.some.inj (found.symm.trans same))
      rfl
    · next none_found =>
      rw [found] at none_found
      cases none_found

theorem unescape?_cons_of_notMem {c : Char} (ordinary : c ∉ active) (r : Text) :
    unescape? (c :: r) = (unescape? r).map (c :: ·) := by
  have other : c ≠ '\\' := fun same => ordinary (same ▸ by decide)
  rw [unescape?]
  split
  · next found =>
    rw [sequence?_cons_of_ne other] at found
    cases found
  · rw [if_neg (by simpa using ordinary)]

/-! ## Marks -/

/-- How a mark is written: a character of the text, or a break. -/
def written : Option Char → Text
  | some c => escapeChar c
  | none => lineBreak

theorem mem_sequences_of_mem_active : ∀ c ∈ active, (escapeChar c, some c) ∈ sequences :=
  List.forall_iff_forall_mem.1 (by decide)

theorem escapeChar_of_notMem {c : Char} (ordinary : c ∉ active) : escapeChar c = [c] := by
  simp only [active, List.mem_cons, List.not_mem_nil, or_false, not_or] at ordinary
  simp [escapeChar, isActive, ordinary]

/-- A mark is a sequence, or a character that is not active and stands for itself. -/
theorem written_cases (m : Option Char) :
    (written m, m) ∈ sequences ∨ ∃ c, m = some c ∧ c ∉ active ∧ written m = [c] := by
  cases m with
  | none => exact .inl (by decide)
  | some c =>
    by_cases special : c ∈ active
    · exact .inl (mem_sequences_of_mem_active c special)
    · exact .inr ⟨c, rfl, special, escapeChar_of_notMem special⟩

/-- A backslash stands at the front of a mark or not at all. -/
theorem exists_written (m : Option Char) : ∃ c s, written m = c :: s ∧ '\\' ∉ s := by
  rcases written_cases m with listed | ⟨c, -, -, alone⟩
  · have parts : ∀ e ∈ sequences, e.1 ≠ [] ∧ '\\' ∉ e.1.tail := by decide
    obtain ⟨filled, single⟩ := parts _ listed
    obtain ⟨c, s, same⟩ := List.exists_cons_of_ne_nil filled
    rw [same] at single
    exact ⟨c, s, same, single⟩
  · exact ⟨c, [], alone, List.not_mem_nil⟩

theorem eq_nil_of_written {m : Option Char} {x y : Text} (split : written m = x ++ '\\' :: y) :
    x = [] := by
  obtain ⟨c, s, same, single⟩ := exists_written m
  cases x with
  | nil => rfl
  | cons d x =>
    obtain ⟨-, rfl⟩ := List.cons.inj (same.symm.trans split)
    exact absurd (List.mem_append_right x List.mem_cons_self) single

theorem unescape?_written_append (m : Option Char) (r : Text) :
    unescape? (written m ++ r) = (unescape? r).map (m.toList ++ ·) := by
  rcases written_cases m with listed | ⟨c, rfl, ordinary, alone⟩
  · exact unescape?_of_sequence? (sequence?_append listed r)
  · rw [alone]
    exact unescape?_cons_of_notMem ordinary r

/-- What is written mark by mark is read back, and the breaks are left out. -/
theorem unescape?_flatMap_written (ms : List (Option Char)) :
    unescape? (ms.flatMap written) = some ms.reduceOption := by
  induction ms with
  | nil =>
    rw [List.flatMap_nil, unescape?]
    rfl
  | cons m ms ih =>
    rw [List.flatMap_cons, unescape?_written_append, ih]
    cases m <;> rfl

/-! ## Places -/

/-- A character of what is written stands in one of the marks. -/
theorem exists_mark {ms : List (Option Char)} {a b : Text} {c : Char}
    (split : ms.flatMap written = a ++ c :: b) :
    ∃ before m after x y, ms = before ++ m :: after ∧ written m = x ++ c :: y ∧
      a = before.flatMap written ++ x ∧ b = y ++ after.flatMap written := by
  induction ms generalizing a with
  | nil => simp at split
  | cons m ms ih =>
    rw [List.flatMap_cons] at split
    -- The character stands after the first mark or in it.
    have later (u : Text) (beyond : a = written m ++ u)
        (rest : ms.flatMap written = u ++ c :: b) :
        ∃ before n after x y, m :: ms = before ++ n :: after ∧ written n = x ++ c :: y ∧
          a = before.flatMap written ++ x ∧ b = y ++ after.flatMap written := by
      obtain ⟨before, n, after, x, y, rfl, here, left, right⟩ := ih rest
      exact ⟨m :: before, n, after, x, y, rfl, here, by
        rw [beyond, left, List.flatMap_cons, List.append_assoc], right⟩
    rcases List.append_eq_append_iff.1 split with ⟨u, beyond, rest⟩ | ⟨s, inside, rest⟩
    · exact later u beyond rest
    · cases s with
      | nil =>
        rw [List.append_nil] at inside
        exact later [] (by rw [List.append_nil, inside]) rest.symm
      | cons d y =>
        obtain ⟨rfl, rfl⟩ := List.cons.inj rest
        exact ⟨[], m, ms, a, y, rfl, inside, rfl, rfl⟩

/-- Whether every active character of a text belongs to a sequence, which a backslash begins. -/
def IsGuarded (t : Text) : Prop :=
  ∀ a c b, t = a ++ c :: b → c ∈ active →
    ∃ e ∈ sequences, ∃ before x y after, e.1 = x ++ c :: y ∧ a = before ++ x ∧ b = y ++ after ∧
      (c = '\\' → x = [])

theorem isGuarded_flatMap_written (ms : List (Option Char)) : IsGuarded (ms.flatMap written) := by
  intro a c b split special
  obtain ⟨before, m, after, x, y, -, here, left, right⟩ := exists_mark split
  rcases written_cases m with listed | ⟨d, -, ordinary, alone⟩
  · refine ⟨_, listed, before.flatMap written, x, y, after.flatMap written, here, left, right, ?_⟩
    rintro rfl
    exact eq_nil_of_written here
  · -- A character that stands for itself is not active.
    rw [alone] at here
    obtain rfl : c = d := List.mem_singleton.1 (here ▸ List.mem_append_right x List.mem_cons_self)
    exact absurd special ordinary

/-! ## Breaks -/

theorem startsWith_written_append (m : Option Char) (r : Text) :
    startsWith lineBreak (written m ++ r) = m.isNone := by
  rw [startsWith]
  rcases written_cases m with listed | ⟨c, rfl, ordinary, alone⟩
  · -- No other sequence begins like a break.
    have first := sequence?_append listed r
    cases begins : dropPrefix? lineBreak (written m ++ r) with
    | some b =>
      rw [dropPrefix?_eq_some_iff.1 begins, sequence?_append (by decide : (lineBreak, none) ∈ _)]
        at first
      rw [← (Prod.mk.inj (Option.some.inj first)).1]
      rfl
    | none =>
      cases m with
      | some c => rfl
      | none =>
        rw [written, dropPrefix?_eq_some_iff.2 rfl] at begins
        cases begins
  · have other : c ≠ '\\' := fun same => ordinary (same ▸ by decide)
    rw [alone]
    exact congrArg Option.isSome (if_neg (Ne.symm other))

theorem flatMap_written_eq_append_lineBreak_iff {ms : List (Option Char)} {a b : Text} :
    ms.flatMap written = a ++ lineBreak ++ b ↔
      ∃ before after, ms = before ++ none :: after ∧ a = before.flatMap written ∧
        b = after.flatMap written := by
  constructor
  · intro split
    rw [List.append_assoc] at split
    obtain ⟨before, m, after, x, y, rfl, here, rfl, right⟩ := exists_mark split
    obtain rfl := eq_nil_of_written here
    have same : written m ++ after.flatMap written = lineBreak ++ b := by
      rw [here, List.nil_append, List.cons_append, ← right]
      rfl
    have starts : startsWith lineBreak (written m ++ after.flatMap written) = true := by
      rw [same, startsWith, dropPrefix?_eq_some_iff.2 rfl]
      rfl
    rw [startsWith_written_append, Option.isNone_iff_eq_none] at starts
    subst starts
    exact ⟨before, after, rfl, by rw [List.append_nil], (List.append_cancel_left same).symm⟩
  · rintro ⟨before, after, rfl, rfl, rfl⟩
    rw [List.flatMap_append, List.flatMap_cons, List.append_assoc]
    rfl

/-- The number of breaks in a text. -/
def breakCount (t : Text) : Nat := t.tails.countP (startsWith lineBreak)

theorem breakCount_append_of_notMem {s : Text} (lacks : '\\' ∉ s) (r : Text) :
    breakCount (s ++ r) = breakCount r := by
  induction s with
  | nil => rfl
  | cons c s ih =>
    rw [List.mem_cons, not_or] at lacks
    have none_here : startsWith lineBreak (c :: (s ++ r)) = false :=
      congrArg Option.isSome (if_neg lacks.1)
    rw [List.cons_append, breakCount, List.tails_cons,
      List.countP_cons_of_neg (by simp [none_here])]
    exact ih lacks.2

theorem breakCount_flatMap_written (ms : List (Option Char)) :
    breakCount (ms.flatMap written) = ms.count none := by
  induction ms with
  | nil => rfl
  | cons m ms ih =>
    obtain ⟨c, s, same, single⟩ := exists_written m
    have first := startsWith_written_append m (ms.flatMap written)
    rw [same, List.cons_append] at first
    rw [List.flatMap_cons, same, List.cons_append, breakCount, List.tails_cons, List.countP_cons,
      first, List.count_cons, ← ih]
    congr 1
    · exact breakCount_append_of_notMem single _
    · cases m <;> rfl

/-! ## Where breaks are put -/

/-- The marks of a text, with a break after `room` more characters, and then after every `width`
characters, as long as there are more. -/
def marksFrom (width : Nat) : (room : Nat) → Text → List (Option Char)
  | _, [] => []
  | 0, c :: r => none :: some c :: marksFrom width (width - 1) r
  | room + 1, c :: r => some c :: marksFrom width room r

@[simp] theorem marksFrom_nil (width room : Nat) : marksFrom width room [] = [] := by
  cases room <;> rfl

theorem escapeFrom_eq (width room : Nat) (t : Text) :
    escapeFrom width room t = (marksFrom width room t).flatMap written := by
  fun_induction escapeFrom width room t with
  | case1 room => rw [marksFrom_nil, List.flatMap_nil]
  | case2 c r ih => rw [ih, marksFrom, List.flatMap_cons, List.flatMap_cons, List.append_assoc]; rfl
  | case3 room c r ih => rw [ih, marksFrom, List.flatMap_cons]; rfl

theorem reduceOption_marksFrom (width room : Nat) (t : Text) :
    (marksFrom width room t).reduceOption = t := by
  fun_induction marksFrom width room t with
  | case1 room => rfl
  | case2 c r ih => rw [List.reduceOption_cons_of_none, List.reduceOption_cons_of_some, ih]
  | case3 room c r ih => rw [List.reduceOption_cons_of_some, ih]

theorem marksFrom_zero {width : Nat} (wide : 0 < width) {t : Text} (filled : t ≠ []) :
    marksFrom width 0 t = none :: marksFrom width width t := by
  obtain ⟨c, r, rfl⟩ := List.exists_cons_of_ne_nil filled
  obtain ⟨n, rfl⟩ := Nat.exists_eq_add_of_lt wide
  rw [marksFrom, marksFrom]
  simp

/-- A text may be parted where a break is due. -/
theorem marksFrom_split {width : Nat} (wide : 0 < width) {room k : Nat} {t : Text}
    (longer : room + k * width < t.length) :
    marksFrom width room t =
      marksFrom width room (t.take (room + k * width)) ++
        none :: marksFrom width width (t.drop (room + k * width)) := by
  fun_induction marksFrom width room t generalizing k with
  | case1 room => cases longer
  | case2 c r ih =>
    cases k with
    | zero => simpa [marksFrom] using marksFrom_zero wide (List.cons_ne_nil c r)
    | succ k =>
      have next : 0 + (k + 1) * width = width - 1 + k * width + 1 := by
        rw [Nat.succ_mul]
        omega
      rw [next] at longer ⊢
      rw [List.take_succ_cons, List.drop_succ_cons, marksFrom, ih (Nat.lt_of_succ_lt_succ longer)]
      rfl
  | case3 room c r ih =>
    rw [Nat.succ_add] at longer ⊢
    rw [List.take_succ_cons, List.drop_succ_cons, marksFrom, ih (Nat.lt_of_succ_lt_succ longer)]
    rfl

/-- A break is put nowhere else. -/
theorem exists_of_marksFrom_eq {width : Nat} (wide : 0 < width) {room : Nat} {t : Text}
    {before after : List (Option Char)} (split : marksFrom width room t = before ++ none :: after) :
    ∃ k, room + k * width < t.length ∧
      before = marksFrom width room (t.take (room + k * width)) ∧
      after = marksFrom width width (t.drop (room + k * width)) := by
  fun_induction marksFrom width room t generalizing before with
  | case1 room => simp at split
  | case2 c r ih =>
    rcases List.cons_eq_append_iff.1 split with ⟨rfl, same⟩ | ⟨before, rfl, rest⟩
    · refine ⟨0, by simp, by simp, ?_⟩
      have whole := marksFrom_zero wide (List.cons_ne_nil c r)
      rw [marksFrom, ← same] at whole
      simpa using (List.cons.inj whole).2
    · rcases List.cons_eq_append_iff.1 rest with ⟨rfl, same⟩ | ⟨before, rfl, rest⟩
      · cases (List.cons.inj same).1
      · obtain ⟨k, longer, left, right⟩ := ih (List.cons.inj rest).2
        have next : 0 + (k + 1) * width = width - 1 + k * width + 1 := by
          rw [Nat.succ_mul]
          omega
        refine ⟨k + 1, ?_, ?_, ?_⟩
        · rw [next]
          exact Nat.succ_lt_succ longer
        · rw [next, List.take_succ_cons, marksFrom, ← left]
        · rw [next, List.drop_succ_cons, right]
  | case3 room c r ih =>
    rcases List.cons_eq_append_iff.1 split with ⟨rfl, same⟩ | ⟨before, rfl, rest⟩
    · cases (List.cons.inj same).1
    · obtain ⟨k, longer, left, right⟩ := ih rest
      refine ⟨k, ?_, ?_, ?_⟩
      · rw [Nat.succ_add]
        exact Nat.succ_lt_succ longer
      · rw [Nat.succ_add, List.take_succ_cons, marksFrom, ← left]
      · rw [Nat.succ_add, List.drop_succ_cons, right]

theorem count_none_marksFrom {width : Nat} (wide : 0 < width) {room : Nat} (within : room ≤ width)
    (t : Text) : (marksFrom width room t).count none = (t.length + width - 1 - room) / width := by
  fun_induction marksFrom width room t with
  | case1 room =>
    rw [List.count_nil, List.length_nil, Nat.div_eq_of_lt]
    omega
  | case2 c r ih =>
    have here : (c :: r).length + width - 1 - 0 = r.length + width := by
      rw [List.length_cons]
      omega
    have later : r.length + width - 1 - (width - 1) = r.length := by omega
    rw [List.count_cons_self, List.count_cons_of_ne (by simp), ih (Nat.sub_le width 1), here, later,
      Nat.add_div_right _ wide]
  | case3 room c r ih =>
    have same : (c :: r).length + width - 1 - room.succ = r.length + width - 1 - room := by
      rw [List.length_cons]
      omega
    rw [List.count_cons_of_ne (by simp), ih (Nat.le_of_succ_le within), same]

/-! ## Escaped texts -/

/-- An escaped text is its marks, written one after the other. -/
theorem escape_eq (t : Text) (width : Nat) :
    escape t width = (marksFrom (max width 1) (max width 1) t).flatMap written :=
  escapeFrom_eq _ _ t

theorem unescape?_escape (t : Text) (width : Nat) : unescape? (escape t width) = some t := by
  rw [escape_eq, unescape?_flatMap_written, reduceOption_marksFrom]

theorem escape_injective (width : Nat) : Function.Injective fun t => escape t width := by
  intro t u same
  have := congrArg unescape? same
  simp only [unescape?_escape] at this
  exact Option.some.inj this

theorem breakCount_escape (t : Text) (width : Nat) :
    breakCount (escape t width) = t.length ⌈/⌉ max width 1 - 1 := by
  have wide : 0 < max width 1 := by omega
  rw [escape_eq, breakCount_flatMap_written, count_none_marksFrom wide (Nat.le_refl _),
    Nat.ceilDiv_eq_add_pred_div]
  simpa using Nat.sub_mul_div (t.length + max width 1 - 1) (max width 1) 1

theorem escape_eq_append_lineBreak_iff {t a b : Text} {width : Nat} :
    escape t width = a ++ lineBreak ++ b ↔
      ∃ k, 0 < k ∧ k * max width 1 < t.length ∧ a = escape (t.take (k * max width 1)) width ∧
        b = escape (t.drop (k * max width 1)) width := by
  have wide : 0 < max width 1 := by omega
  have from_one (k : Nat) : (k + 1) * max width 1 = max width 1 + k * max width 1 := by
    rw [Nat.succ_mul, Nat.add_comm]
  simp only [escape_eq]
  rw [flatMap_written_eq_append_lineBreak_iff]
  constructor
  · rintro ⟨before, after, split, rfl, rfl⟩
    obtain ⟨k, longer, rfl, rfl⟩ := exists_of_marksFrom_eq wide split
    exact ⟨k + 1, Nat.succ_pos k, by rwa [from_one], by rw [from_one], by rw [from_one]⟩
  · rintro ⟨k, some_break, longer, rfl, rfl⟩
    obtain ⟨k, rfl⟩ := Nat.exists_eq_succ_of_ne_zero (Nat.ne_of_gt some_break)
    rw [Nat.succ_eq_add_one, from_one] at longer ⊢
    exact ⟨_, _, marksFrom_split wide longer, rfl, rfl⟩

/-- Whatever the width, a text is read back from what is written, so that different texts are
written differently. Every character that is active in LaTeX belongs to a sequence; a backslash
begins one. There is a break after every `max width 1` characters that are not the last ones, with
the two parts escaped on its sides, and there is no other break. -/
theorem escape_lossless (width : Nat) :
    (∀ t, unescape? (escape t width) = some t) ∧
      (Function.Injective fun t => escape t width) ∧
      (∀ t, IsGuarded (escape t width)) ∧
      (∀ t a b, escape t width = a ++ lineBreak ++ b ↔
        ∃ k, 0 < k ∧ k * max width 1 < t.length ∧ a = escape (t.take (k * max width 1)) width ∧
          b = escape (t.drop (k * max width 1)) width) ∧
      ∀ t, breakCount (escape t width) = t.length ⌈/⌉ max width 1 - 1 := by
  refine ⟨fun t => unescape?_escape t width, escape_injective width, fun t => ?_,
    fun t a b => escape_eq_append_lineBreak_iff, fun t => breakCount_escape t width⟩
  rw [escape_eq]
  exact isGuarded_flatMap_written _

end ImageAudit.Latex
