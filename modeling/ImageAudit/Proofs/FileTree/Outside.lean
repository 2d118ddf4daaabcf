import ImageAudit.FileTree
import ImageAudit.Proofs.Basic
import Mathlib.Data.List.Infix

/-!
# Trees that differ in one entry

A path sees of a tree only the directories it leads through and what it leads to. So two trees that
differ in one entry of one directory look the same to every path that does not enter that entry.

* `FileTree.find?_append`: places are followed name by name.
* `FileTree.sameBut_put`: putting something into a directory changes one entry.
* `FileTree.SameBut.surface_look_eq`: what other paths see.
-/

namespace ImageAudit.FileTree

open Text

/-! ## Places -/

theorem find?_append (a b : List Text) (t : FileTree) :
    t.find? (a ++ b) = (t.find? a).bind (find? b) := by
  induction a generalizing t with
  | nil => rfl
  | cons n ns ih =>
    cases t with
    | directory es =>
      rw [List.cons_append, find?, find?]
      cases es.lookup n with
      | none => rfl
      | some x => exact ih x
    | _ => rfl

/-- What can be told of something without going into it. -/
def surface : FileTree → FileTree
  | directory _ => empty
  | x => x

/-- Whether two trees differ at most in the entry `name` of the directory at `d`: everywhere else
they have the same directories, and the same files with the same contents. -/
def SameBut (d : List Text) (name : Text) (t t' : FileTree) : Prop :=
  ∀ q, ¬ d ++ [name] <+: q → (t.find? q).map surface = (t'.find? q).map surface

/-- Whatever is put into a directory, there is nothing new anywhere else. -/
theorem sameBut_put {d : List Text} {t : FileTree} {es : List (Text × FileTree)}
    (there : t.find? d = some (directory es)) (name : Text) (x : FileTree) :
    SameBut d name t (put x (d ++ [name]) t) := by
  induction d generalizing t with
  | nil =>
    obtain rfl := Option.some.inj there
    intro q outside
    cases q with
    | nil => rfl
    | cons m ms =>
      have other : m ≠ name := by
        rintro rfl
        exact outside (List.prefix_append [m] ms)
      have passed : (m == name) = false := by simp [other]
      have kept : (m != name) = true := by simp [other]
      rw [List.nil_append, put, put, find?, find?, List.lookup_cons, passed]
      simp only [entries, lookup_filter (· != name) kept]
  | cons k ks ih =>
    cases t with
    | file c => cases there
    | barred f => cases there
    | directory fs =>
      rw [find?] at there
      obtain ⟨y, found, inside⟩ := Option.bind_eq_some_iff.1 there
      intro q outside
      cases q with
      | nil => rfl
      | cons m ms =>
        rw [List.cons_append, put, entries, found, Option.getD_some, find?, find?, List.lookup_cons]
        by_cases same : m = k
        · subst same
          rw [found, beq_self_eq_true]
          exact ih inside ms fun below => outside ((List.prefix_cons_inj m).2 below)
        · have kept : (m != k) = true := by simp [same]
          rw [beq_eq_false_iff_ne.2 same, lookup_filter (· != k) kept]

/-! ## Paths -/

/-- The names a path leads through. -/
def route (path : Text) : List Text :=
  if Path.isAbsolute path then root :: pieces '/' path else pieces '/' path

/-- What is wrong with a path in any tree. -/
def pathFault? (path : Text) : Option FileFault :=
  if path.contains '\x00' then some .nulInName
  else if path.isEmpty then some .missing
  else if 4096 ≤ byteLength path then some .nameTooLong
  else none

theorem resolve_eq (t : FileTree) (path : Text) :
    t.resolve path =
      match pathFault? path with
      | some f => .error f
      | none => (route path).foldlM t.step [] := by
  rw [resolve, origin, pathFault?, route]
  split
  · rfl
  · split
    · rfl
    · split
      · rfl
      · split <;> rfl

/-- Whether a path, on its way or at its end, enters the entry `name` of the directory at `d`. -/
def Enters (t : FileTree) (d : List Text) (name path : Text) : Prop :=
  ∃ before after, route path = before ++ name :: after ∧ before.foldlM t.step [] = .ok d

section

variable {t t' : FileTree} {d : List Text} {name : Text}

theorem not_enters_of_notMem {path : Text} (h : name ∉ route path) : ¬ t.Enters d name path :=
  fun ⟨_, _, split, _⟩ => h (split ▸ List.mem_append_right _ List.mem_cons_self)

theorem find?_concat (t : FileTree) (q : List Text) (n : Text) :
    t.find? (q ++ [n]) = (t.find? q).bind fun x => x.entries.lookup n := by
  rw [find?_append]
  congr 1
  funext x
  cases x with
  | directory es =>
    rw [find?, entries]
    cases es.lookup n <;> rfl
  | _ => rfl

/-- A step that does not enter the entry leads to the same place in both trees. -/
theorem SameBut.step_eq (same : SameBut d name t t') {q : List Text} {n : Text}
    (outside : ¬ d ++ [name] <+: q) (away : q ++ [n] ≠ d ++ [name]) :
    t.step q n = t'.step q n := by
  have here := same q outside
  have entry := same (q ++ [n]) fun inside =>
    (List.prefix_concat_iff.1 inside).elim (fun eq => away eq.symm) outside
  rw [find?_concat, find?_concat] at entry
  rw [step, step]
  cases old : t.find? q with
  | none =>
    cases new : t'.find? q with
    | none => rfl
    | some y => simp [old, new] at here
  | some x =>
    cases new : t'.find? q with
    | none => simp [old, new] at here
    | some y =>
      rw [old, new] at here entry
      cases x <;> cases y <;> simp only [surface, empty, Option.map_some, Option.some.injEq,
        reduceCtorEq, barred.injEq] at here
      case file.file => rfl
      case barred.barred => rw [here]
      case directory.directory es fs =>
        -- Of the entries it only matters whether one of this name is there.
        have : (es.lookup n).isSome = (fs.lookup n).isSome := by
          simpa [entries] using congrArg Option.isSome entry
        simp only [this]

theorem outside_of_step {q r : List Text} {n : Text} (outside : ¬ d ++ [name] <+: q)
    (away : q ++ [n] ≠ d ++ [name]) (h : t.step q n = .ok r) : ¬ d ++ [name] <+: r := by
  have up : ¬ d ++ [name] <+: q.dropLast := fun inside => outside (inside.trans q.dropLast_prefix)
  have down : ¬ d ++ [name] <+: q ++ [n] := fun inside =>
    (List.prefix_concat_iff.1 inside).elim (fun eq => away eq.symm) outside
  rw [step] at h
  split at h
  · cases h
  · cases h
  · cases h
  · split at h
    · cases h
      exact outside
    · split at h
      · cases h
        exact outside
      · split at h
        · cases h
          exact up
        · split at h
          · cases h
          · split at h
            · cases h
              exact down
            · cases h

/-- Names that never enter the entry lead to the same place in both trees. -/
theorem SameBut.foldlM_step_eq (same : SameBut d name t t') (names : List Text) {q : List Text}
    (outside : ¬ d ++ [name] <+: q)
    (clear : ∀ before after, names = before ++ name :: after → before.foldlM t.step q ≠ .ok d) :
    names.foldlM t.step q = names.foldlM t'.step q ∧
      ∀ r, names.foldlM t.step q = .ok r → ¬ d ++ [name] <+: r := by
  induction names generalizing q with
  | nil => exact ⟨rfl, fun r h => by cases h; exact outside⟩
  | cons n ns ih =>
    have away : q ++ [n] ≠ d ++ [name] := by
      intro entered
      obtain ⟨rfl, last⟩ := List.append_inj' entered rfl
      obtain rfl := List.singleton_inj.1 last
      exact clear [] ns rfl rfl
    rw [List.foldlM_cons, List.foldlM_cons, ← same.step_eq outside away]
    cases next : t.step q n with
    | error f => exact ⟨rfl, nofun⟩
    | ok r =>
      refine ih (outside_of_step outside away next) fun before after split reached => ?_
      refine clear (n :: before) after (by rw [split]; rfl) ?_
      rw [List.foldlM_cons, next]
      exact reached

theorem SameBut.resolve_eq (same : SameBut d name t t') {path : Text}
    (clear : ¬ t.Enters d name path) :
    t.resolve path = t'.resolve path ∧
      ∀ r, t.resolve path = .ok r → (t.find? r).map surface = (t'.find? r).map surface := by
  have start : ¬ d ++ [name] <+: [] := by simp
  obtain ⟨eq, outside⟩ := same.foldlM_step_eq (route path) start
    fun before after split reached => clear ⟨before, after, split, reached⟩
  rw [FileTree.resolve_eq, FileTree.resolve_eq]
  cases pathFault? path with
  | some f => exact ⟨rfl, nofun⟩
  | none => exact ⟨eq, fun r reached => same r (outside r reached)⟩

/-- What a path sees of the surface of what it leads to. -/
def glance : Option FileTree → Except FileFault FileTree
  | some (barred f) => .error f
  | some x => .ok x
  | none => .error .missing

theorem map_surface_look (t : FileTree) (path : Text) :
    (t.look path).map surface =
      (t.resolve path).bind fun place => glance ((t.find? place).map surface) := by
  rw [look]
  cases t.resolve path with
  | error f => rfl
  | ok place =>
    simp only [bind, Except.bind]
    rcases t.find? place with _ | (_ | _ | _) <;> rfl

/-- A path that does not enter the entry sees the same in both trees. -/
theorem SameBut.surface_look_eq (same : SameBut d name t t') {path : Text}
    (clear : ¬ t.Enters d name path) :
    (t.look path).map surface = (t'.look path).map surface := by
  obtain ⟨eq, seen⟩ := same.resolve_eq clear
  rw [map_surface_look, map_surface_look, ← eq]
  cases reached : t.resolve path with
  | error f => rfl
  | ok r => exact congrArg glance (seen r reached)

end

/-! ## Reading -/

theorem isDirectory_eq (t : FileTree) (path : Text) :
    t.isDirectory path =
      match (t.look path).map surface with
      | .ok (directory _) => true
      | _ => false := by
  rw [isDirectory]
  rcases t.look path with f | (_ | _ | _) <;> rfl

theorem read_eq (t : FileTree) (path : Text) :
    t.read path =
      match (t.look path).map surface with
      | .ok (file (some text)) => .ok text
      | .ok (file none) => .error .notText
      | .ok (directory _) => .error .isADirectory
      | .ok (barred f) => .error f
      | .error f => .error f := by
  rw [read]
  rcases t.look path with f | ((_ | _) | _ | _) <;> rfl

end ImageAudit.FileTree
