import ImageAudit.Proofs.Text.Lines
import ImageAudit.Shell.Command
import Mathlib.Logic.Relation

/-!
# What a call of a package manager depends on

A command is searched three times over: for the name of a package manager, from there on for a word
that installs or removes, and from there on for packages. Words in front of the name, flags anywhere
and versions of packages make no difference to what is found.

* `packageCall?_insert_flag`: flags are passed over by all three searches.
* `HasSubcommand.packageCall?_append`: how the words that decide fix the call.
* `packageCall?_eq_of_edits`: a command may be edited in these ways as often as one likes.
-/

namespace ImageAudit.Shell

open Text

variable {m : PackageManager} {w f : Text} {ws us before between front rest : List Text}

/-! ## Names and subcommands -/

namespace PackageManager

/-- The words that decide what a call does. -/
def actionWords (m : PackageManager) : List Text := m.installWords ++ m.removeWords

/-- Whether a word is no package manager's name. -/
def NamesNone (w : Text) : Prop := ∀ m : PackageManager, w ≠ m.name

@[simp] theorem ofName?_name (m : PackageManager) : ofName? m.name = some m := by
  cases m <;> rfl

theorem ofName?_eq_none_iff : ofName? w = none ↔ NamesNone w := by
  constructor
  · rintro none m rfl
    simp at none
  · intro others
    rw [ofName?, List.find?_eq_none]
    intro m _ named
    exact others m (beq_iff_eq.1 named).symm

end PackageManager

open PackageManager

theorem isFlag_of_mem_actionWords (decides : w ∈ m.actionWords) : isFlag w = false := by
  have plain : ∀ m ∈ PackageManager.all, ∀ w ∈ m.actionWords, isFlag w = false := by decide
  have known : m ∈ PackageManager.all := by cases m <;> decide
  exact plain m known w decides

theorem actionOf?_eq_none_iff : actionOf? m w = none ↔ w ∉ m.actionWords := by
  by_cases flag : isFlag w = true
  · have other : w ∉ m.actionWords := fun decides => by
      rw [isFlag_of_mem_actionWords decides] at flag
      cases flag
    simp [actionOf?, flag, other]
  · by_cases installs : w ∈ m.installWords <;> by_cases removes : w ∈ m.removeWords <;>
      simp [actionOf?, actionWords, flag, installs, removes]

theorem exists_actionOf? (decides : w ∈ m.actionWords) : ∃ action, actionOf? m w = some action := by
  rw [← Option.ne_none_iff_exists', ne_eq, actionOf?_eq_none_iff]
  exact not_not_intro decides

/-! ## The three searches -/

theorem packageCall?_append (others : ∀ w ∈ before, NamesNone w) (ws : List Text) :
    packageCall? (before ++ ws) = packageCall? ws := by
  induction before with
  | nil => rfl
  | cons w before ih =>
    have none_here := ofName?_eq_none_iff.2 (others w List.mem_cons_self)
    simp only [List.cons_append, packageCall?, none_here]
    exact ih fun v member => others v (List.mem_cons_of_mem w member)

theorem callOf_append (passed : ∀ w ∈ between, w ∉ m.actionWords) (ws : List Text) :
    callOf m (between ++ ws) = callOf m ws := by
  induction between with
  | nil => rfl
  | cons w between ih =>
    have none_here := actionOf?_eq_none_iff.2 (passed w List.mem_cons_self)
    simp only [List.cons_append, callOf, none_here]
    exact ih fun v member => passed v (List.mem_cons_of_mem w member)

theorem packagesOf_append (ws us : List Text) :
    packagesOf (ws ++ us) = packagesOf ws ++ packagesOf us := by
  simp [packagesOf]

/-! ## Flags -/

section

variable (flag : isFlag f = true)
include flag

theorem head?_of_isFlag : f.head? = some '-' := by
  simp only [isFlag, Bool.and_eq_true, beq_iff_eq] at flag
  exact flag.1.1

theorem ofName?_of_isFlag : ofName? f = none := by
  rw [ofName?_eq_none_iff]
  rintro m rfl
  have hyphen := head?_of_isFlag flag
  cases m <;> cases hyphen

theorem packagesOf_insert_flag (front rest : List Text) :
    packagesOf (front ++ f :: rest) = packagesOf (front ++ rest) := by
  simp [packagesOf, flag]

theorem callOf_insert_flag (front rest : List Text) :
    callOf m (front ++ f :: rest) = callOf m (front ++ rest) := by
  induction front with
  | nil =>
    have passed : actionOf? m f = none := by simp [actionOf?, flag]
    simp only [List.nil_append, callOf, passed]
  | cons w front ih =>
    simp only [List.cons_append, callOf]
    cases actionOf? m w with
    | none => exact ih
    | some action => simp only [packagesOf_insert_flag flag]

theorem packageCall?_insert_flag (front rest : List Text) :
    packageCall? (front ++ f :: rest) = packageCall? (front ++ rest) := by
  induction front with
  | nil => simp only [List.nil_append, packageCall?, ofName?_of_isFlag flag]
  | cons w front ih =>
    simp only [List.cons_append, packageCall?]
    cases ofName? w with
    | none => exact ih
    | some m => simp only [callOf_insert_flag flag]

end

/-! ## Versions -/

/-- Whether words name a package manager and after that decide what it does: the name is the first
one of a package manager, and the word that decides is the manager's first that installs or
removes. -/
inductive HasSubcommand : List Text → Prop where
  | intro (before : List Text) (m : PackageManager) (between : List Text) (w : Text)
      (arguments : List Text) (others : ∀ v ∈ before, NamesNone v)
      (passed : ∀ v ∈ between, v ∉ m.actionWords) (decides : w ∈ m.actionWords) :
      HasSubcommand (before ++ m.name :: (between ++ w :: arguments))

/-- Once it is decided what a call does, the words that follow only add packages. -/
theorem HasSubcommand.packageCall?_append (decided : HasSubcommand front) :
    ∃ m action packages, ∀ rest, packageCall? (front ++ rest) =
      some ⟨m, some action, packages ++ packagesOf rest⟩ := by
  obtain ⟨before, m, between, w, arguments, others, passed, decides⟩ := decided
  obtain ⟨action, found⟩ := exists_actionOf? decides
  refine ⟨m, action, packagesOf arguments, fun rest => ?_⟩
  calc packageCall? (before ++ m.name :: (between ++ w :: arguments) ++ rest)
      = packageCall? (m.name :: (between ++ (w :: (arguments ++ rest)))) := by
        rw [List.append_assoc, Shell.packageCall?_append others]
        simp
    _ = some (callOf m (w :: (arguments ++ rest))) := by
        simp only [packageCall?, ofName?_name, callOf_append passed]
    _ = some ⟨m, some action, packagesOf arguments ++ packagesOf rest⟩ := by
        simp only [callOf, found, packagesOf_append]

/-- A word that names a package without its version. -/
structure IsUnpinned (w : Text) : Prop where
  filled : w ≠ []
  no_hyphen : w.head? ≠ some '-'
  no_version : '=' ∉ w

theorem IsUnpinned.packageName_eq (h : IsUnpinned w) : packageName w = w := by
  simp [packageName, cut_eq_none_iff.2 h.no_version]

theorem IsUnpinned.packageName_pinned (h : IsUnpinned w) (version : Text) :
    packageName (w ++ '=' :: version) = w := by
  have parted : cut '=' (w ++ '=' :: version) = some (w, version) :=
    cut_eq_some_iff.2 ⟨rfl, h.no_version⟩
  simp [packageName, parted]

theorem isFlag_of_head? {t : Text} (no_hyphen : t.head? ≠ some '-') : isFlag t = false := by
  simp [isFlag, no_hyphen]

theorem IsUnpinned.packagesOf_pinned (h : IsUnpinned w) (version : Text) (rest : List Text) :
    packagesOf ((w ++ '=' :: version) :: rest) = packagesOf (w :: rest) := by
  have pinned_head : (w ++ '=' :: version).head? ≠ some '-' := by
    obtain ⟨c, r, rfl⟩ := List.exists_cons_of_ne_nil h.filled
    exact h.no_hyphen
  simp [packagesOf, isFlag_of_head? pinned_head, isFlag_of_head? h.no_hyphen, h.packageName_eq,
    h.packageName_pinned]

/-! ## Edits -/

/-- Edits of a command: words are put in front of it, a flag is put in, or a package that is named
after the deciding word gets a version. -/
inductive Edit : List Text → List Text → Prop where
  | prepend {before : List Text} (others : ∀ w ∈ before, NamesNone w) (ws : List Text) :
      Edit ws (before ++ ws)
  | flag {f : Text} (flag : isFlag f = true) (front rest : List Text) :
      Edit (front ++ rest) (front ++ f :: rest)
  | pin {front : List Text} {w : Text} (decided : HasSubcommand front) (unpinned : IsUnpinned w)
      (version : Text) (rest : List Text) :
      Edit (front ++ w :: rest) (front ++ (w ++ '=' :: version) :: rest)

theorem packageCall?_eq_of_edit (edit : Edit ws us) : packageCall? us = packageCall? ws := by
  cases edit with
  | prepend others => exact packageCall?_append others ws
  | flag flag front rest => exact packageCall?_insert_flag flag front rest
  | pin decided unpinned version rest =>
    obtain ⟨m, action, packages, calls⟩ := decided.packageCall?_append
    rw [calls, calls, unpinned.packagesOf_pinned]

/-- A command that is edited, however often and wherever, calls the same package manager with the
same action and the same packages, or none as before. -/
theorem packageCall?_eq_of_edits (edits : Relation.ReflTransGen Edit ws us) :
    packageCall? us = packageCall? ws := by
  induction edits with
  | refl => rfl
  | tail _ last ih => rw [packageCall?_eq_of_edit last, ih]

/-- A prefix, flags before and behind the deciding word, and a version with an equals sign. -/
theorem packageCall?_eq_of_edits_of_pin :
    let plain := ["apt-get".toList, "install".toList, "curl".toList, "install".toList]
    let edited := ["sudo".toList, "A=b".toList, "apt-get".toList, "-q".toList, "install".toList,
      "--".toList, "curl=7=~1".toList, "install".toList]
    Relation.ReflTransGen Edit plain edited ∧
      packageCall? plain = some ⟨.aptGet, some .install, ["curl".toList, "install".toList]⟩ ∧
      packageCall? edited = some ⟨.aptGet, some .install, ["curl".toList, "install".toList]⟩ := by
  intro plain edited
  have decided : HasSubcommand ["apt-get".toList, "install".toList] :=
    .intro [] .aptGet [] "install".toList [] (by simp) (by simp) (by decide)
  have unpinned : IsUnpinned "curl".toList := ⟨by decide, by decide, by decide⟩
  have others : ∀ w ∈ ["sudo".toList, "A=b".toList], NamesNone w := by
    have none_named : ∀ w ∈ ["sudo".toList, "A=b".toList], ofName? w = none := by decide
    exact fun w member => ofName?_eq_none_iff.1 (none_named w member)
  have edits : Relation.ReflTransGen Edit plain edited := by
    refine .head (.pin decided unpinned "7=~1".toList ["install".toList]) ?_
    refine .head (.flag (f := "--".toList) (by decide) ["apt-get".toList, "install".toList] _) ?_
    refine .head (.flag (f := "-q".toList) (by decide) ["apt-get".toList] _) ?_
    exact .single (.prepend others _)
  have found : packageCall? plain =
      some ⟨.aptGet, some .install, ["curl".toList, "install".toList]⟩ := by decide
  exact ⟨edits, found, (packageCall?_eq_of_edits edits).trans found⟩

end ImageAudit.Shell
