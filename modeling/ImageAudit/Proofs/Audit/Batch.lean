import ImageAudit.Audit
import ImageAudit.FileTree
import ImageAudit.Proofs.Dockerfile.Attempt
import ImageAudit.Proofs.FileTree.Outside

/-!
# Batches

Every file of a batch is audited for itself: it adds its result or its error, in its place, and
nothing that is wrong with it reaches another file. There is one exception: where reading a file
breaks off, the whole batch is lost. All this holds in any system of files, whatever may fail there.

* `Files.BreaksOff`: the paths at which a batch is lost.
* `Files.exists_listing_eq`: what the entries of a directory are.
* `BatchReport.ofFiles_append`: batches may be audited part by part.
* `BatchReport.ofFiles_apart`: what a batch comes to.
-/

namespace ImageAudit

open Text

/-! ## Directories -/

namespace Files

variable {σ : Type}

theorem precedes_trans {a b c : Text} (ab : precedes a b = true) (bc : precedes b c = true) :
    precedes a c = true := by
  simp only [precedes, Bool.not_eq_true', decide_eq_false_iff_not, List.not_lt] at ab bc ⊢
  exact List.le_trans ab bc

theorem precedes_total (a b : Text) : (precedes a b || precedes b a) = true := by
  simpa only [precedes, Bool.or_eq_true, Bool.not_eq_true', decide_eq_false_iff_not,
    List.not_lt] using List.le_total a b

theorem pairwise_sorted (met : List (Except FileFault Text)) :
    (met.mergeSort comesBefore).Pairwise fun x y => comesBefore x y = true := by
  refine List.pairwise_mergeSort (fun x y z xy yz => ?_) (fun x y => ?_) met
  -- Faults are before all names, so that only names have to be compared.
  · rcases x with f | a <;> rcases y with g | b <;> rcases z with h | c <;> try rfl
    · cases xy
    · cases xy
    · cases yz
    · exact precedes_trans xy yz
  · rcases x with f | a <;> rcases y with g | b <;> try rfl
    exact precedes_total a b

/-- The entries of a directory that can be looked at, each once and sorted by name. -/
theorem exists_listing_eq (fs : Files σ) (t : σ) (path : Text) :
    ∃ names : List Text, names.Perm ((fs.scan t path).filterMap Except.toOption) ∧
      (names.Pairwise fun a b => precedes a b = true) ∧
      fs.listing t path = names.map (Path.under path) := by
  refine ⟨((fs.scan t path).mergeSort comesBefore).filterMap Except.toOption, ?_, ?_, rfl⟩
  · exact (List.mergeSort_perm _ _).filterMap _
  · refine (pairwise_sorted _).filterMap _ fun x y ordered a isName b isName' => ?_
    rcases x with f | a' <;> cases isName
    rcases y with g | b' <;> cases isName'
    exact ordered

/-! ## Files that are seen alike -/

/-- Whether a path shows the same to a reader, in two states of the files. -/
structure SeenAlike (fs : Files σ) (t t' : σ) (path : Text) : Prop where
  isDirectory : fs.isDirectory t path = fs.isDirectory t' path
  read : fs.read t path = fs.read t' path

/-- Reading a path breaks off if it leads to a file, and reading the text of that breaks off. -/
def BreaksOff (fs : Files σ) (t : σ) (path : Text) : Prop :=
  fs.isDirectory t path = false ∧
    ∃ text, fs.read t path = .ok text ∧ Statement.BreaksOff (Layout.normalize text)

end Files

/-- In two trees that differ in one entry, all paths that do not enter it show the same. -/
theorem FileTree.SameBut.seenAlike {t t' : FileTree} {d : List Text} {name path : Text}
    (same : SameBut d name t t') (clear : ¬ t.Enters d name path) :
    FileTree.files.SeenAlike t t' path := by
  have look := same.surface_look_eq clear
  refine ⟨?_, ?_⟩
  · change t.isDirectory path = t'.isDirectory path
    rw [isDirectory_eq, isDirectory_eq, look]
  · change t.read path = t'.read path
    rw [read_eq, read_eq, look]

/-! ## Files -/

section

variable {σ : Type} (fs : Files σ) {t t' : σ} {path : Text}

theorem Dockerfile.load_of_seenAlike (same : fs.SeenAlike t t' path) :
    load fs t path = load fs t' path := by
  rw [load, load, same.isDirectory, same.read]

theorem Dockerfile.load_eq_none_iff : load fs t path = none ↔ fs.BreaksOff t path := by
  rw [load, Files.BreaksOff]
  cases directory : fs.isDirectory t path with
  | true => simp
  | false =>
    cases read : fs.read t path with
    | ok text =>
      rcases attemptFile_eq path text with ⟨broken, attempted⟩ | ⟨whole, attempted⟩
      · simp [attempted, broken]
      · simp [attempted, whole]
    | error f => cases f <;> simp

end

namespace BatchReport

/-- Two batches, one after the other. -/
def append (b c : BatchReport) : BatchReport := ⟨b.results ++ c.results, b.skipped ++ c.skipped⟩

section

variable {σ : Type} (p : Policy) (fs : Files σ) (t : σ)

/-- The result of a file that can be audited. -/
def result? (path : Text) : Option AuditResult :=
  match auditFile p fs t path with
  | some (.ok r) => some r
  | _ => none

/-- A file with its error, if it cannot be audited. -/
def skipped? (path : Text) : Option SkippedFile :=
  match auditFile p fs t path with
  | some (.error e) => some ⟨path, e⟩
  | _ => none

theorem auditFile_eq_none_iff {path : Text} :
    auditFile p fs t path = none ↔ fs.BreaksOff t path := by
  rw [auditFile, Option.map_eq_none_iff, Dockerfile.load_eq_none_iff]

theorem ofFiles_cons (path : Text) (paths : List Text) :
    ofFiles p fs t (path :: paths) =
      (auditFile p fs t path).bind fun r => (ofFiles p fs t paths).map (add path r) := by
  rw [ofFiles]
  cases auditFile p fs t path with
  | none => rfl
  | some r => cases ofFiles p fs t paths <;> rfl

theorem ofFiles_eq_none_iff {paths : List Text} :
    ofFiles p fs t paths = none ↔ ∃ path ∈ paths, fs.BreaksOff t path := by
  induction paths with
  | nil => simp [ofFiles]
  | cons path paths ih =>
    rw [ofFiles_cons, List.exists_mem_cons_iff, ← ih, ← auditFile_eq_none_iff p]
    cases auditFile p fs t path <;> simp

theorem add_append (path : Text) (r : Except ReadError AuditResult) (b c : BatchReport) :
    add path r (append b c) = append (add path r b) c := by
  cases r <;> rfl

theorem ofFiles_append (before after : List Text) :
    ofFiles p fs t (before ++ after) =
      (ofFiles p fs t before).bind fun b => (ofFiles p fs t after).map (append b) := by
  induction before with
  | nil =>
    change _ = (ofFiles p fs t after).map id
    rw [Option.map_id]
    rfl
  | cons path paths ih =>
    rw [List.cons_append, ofFiles_cons, ofFiles_cons, ih]
    cases auditFile p fs t path with
    | none => rfl
    | some r =>
      cases ofFiles p fs t paths with
      | none => rfl
      | some b =>
        simp only [Option.bind_some, Option.map_some, Option.map_map, Function.comp_def, add_append]

variable {p fs t} {b : BatchReport}

/-- A batch has the results and the errors of its files, in their order. -/
theorem parts_of_ofFiles {paths : List Text} (audited : ofFiles p fs t paths = some b) :
    b.results = paths.filterMap (result? p fs t) ∧ b.skipped = paths.filterMap (skipped? p fs t) ∧
      b.results.length + b.skipped.length = paths.length := by
  induction paths generalizing b with
  | nil =>
    cases audited
    exact ⟨rfl, rfl, rfl⟩
  | cons path paths ih =>
    rw [ofFiles_cons] at audited
    obtain ⟨r, first, rest⟩ := Option.bind_eq_some_iff.1 audited
    obtain ⟨c, others, rfl⟩ := Option.map_eq_some_iff.1 rest
    obtain ⟨results, skipped, length⟩ := ih others
    rw [List.filterMap_cons, List.filterMap_cons, List.length_cons, ← results, ← skipped, ← length,
      result?, skipped?, first]
    cases r with
    | ok r => exact ⟨rfl, rfl, by simp only [add, List.length_cons]; omega⟩
    | error e => exact ⟨rfl, rfl, rfl⟩

theorem ofFiles_congr {t' : σ} {paths : List Text}
    (same : ∀ path ∈ paths, fs.SeenAlike t t' path) :
    ofFiles p fs t paths = ofFiles p fs t' paths := by
  induction paths with
  | nil => rfl
  | cons path paths ih =>
    rw [List.forall_mem_cons] at same
    have first : auditFile p fs t path = auditFile p fs t' path :=
      congrArg _ (Dockerfile.load_of_seenAlike fs same.1)
    rw [ofFiles_cons, ofFiles_cons, first, ih same.2]

end

/-- A batch is lost exactly if reading one of its files breaks off. Otherwise it has, in the order
of its files, the results of those that can be audited, and the others with their errors. It may be
cut into parts; that of a directory is the batch of its entries, sorted by name. Whatever becomes of
one file, all others that are seen as before keep their results and errors. -/
theorem ofFiles_apart {σ : Type} (p : Policy) (fs : Files σ) (t : σ) :
    (∀ paths : List Text,
        (ofFiles p fs t paths = none ↔ ∃ path ∈ paths, fs.BreaksOff t path) ∧
        ∀ b, ofFiles p fs t paths = some b →
          b.results = paths.filterMap (result? p fs t) ∧
          b.skipped = paths.filterMap (skipped? p fs t) ∧
          b.results.length + b.skipped.length = paths.length) ∧
      (∀ before after,
        ofFiles p fs t (before ++ after) =
          (ofFiles p fs t before).bind fun b => (ofFiles p fs t after).map (append b)) ∧
      (∀ path, fs.isDirectory t path = true →
        ∃ names : List Text, names.Perm ((fs.scan t path).filterMap Except.toOption) ∧
          (names.Pairwise fun a b => Files.precedes a b = true) ∧
          ofPath p fs t path = ofFiles p fs t (names.map (Path.under path))) ∧
      (∀ path, fs.isDirectory t path = false → ofPath p fs t path = ofFiles p fs t [path]) ∧
      ∀ t' before path after, (∀ other ∈ before ++ after, fs.SeenAlike t t' other) →
        ofFiles p fs t' (before ++ path :: after) =
          (ofFiles p fs t before).bind fun b => (ofFiles p fs t' [path]).bind fun c =>
            (ofFiles p fs t after).map fun d => append b (append c d) := by
  refine ⟨fun paths => ⟨ofFiles_eq_none_iff p fs t, fun b => parts_of_ofFiles⟩,
    ofFiles_append p fs t, ?_, ?_, ?_⟩
  · intro path directory
    obtain ⟨names, perm, sorted, listed⟩ := fs.exists_listing_eq t path
    exact ⟨names, perm, sorted, by rw [ofPath, Files.audited, if_pos directory, listed]⟩
  · intro path other
    rw [ofPath, Files.audited, other, if_neg Bool.false_ne_true]
  · -- The files before and after it form batches of their own, in which nothing has changed.
    intro t' before path after same
    have cut : before ++ path :: after = before ++ ([path] ++ after) := rfl
    rw [cut, ofFiles_append, ofFiles_append,
      ← ofFiles_congr fun other inside => same other (List.mem_append_left after inside),
      ← ofFiles_congr fun other inside => same other (List.mem_append_right before inside)]
    simp only [Option.map_bind, Option.map_map, Function.comp_def]

/-- The entry `a` is no text, and then a directory; `b` is judged in either case, and a link that
leads nowhere is told. -/
theorem ofFiles_apart_of_bad_entry :
    let es : List (Text × FileTree) :=
      [("c".toList, .barred .missing), ("b".toList, .file (some "USER c".toList)),
        ("a".toList, .file none)]
    let t := FileTree.directory [("d".toList, .directory es)]
    let t' := FileTree.put (.directory []) ["d".toList, "a".toList] t
    let p : Policy := ⟨[.forbidRoot]⟩
    let passed : AuditResult := ⟨"b".toList, none, []⟩
    let refused : SkippedFile :=
      ⟨"d/a".toList, .notADockerfile "d/a".toList "is a directory".toList⟩
    let missing : SkippedFile :=
      ⟨"d/c".toList, .notADockerfile "d/c".toList "does not exist".toList⟩
    (∃ names : List Text, names.Perm ["c".toList, "b".toList, "a".toList] ∧
        (names.Pairwise fun a b => Files.precedes a b = true) ∧
        ofPath p FileTree.files t "d".toList =
          ofFiles p FileTree.files t (names.map (Path.under "d".toList))) ∧
      ofPath p FileTree.files t "d/a".toList = ofFiles p FileTree.files t ["d/a".toList] ∧
      ofFiles p FileTree.files t' ["d/b".toList, "d/a".toList, "d/c".toList] =
        some ⟨[passed], [refused, missing]⟩ := by
  intro es t t' p passed refused missing
  obtain ⟨-, -, listed, single, apart⟩ := ofFiles_apart p FileTree.files t
  have found : t.find? ["d".toList] = some (.directory es) := rfl
  have same : FileTree.SameBut ["d".toList] "a".toList t t' := FileTree.sameBut_put found _ _
  have clear : ∀ other ∈ ["d/b".toList] ++ ["d/c".toList],
      ¬ t.Enters ["d".toList] "a".toList other := by
    refine fun other inside => FileTree.not_enters_of_notMem ?_
    revert other
    decide
  have whole := apart t' ["d/b".toList] "d/a".toList ["d/c".toList] fun other inside =>
    same.seenAlike (clear other inside)
  refine ⟨listed "d".toList rfl, single "d/a".toList rfl, whole.trans ?_⟩
  have good : ofFiles p FileTree.files t ["d/b".toList] = some ⟨[passed], []⟩ := by
    decide +kernel
  have bad : ofFiles p FileTree.files t' ["d/a".toList] = some ⟨[], [refused]⟩ := by
    decide +kernel
  have lost : ofFiles p FileTree.files t ["d/c".toList] = some ⟨[], [missing]⟩ := by
    decide +kernel
  rw [good, bad, lost]
  rfl

/-- A file that breaks off takes the result of another one along. -/
theorem ofFiles_lost_at_kelvin :
    let t := FileTree.directory [("a".toList, .file (some "HEALTHCHEC\u212a NONE".toList)),
      ("b".toList, .file (some "CMD c".toList))]
    let p : Policy := ⟨[]⟩
    result? p FileTree.files t "b".toList = some ⟨"b".toList, none, []⟩ ∧
      ofFiles p FileTree.files t ["a".toList, "b".toList] = none := by
  decide +kernel

end BatchReport

end ImageAudit
