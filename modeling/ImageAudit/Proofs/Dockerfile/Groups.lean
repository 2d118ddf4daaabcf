import ImageAudit.Proofs.Dockerfile.EnvValue
import ImageAudit.Proofs.Dockerfile.View

/-!
# Groups

Statements can be looked at in their order, in groups of one kind, and in a view. None of them loses
a statement or has one twice, and a variable has the same value in each.

* `Dockerfile.groups_eq_foldl`: the groups are what comes of entering statements one by one.
* `Dockerfile.view_shows_groups`: groups and view hold all that the statements hold.
-/

namespace ImageAudit

open Text

variable {ss : List Statement}

/-! ## Parting statements by kind -/

theorem filter_append_perm_of_disjoint {α : Type} {p q : α → Bool} {xs : List α}
    (disjoint : ∀ x ∈ xs, p x = true → q x = false) :
    (xs.filter p ++ xs.filter q).Perm (xs.filter fun x => p x || q x) := by
  have first : (xs.filter fun x => p x || q x).filter p = xs.filter p := by
    rw [List.filter_filter]
    refine List.filter_congr fun x _ => ?_
    cases p x <;> rfl
  have second : ((xs.filter fun x => p x || q x).filter fun x => !p x) = xs.filter q := by
    rw [List.filter_filter]
    refine List.filter_congr fun x inside => ?_
    cases here : p x with
    | false => rfl
    | true => exact (disjoint x inside here).symm
  have parts := List.filter_append_perm p (xs.filter fun x => p x || q x)
  rwa [first, second] at parts

/-- The statements of some kinds, kind by kind, are the statements of these kinds. -/
theorem flatMap_filter_kind_perm {kinds : List Kind} (distinct : kinds.Nodup)
    (ss : List Statement) :
    (kinds.flatMap fun k => ss.filter fun s => s.kind == k).Perm
      (ss.filter fun s => kinds.contains s.kind) := by
  induction kinds with
  | nil => simp
  | cons k kinds ih =>
    obtain ⟨other, distinct⟩ := List.nodup_cons.1 distinct
    have apart : ∀ s ∈ ss, (s.kind == k) = true → kinds.contains s.kind = false := by
      intro s _ same
      rw [beq_iff_eq.1 same]
      simpa using other
    have both := filter_append_perm_of_disjoint apart
    rw [List.flatMap_cons]
    refine ((ih distinct).append_left _).trans (both.trans (.of_eq ?_))
    refine List.filter_congr fun s _ => ?_
    rw [List.contains_cons]

namespace Dockerfile

/-! ## Entering statements one by one -/

/-- Puts a statement at the end of the group of its kind. If there is none yet, one is opened where
the order of the kinds wants it. -/
def enter (s : Statement) : List (Kind × List Statement) → List (Kind × List Statement)
  | [] => [(s.kind, [s])]
  | (k, g) :: groups =>
    if s.kind = k then (k, g ++ [s]) :: groups
    else if Kind.all.idxOf s.kind < Kind.all.idxOf k then (s.kind, [s]) :: (k, g) :: groups
    else (k, g) :: enter s groups

/-- The statements of each of some kinds that occurs. -/
def groupsOf (kinds : List Kind) (ss : List Statement) : List (Kind × List Statement) :=
  (kinds.map fun k => (k, ss.filter fun s => s.kind == k)).filter fun g => !g.2.isEmpty

theorem groupsOf_cons_of_none {k : Kind} (kinds : List Kind) (none : ∀ s ∈ ss, s.kind ≠ k) :
    groupsOf (k :: kinds) ss = groupsOf kinds ss := by
  have empty : (ss.filter fun s => s.kind == k) = [] := by simpa using none
  simp [groupsOf, empty]

theorem groupsOf_cons_of_mem {k : Kind} (kinds : List Kind) {s : Statement} (inside : s ∈ ss)
    (same : s.kind = k) :
    groupsOf (k :: kinds) ss = (k, ss.filter fun s => s.kind == k) :: groupsOf kinds ss := by
  have filled : (ss.filter fun s => s.kind == k).isEmpty = false := by
    rw [List.isEmpty_eq_false_iff_exists_mem]
    exact ⟨s, List.mem_filter.2 ⟨inside, beq_iff_eq.2 same⟩⟩
  simp [groupsOf, filled]

theorem mem_groupsOf {kinds : List Kind} {k : Kind} {g : List Statement} :
    (k, g) ∈ groupsOf kinds ss ↔ k ∈ kinds ∧ g ≠ [] ∧ g = ss.filter fun s => s.kind == k := by
  simp only [groupsOf, List.mem_filter, List.mem_map, Prod.mk.injEq, Bool.not_eq_true',
    List.isEmpty_eq_false_iff]
  constructor
  · rintro ⟨⟨k, listed, rfl, rfl⟩, filled⟩
    exact ⟨listed, filled, rfl⟩
  · rintro ⟨listed, filled, rfl⟩
    exact ⟨⟨k, listed, rfl, rfl⟩, filled⟩

theorem enter_of_forall_lt {s : Statement} {groups : List (Kind × List Statement)}
    (later : ∀ g ∈ groups, Kind.all.idxOf s.kind < Kind.all.idxOf g.1) :
    enter s groups = (s.kind, [s]) :: groups := by
  cases groups with
  | nil => rfl
  | cons g groups =>
    have first := later g List.mem_cons_self
    have other : s.kind ≠ g.1 := by
      intro same
      rw [same] at first
      exact absurd first (Nat.lt_irrefl _)
    rw [enter, if_neg other, if_pos first]

theorem groupsOf_concat_of_notMem {kinds : List Kind} {s : Statement} (absent : s.kind ∉ kinds)
    (ss : List Statement) : groupsOf kinds (ss ++ [s]) = groupsOf kinds ss := by
  rw [groupsOf, groupsOf]
  refine congrArg (List.filter _) (List.map_congr_left fun k listed => ?_)
  have other : s.kind ≠ k := fun same => absent (same ▸ listed)
  simp [other]

/-- Where the kinds stand in their order, one statement more is entered into the groups. -/
theorem groupsOf_concat {kinds : List Kind}
    (ordered : kinds.Pairwise fun a b => Kind.all.idxOf a < Kind.all.idxOf b) {s : Statement}
    (listed : s.kind ∈ kinds) (ss : List Statement) :
    groupsOf kinds (ss ++ [s]) = enter s (groupsOf kinds ss) := by
  induction kinds with
  | nil => cases listed
  | cons k kinds ih =>
    obtain ⟨first, ordered⟩ := List.pairwise_cons.1 ordered
    by_cases same : s.kind = k
    · have absent : s.kind ∉ kinds := fun again =>
        absurd (first s.kind again) (same ▸ Nat.lt_irrefl _)
      rw [groupsOf_cons_of_mem kinds List.mem_concat_self same,
        groupsOf_concat_of_notMem absent, List.filter_append]
      by_cases opened : ∃ t ∈ ss, t.kind = k
      · obtain ⟨t, inside, kind⟩ := opened
        rw [groupsOf_cons_of_mem kinds inside kind, enter, if_pos same]
        simp [same]
      · have none : ∀ t ∈ ss, t.kind ≠ k := fun t inside kind => opened ⟨t, inside, kind⟩
        have later : ∀ g ∈ groupsOf kinds ss, Kind.all.idxOf s.kind < Kind.all.idxOf g.1 :=
          fun g inside => same ▸ first g.1 (mem_groupsOf.1 inside).1
        rw [groupsOf_cons_of_none kinds none, enter_of_forall_lt later]
        simpa [same] using none
    · -- The group of another kind stays as it is, and the statement is entered further on.
      have listed : s.kind ∈ kinds := (List.mem_cons.1 listed).resolve_left same
      have kept : ((ss ++ [s]).filter fun s => s.kind == k) = ss.filter fun s => s.kind == k := by
        simp [same]
      by_cases opened : ∃ t ∈ ss, t.kind = k
      · obtain ⟨t, inside, kind⟩ := opened
        rw [groupsOf_cons_of_mem kinds (List.mem_append_left [s] inside) kind, kept,
          groupsOf_cons_of_mem kinds inside kind, enter, if_neg same,
          if_neg (Nat.lt_asymm (first s.kind listed)), ih ordered listed]
      · have none : ∀ t ∈ ss, t.kind ≠ k := fun t inside kind => opened ⟨t, inside, kind⟩
        have none_again : ∀ t ∈ ss ++ [s], t.kind ≠ k :=
          List.forall_mem_append.2 ⟨none, by simpa using same⟩
        rw [groupsOf_cons_of_none kinds none_again, groupsOf_cons_of_none kinds none,
          ih ordered listed]

theorem groups_push (d : Dockerfile) (s : Statement) : (d.push s).groups = enter s d.groups :=
  groupsOf_concat (by decide) (Kind.mem_all s.kind) d.statements

/-- The groups are what comes of entering the statements one by one, in their order. -/
theorem groups_eq_foldl (d : Dockerfile) :
    d.groups = d.statements.foldl (fun groups s => enter s groups) [] := by
  have entered (path : Option Text) (before after : List Statement) :
      groups ⟨path, before ++ after⟩ =
        after.foldl (fun groups s => enter s groups) (groups ⟨path, before⟩) := by
    induction after generalizing before with
    | nil => rw [List.append_nil]; rfl
    | cons s after ih =>
      rw [List.append_cons, ih, List.foldl_cons]
      exact congrArg (after.foldl _) (groups_push ⟨path, before⟩ s)
  exact entered d.path [] d.statements

/-! ## What groups and views hold -/

/-- Whether groups hold statements: each group is that of all statements of its kind, in their
order, and the groups together are all statements. -/
structure AreGroups (ss : List Statement) (groups : List (Kind × List Statement)) : Prop where
  kinds : (groups.map (·.1)).Nodup
  mem_iff : ∀ k g, (k, g) ∈ groups ↔ g ≠ [] ∧ g = ss.filter fun s => s.kind == k
  perm : (groups.flatMap (·.2)).Perm ss

theorem flatMap_snd_groupsOf (kinds : List Kind) (ss : List Statement) :
    (groupsOf kinds ss).flatMap (·.2) = kinds.flatMap fun k => ss.filter fun s => s.kind == k := by
  induction kinds with
  | nil => rfl
  | cons k kinds ih =>
    by_cases opened : ∃ s ∈ ss, s.kind = k
    · obtain ⟨s, inside, same⟩ := opened
      rw [groupsOf_cons_of_mem kinds inside same, List.flatMap_cons, List.flatMap_cons, ih]
    · have none : ∀ s ∈ ss, s.kind ≠ k := fun s inside same => opened ⟨s, inside, same⟩
      have empty : (ss.filter fun s => s.kind == k) = [] := by simpa using none
      rw [groupsOf_cons_of_none kinds none, List.flatMap_cons, empty, ih, List.nil_append]

theorem areGroups_groups (d : Dockerfile) : AreGroups d.statements d.groups := by
  have nodup_all : Kind.all.Nodup := by decide
  refine ⟨?_, fun k g => mem_groupsOf.trans (and_iff_right (Kind.mem_all k)), ?_⟩
  · have some_kinds : (d.groups.map (·.1)).Sublist
        ((Kind.all.map fun k => (k, d.statements.filter fun s => s.kind == k)).map (·.1)) :=
      List.filter_sublist.map _
    rw [List.map_map] at some_kinds
    refine some_kinds.nodup ?_
    simpa [Function.comp_def] using nodup_all
  · have all_kinds : (d.statements.filter fun s => Kind.all.contains s.kind) = d.statements := by
      simp [Kind.mem_all]
    have parts := flatMap_filter_kind_perm nodup_all d.statements
    rwa [all_kinds, ← flatMap_snd_groupsOf] at parts

/-- The group of a kind, which is empty if there is none. -/
def group (d : Dockerfile) (k : Kind) : List Statement := (d.groups.lookup k).getD []

theorem group_eq_filter (d : Dockerfile) (k : Kind) :
    d.group k = d.statements.filter fun s => s.kind == k := by
  rw [group]
  cases found : d.groups.lookup k with
  | none =>
    -- A statement of the kind would have opened the group.
    rw [List.lookup_eq_none_iff] at found
    by_contra other
    have inside := ((areGroups_groups d).mem_iff k _).2 ⟨Ne.symm other, rfl⟩
    simpa using found _ inside
  | some g =>
    obtain ⟨before, after, whole, -⟩ := List.lookup_eq_some_iff.1 found
    have inside : (k, g) ∈ d.groups := by simp [whole]
    exact (((areGroups_groups d).mem_iff k g).1 inside).2

theorem shows_select_group {α : Type} {pick : Instruction → Option α} {make : α → Instruction}
    {k : Kind} (carries : Instruction.Carries pick make k) (d : Dockerfile) :
    Located.Shows make (Located.select pick d.statements) (d.group k) := by
  rw [group_eq_filter]
  exact Located.shows_select carries d.statements

end Dockerfile

/-- Whether each list of a view shows the group of its kind. -/
structure View.Shows (v : View) (group : Kind → List Statement) : Prop where
  bases : Located.Shows .base v.bases (group .base)
  users : Located.Shows .user v.users (group .user)
  runs : Located.Shows .run v.runs (group .run)
  cmds : Located.Shows .cmd v.cmds (group .cmd)
  entrypoints : Located.Shows .entrypoint v.entrypoints (group .entrypoint)
  labels : Located.Shows .label v.labels (group .label)
  envs : Located.Shows .env v.envs (group .env)
  exposes : Located.Shows .expose v.exposes (group .expose)
  maintainers : Located.Shows .maintainer v.maintainers (group .maintainer)
  adds : Located.Shows .add v.adds (group .add)
  copies : Located.Shows .copy v.copies (group .copy)
  workdirs : Located.Shows .workdir v.workdirs (group .workdir)
  volumes : Located.Shows .volume v.volumes (group .volume)
  shells : Located.Shows .shell v.shells (group .shell)
  stopSignals : Located.Shows .stopSignal v.stopSignals (group .stopSignal)

open Instruction in
theorem Dockerfile.shows_view (d : Dockerfile) : d.view.Shows d.group where
  bases := shows_select_group carries_base d
  users := shows_select_group carries_user d
  runs := shows_select_group carries_run d
  cmds := shows_select_group carries_cmd d
  entrypoints := shows_select_group carries_entrypoint d
  labels := shows_select_group carries_label d
  envs := shows_select_group carries_env d
  exposes := shows_select_group carries_expose d
  maintainers := shows_select_group carries_maintainer d
  adds := shows_select_group carries_add d
  copies := shows_select_group carries_copy d
  workdirs := shows_select_group carries_workdir d
  volumes := shows_select_group carries_volume d
  shells := shows_select_group carries_shell d
  stopSignals := shows_select_group carries_stopSignal d

/-! ## Values of variables -/

/-- What is looked up is the last pair of the key. -/
theorem Pair.lookup_eq_some_iff {ps : List Pair} {key value : Text} :
    lookup ps key = some value ↔
      ∃ before after, ps = before ++ (key, value) :: after ∧ ∀ p ∈ after, p.1 ≠ key := by
  rw [lookup, Option.map_eq_some_iff]
  constructor
  · rintro ⟨⟨key', value⟩, found, rfl⟩
    obtain ⟨same, after, before, whole, others⟩ := List.find?_eq_some_iff_append.1 found
    obtain rfl : key' = key := by simpa using same
    refine ⟨before.reverse, after.reverse, ?_, fun p inside => ?_⟩
    · simpa using congrArg List.reverse whole
    · simpa using others p (List.mem_reverse.1 inside)
  · rintro ⟨before, after, rfl, others⟩
    refine ⟨(key, value), List.find?_eq_some_iff_append.2
      ⟨by simp, after.reverse, before.reverse, by simp, fun p inside => ?_⟩, rfl⟩
    simpa using others p (List.mem_reverse.1 inside)

namespace Dockerfile

/-- The pairs of all ENV statements, in their order. -/
def envPairs (d : Dockerfile) : List Pair := d.statements.flatMap fun s => s.instruction.envPairs

theorem flatMap_item_envs (d : Dockerfile) : d.view.envs.flatMap (·.item) = d.envPairs := by
  change (Located.select Instruction.env? d.statements).flatMap (·.item) =
    d.statements.flatMap fun s => s.instruction.envPairs
  induction d.statements with
  | nil => rfl
  | cons s ss ih =>
    rw [List.flatMap_cons, ← ih, Instruction.envPairs]
    cases carried : s.instruction.env? with
    | none => simp [Located.select, carried]
    | some pairs => simp [Located.select, carried]

theorem envValue_eq_lookup_envPairs (d : Dockerfile) (key : Text) :
    d.envValue key = Pair.lookup d.envPairs key := by
  rw [envPairs, Pair.lookup_flatMap, envValue]
  exact congrArg (List.findSome? · d.statements.reverse) (funext (envValueOf?_eq key))

theorem envValue_view (d : Dockerfile) (key : Text) :
    d.view.envValue key = Pair.lookup d.envPairs key := by
  rw [← flatMap_item_envs, Pair.lookup_flatMap, View.envValue]

/-- The groups, the view and the statements hold the same. The groups, which come of entering the
statements one by one, part them by kind; each list of the view shows the group of its kind; and a
variable has the value of its last pair, be it looked up in the statements or in the view. -/
theorem view_shows_groups (d : Dockerfile) :
    (d.groups = d.statements.foldl (fun groups s => enter s groups) [] ∧
        AreGroups d.statements d.groups) ∧
      d.view.Shows d.group ∧
      ∀ key,
        (d.envValue key = Pair.lookup d.envPairs key ∧
          d.view.envValue key = Pair.lookup d.envPairs key) ∧
        ∀ value, Pair.lookup d.envPairs key = some value ↔
          ∃ before after, d.envPairs = before ++ (key, value) :: after ∧
            ∀ p ∈ after, p.1 ≠ key :=
  ⟨⟨groups_eq_foldl d, areGroups_groups d⟩, shows_view d, fun key =>
    ⟨⟨envValue_eq_lookup_envPairs d key, envValue_view d key⟩,
      fun _ => Pair.lookup_eq_some_iff⟩⟩

/-- A key that is set twice in one statement and again in another, with a RUN in between. -/
theorem view_shows_groups_of_repeated_key :
    let first : Statement :=
      ⟨.env [("A".toList, "1".toList), ("A".toList, "2".toList)], 1, "ENV A=1 A=2".toList⟩
    let run : Statement := ⟨.run ⟨.shell "x".toList, []⟩, 2, "RUN x".toList⟩
    let second : Statement := ⟨.env [("A".toList, "3".toList)], 3, "ENV A=3".toList⟩
    let d : Dockerfile := ⟨none, [first, run, second]⟩
    AreGroups d.statements [(.run, [run]), (.env, [first, second])] ∧
      Located.Shows .env d.view.envs [first, second] ∧
      d.envValue "A".toList = some "3".toList ∧ d.view.envValue "A".toList = some "3".toList := by
  intro first run second d
  obtain ⟨⟨-, parted⟩, shown, values⟩ := view_shows_groups d
  obtain ⟨⟨listed, viewed⟩, last⟩ := values "A".toList
  have found := (last "3".toList).2
    ⟨[("A".toList, "1".toList), ("A".toList, "2".toList)], [], rfl, List.forall_mem_nil _⟩
  exact ⟨parted, shown.envs, listed.trans found, viewed.trans found⟩

end Dockerfile

end ImageAudit
