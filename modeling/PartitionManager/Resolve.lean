import PartitionManager.Flags
import PartitionManager.Library.Checks

namespace PartitionManager

namespace PartitionTableData

variable {t : PartitionTableData} {fs : FileSystem} {answers : List Str} {name : Str}

/-- The registered partitions of a name. -/
def holders (t : PartitionTableData) (name : Str) : List Partition :=
  t.localPartitions.filter fun p => p.name = name

def tablesOf (t : PartitionTableData) (name : Str) : List Str :=
  (t.holders name).map fun p => filename p.localTablePath

/-- The by-name directory is missing, or it has a link for the name. -/
def Linked (fs : FileSystem) (name : Str) : Prop :=
  fs.exist Partition.byName = false ∨ (fs.read_symlink (append Partition.byName name)).isSome

theorem mem_holders {p : Partition} : p ∈ t.holders name ↔ p ∈ t.localPartitions ∧ p.name = name := by
  simp [holders]

theorem hasPartition_iff : t.hasPartition name = true ↔ ∃ p ∈ t.localPartitions, p.name = name := by
  simp [hasPartition]

theorem holders_ne_nil_iff : t.holders name ≠ [] ↔ t.hasPartition name = true := by
  constructor
  · intro h
    obtain ⟨p, hp⟩ := List.exists_mem_of_ne_nil _ h
    exact hasPartition_iff.mpr ⟨p, mem_holders.mp hp⟩
  · intro h
    obtain ⟨p, hp⟩ := hasPartition_iff.mp h
    exact List.ne_nil_of_mem (mem_holders.mpr hp)

theorem mapM_ok {α β : Type} {f : α → Outcome β} {g : α → β} {xs : List α}
    (h : ∀ x ∈ xs, f x = .ok (g x)) : xs.mapM f = .ok (xs.map g) := by
  induction xs with
  | nil => rfl
  | cons x xs ih =>
    have hx := h x (List.mem_cons_self)
    have hxs := ih fun y hy => h y (List.mem_cons_of_mem x hy)
    simp only [List.mapM_cons, hx, hxs, List.map_cons]
    rfl

/-- With its link in place a name is reported with the table of each holder. -/
theorem duplicatePartitionPositions_linked (hlink : Linked fs name) :
    ∃ parts, t.duplicatePartitionPositions fs name = .ok parts ∧
      parts.map Prod.snd = t.tablesOf name := by
  let used : Partition → Bool := fun p =>
    match p.pathByName fs with
    | .ok link => !link.isEmpty
    | .error _ => false
  refine ⟨(t.holders name).map fun p => (used p, filename p.localTablePath), ?_, ?_⟩
  · refine mapM_ok fun p hp => ?_
    obtain ⟨hmem, hname⟩ := mem_holders.mp hp
    have hphys := t.physical p hmem
    obtain ⟨link, hl⟩ := (Partition.pathByName_ok_iff fs hphys).mpr (by rw [hname]; exact hlink)
    simp only [hl, Partition.tableName_of_physical hphys, bind, Except.bind, used]
  · rw [List.map_map]
    rfl

/-- Without it, the first holder looked at ends the lookup with an exception. -/
theorem duplicatePartitionPositions_unlinked (hlink : ¬ Linked fs name) (h : t.hasPartition name = true) :
    t.duplicatePartitionPositions fs name = raiseStd .filesystem_error := by
  unfold Linked at hlink
  rw [not_or] at hlink
  obtain ⟨hdir, hnone⟩ := hlink
  obtain ⟨p, rest, hcons⟩ := List.exists_cons_of_ne_nil (holders_ne_nil_iff.mpr h)
  obtain ⟨hmem, hname⟩ := mem_holders.mp (hcons ▸ List.mem_cons_self : p ∈ t.holders name)
  have hmissing : p.pathByName fs = raiseStd .filesystem_error := by
    apply Partition.pathByName_missing_link (t.physical p hmem)
    · simpa using hdir
    · rw [hname]
      simpa using hnone
  unfold duplicatePartitionPositions
  rw [← holders, hcons, List.mapM_cons, hmissing]
  rfl

theorem findM_ok {α : Type} {f : α → Outcome Bool} {g : α → Bool} {xs : List α}
    (h : ∀ x ∈ xs, f x = .ok (g x)) : xs.findM? f = .ok (xs.find? g) := by
  induction xs with
  | nil => rfl
  | cons x xs ih =>
    have hx := h x (List.mem_cons_self)
    have hxs := ih fun y hy => h y (List.mem_cons_of_mem x hy)
    simp only [List.findM?, hx, List.find?_cons]
    cases g x with
    | true => rfl
    | false => exact hxs

/-- A lookup by name and table takes the first holder of the name in that table. -/
theorem partition_eq_find (source : Str) : t.partition name source =
    .ok (t.localPartitions.find? fun p => p.name = name ∧
      (source = [] ∨ filename p.localTablePath = source)) := by
  refine findM_ok fun p hp => ?_
  have htable := Partition.tableName_of_physical (t.physical p hp)
  cases source with
  | nil => simp
  | cons c cs =>
    by_cases hname : p.name = name
    · simp [hname, htable, bind, Except.bind]
    · simp [hname]

theorem partition_of_listed {source : Str} (h : source ∈ t.tablesOf name) :
    ∃ p, t.partition name source = .ok (some p) ∧ p ∈ t.localPartitions ∧ p.name = name ∧
      (source = [] ∨ filename p.localTablePath = source) := by
  obtain ⟨q, hq, hsource⟩ := List.mem_map.mp h
  obtain ⟨hmem, hname⟩ := mem_holders.mp hq
  rw [partition_eq_find]
  cases hfind : t.localPartitions.find? fun p => p.name = name ∧
      (source = [] ∨ filename p.localTablePath = source) with
  | none =>
    have hnot := List.find?_eq_none.mp hfind q hmem
    simp [hname, hsource] at hnot
  | some p =>
    have hp := List.find?_some hfind
    simp only [decide_eq_true_eq] at hp
    exact ⟨p, rfl, List.mem_of_find?_eq_some hfind, hp.1, hp.2⟩

/-- The prompt ends with the first answer that is listed, or not at all. -/
theorem chooseTable_eq (names answers : List Str) : chooseTable names answers =
    match answers.find? names.contains with
    | some choice => .ok choice
    | none => .error .never := by
  induction answers with
  | nil => rfl
  | cons choice answers ih =>
    have hstep : chooseTable names (choice :: answers) =
        if choice ∈ names then .ok choice else chooseTable names answers := rfl
    rw [hstep, List.find?_cons]
    by_cases hlisted : choice ∈ names
    · simp only [List.contains_iff_mem.mpr hlisted, if_pos hlisted]
    · have hnot : names.contains choice = false := by simpa using hlisted
      simp only [hnot, if_neg hlisted]
      exact ih

theorem chooseTable_eq_find {names answers : List Str} {table : Str}
    (h : answers.find? names.contains = some table) : chooseTable names answers = .ok table := by
  rw [chooseTable_eq, h]

theorem partitionWithDupCheck_linked (hlink : Linked fs name) (h : t.hasPartition name = true)
    (hwords : ∀ a ∈ answers, a ≠ [])
    (hlisted : 1 < t.hasDuplicateNamedPartition name → ∃ a ∈ answers, a ∈ t.tablesOf name) :
    ∃ p, t.partitionWithDupCheck fs answers name = .ok (some p) ∧ p ∈ t.localPartitions ∧ p.name = name ∧
      (1 < t.hasDuplicateNamedPartition name →
        answers.find? (t.tablesOf name).contains = some (filename p.localTablePath)) := by
  obtain ⟨parts, hparts, htables⟩ := t.duplicatePartitionPositions_linked hlink
  by_cases hdup : 1 < t.hasDuplicateNamedPartition name
  · obtain ⟨a, ha, hatable⟩ := hlisted hdup
    obtain ⟨table, htable⟩ : ∃ table, answers.find? (t.tablesOf name).contains = some table := by
      rw [← Option.isSome_iff_exists, List.find?_isSome]
      exact ⟨a, ha, by simpa using hatable⟩
    have hmem : table ∈ t.tablesOf name := by simpa using List.find?_some htable
    have hword : table ≠ [] := hwords table (List.mem_of_find?_eq_some htable)
    obtain ⟨p, hp, hpmem, hname, hfrom⟩ := partition_of_listed hmem
    have hchoice := chooseTable_eq_find htable
    refine ⟨p, ?_, hpmem, hname, fun _ => ?_⟩
    · simp only [partitionWithDupCheck, hparts, htables, bind, Except.bind, hdup, decide_true,
        Bool.and_true, if_true, hchoice, hp]
    · rw [htable, hfrom.resolve_left hword]
  · cases parts with
    | nil =>
      have hnone : t.holders name = [] := List.map_eq_nil_iff.mp htables.symm
      exact absurd hnone (holders_ne_nil_iff.mpr h)
    | cons first rest =>
      have hmem : first.2 ∈ t.tablesOf name := by
        rw [← htables]
        exact List.mem_cons_self
      obtain ⟨p, hp, hpmem, hname, _⟩ := partition_of_listed hmem
      refine ⟨p, ?_, hpmem, hname, fun hd => absurd hd hdup⟩
      simp only [partitionWithDupCheck, hparts, bind, Except.bind, hdup, decide_false,
        Bool.false_and, Bool.false_eq_true, if_false, hp]

theorem partitionWithDupCheck_unlinked (hlink : ¬ Linked fs name) (h : t.hasPartition name = true) :
    t.partitionWithDupCheck fs answers name = raiseStd .filesystem_error := by
  unfold partitionWithDupCheck
  rw [duplicatePartitionPositions_unlinked hlink h]
  rfl

end PartitionTableData

theorem DynamicTableData.partition_of_hasPartition {d : DynamicTableData} {name : Str}
    (h : d.hasPartition name = true) :
    ∃ p, d.partition name = some p ∧ p ∈ d.localPartitions ∧ p.name = name := by
  have hsome : (d.partition name).isSome = true := by
    rw [partition, List.find?_isSome]
    simpa [hasPartition] using h
  obtain ⟨p, hp⟩ := Option.isSome_iff_exists.mp hsome
  exact ⟨p, hp, List.mem_of_find?_eq_some hp, by simpa using List.find?_some hp⟩

section

variable {t : PartitionTableData} {d : DynamicTableData} {fs : FileSystem} {answers : List Str} {name : Str}

theorem resolve_dynamic (h : d.hasPartition name = true) :
    ∃ p, resolve fs answers name (some (.classic t)) (some (.dynamic d)) = .ok (some p) ∧
      p ∈ d.localPartitions ∧ p.name = name := by
  obtain ⟨p, hp, hmem, hname⟩ := DynamicTableData.partition_of_hasPartition h
  refine ⟨p, ?_, hmem, hname⟩
  simp only [resolve, getCorrectTableObj, BaseTableData.hasPartition, BaseTableData.type, h, if_true,
    setupPartition, derefOptional, hp, bind, Except.bind]

theorem resolve_classic (hd : d.hasPartition name = false) (ht : t.hasPartition name = true) :
    resolve fs answers name (some (.classic t)) (some (.dynamic d)) =
      derefOptional (t.partitionWithDupCheck fs answers name) := by
  simp only [resolve, getCorrectTableObj, BaseTableData.hasPartition, BaseTableData.type, hd, ht, if_true,
    Bool.false_eq_true, if_false, setupPartition]

theorem resolve_absent (hd : d.hasPartition name = false) (ht : t.hasPartition name = false) :
    resolve fs answers name (some (.classic t)) (some (.dynamic d)) = .ok none := by
  simp only [resolve, getCorrectTableObj, BaseTableData.hasPartition, hd, ht, Bool.false_eq_true, if_false,
    setupPartition]

theorem resolve_name {c1 c2 : Option BaseTableData} {p : Partition}
    (h : resolve fs answers name c1 c2 = .ok (some p)) : p.name = name := by
  unfold resolve at h
  cases htable : (getCorrectTableObj name c1 c2 none).1 with
  | none =>
    rw [htable] at h
    cases h
  | some table =>
    rw [htable] at h
    cases table with
    | dynamic d =>
      obtain ⟨found, hfound, h⟩ := Checks.bind_ok_iff.mp h
      cases hfound
      cases hpart : d.partition name with
      | none =>
        rw [hpart] at h
        cases h
      | some q =>
        rw [hpart] at h
        cases h
        simpa using List.find?_some hpart
    | classic t =>
      obtain ⟨found, hfound, h⟩ := Checks.bind_ok_iff.mp h
      cases found with
      | none => cases h
      | some q =>
        cases h
        obtain ⟨parts, _, hcheck⟩ := Checks.bind_ok_iff.mp hfound
        have hpartition : ∀ source, t.partition name source = .ok (some p) → p.name = name := by
          intro source hp
          rw [PartitionTableData.partition_eq_find] at hp
          have hname := List.find?_some (Except.ok.inj hp)
          simp only [decide_eq_true_eq] at hname
          exact hname.1
        split at hcheck
        next =>
          obtain ⟨choice, _, hp⟩ := Checks.bind_ok_iff.mp hcheck
          exact hpartition choice hp
        next =>
          cases parts with
          | nil => cases hcheck
          | cons first rest => exact hpartition first.2 hcheck

end

/-- What a name should resolve to: nothing if no store holds it, else a
partition of that name, of the dynamic store if it has one, and else of the
table answered at the prompt, if there was one. -/
def NameResolves (t : PartitionTableData) (d : DynamicTableData) (fs : FileSystem) (answers : List Str)
    (name : Str) : Prop :=
  ∃ r, resolve fs answers name (some (.classic t)) (some (.dynamic d)) = .ok r ∧
    (r = none ↔ t.hasPartition name = false ∧ d.hasPartition name = false) ∧
    ∀ p, r = some p → p.name = name ∧
      (d.hasPartition name = true → p ∈ d.localPartitions) ∧
      (d.hasPartition name = false → p ∈ t.localPartitions ∧
        ∃ table, p.tableName = .ok table ∧ (1 < t.hasDuplicateNamedPartition name →
          answers.find? (t.tablesOf name).contains = some table))

/-- A name resolves as it should exactly when the physical store does not have
to be asked for it, or its by-name link does not stand in the way. -/
theorem name_resolves_iff {t : PartitionTableData} {d : DynamicTableData} {fs : FileSystem}
    {answers : List Str} {name : Str} (hwords : ∀ a ∈ answers, a ≠ [])
    (hlisted : 1 < t.hasDuplicateNamedPartition name → ∃ a ∈ answers, a ∈ t.tablesOf name) :
    NameResolves t d fs answers name ↔
      d.hasPartition name = true ∨ t.hasPartition name = false ∨ PartitionTableData.Linked fs name := by
  by_cases hd : d.hasPartition name = true
  · refine iff_of_true ?_ (Or.inl hd)
    obtain ⟨p, hp, hmem, hname⟩ := resolve_dynamic hd
    refine ⟨some p, hp, by simp [hd], fun q hq => ?_⟩
    cases hq
    exact ⟨hname, fun _ => hmem, fun hnot => absurd hd (by simp [hnot])⟩
  · have hd' : d.hasPartition name = false := by simpa using hd
    by_cases ht : t.hasPartition name = true
    · have hclassic : resolve fs answers name (some (.classic t)) (some (.dynamic d)) =
          derefOptional (t.partitionWithDupCheck fs answers name) := resolve_classic hd' ht
      by_cases hlink : PartitionTableData.Linked fs name
      · refine iff_of_true ?_ (Or.inr (Or.inr hlink))
        obtain ⟨p, hp, hmem, hname, hchoice⟩ :=
          PartitionTableData.partitionWithDupCheck_linked hlink ht hwords hlisted
        rw [hp] at hclassic
        refine ⟨some p, hclassic, by simp [ht], fun q hq => ?_⟩
        cases hq
        exact ⟨hname, fun h => absurd h hd,
          fun _ => ⟨hmem, _, Partition.tableName_of_physical (t.physical p hmem), hchoice⟩⟩
      · refine iff_of_false ?_ (by simp [hd', ht, hlink])
        intro h
        obtain ⟨r, hr, _⟩ := h
        rw [PartitionTableData.partitionWithDupCheck_unlinked hlink ht] at hclassic
        rw [hclassic] at hr
        cases hr
    · have ht' : t.hasPartition name = false := by simpa using ht
      refine iff_of_true ?_ (Or.inr (Or.inl ht'))
      refine ⟨none, resolve_absent hd' ht', by simp [hd', ht'], fun p hp => ?_⟩
      cases hp

def twoNames : TableNames := ⟨["sda", "sdb"], by decide, by decide⟩

/-- A device with a `boot` on each of two disks, and a logical `system`. -/
def twoBoots : PartitionTableData where
  gptDataCollection := [("/dev/block/sda", ⟨512, [⟨"boot", true, 1, 0, 1⟩], 0, 3⟩),
    ("/dev/block/sdb", ⟨512, [⟨"boot", true, 2, 0, 1⟩], 0, 3⟩)]
  localPartitions := [bootPartition 1,
    { bootPartition 1 with
      localTablePath := "/dev/block/sdb"
      gptPart := ⟨"boot", true, 2, 0, 1⟩
      op := some ⟨"/dev/block/sdb1", 1, true⟩ }]
  localTableNames := twoNames
  physical := by decide

def systemLogical : DynamicTableData where
  localPartitions := [{ Partition.empty with
    logicalPartitionPath := "/dev/block/mapper/system", isLogical := true }]
  lpMetadata := some superMetadata
  supported := true

/-- The link of `boot` leads to one of the two. -/
def linkedFileSystem : FileSystem :=
  { bootFileSystem with
    exist := fun path => path = Partition.byName
    read_symlink := fun path => if path = append Partition.byName "boot" then some "/dev/block/sda1" else none }

/-- The first answer names no table; the second one takes the `boot` that has no link. -/
theorem name_resolves_two_boots :
    1 < twoBoots.hasDuplicateNamedPartition "boot" ∧
    resolve linkedFileSystem ["sdx", "sdb"] "boot" (some (.classic twoBoots)) (some (.dynamic systemLogical)) =
      .ok (twoBoots.localPartitions[1]?) ∧
    (NameResolves twoBoots systemLogical linkedFileSystem ["sdx", "sdb"] "boot" ↔
      systemLogical.hasPartition "boot" = true ∨ twoBoots.hasPartition "boot" = false ∨
        PartitionTableData.Linked linkedFileSystem "boot") :=
  ⟨by decide, rfl, name_resolves_iff (by decide) fun _ => ⟨"sdb", by decide, by decide⟩⟩

/-- The by-name directory is there and has no links. -/
def linklessFileSystem : FileSystem :=
  { bootFileSystem with exist := fun path => path = Partition.byName }

theorem linkless_boot_throws :
    resolve linklessFileSystem [] "boot" (some (.classic (bootTable 1))) (some (.dynamic noLogical)) =
      raiseStd .filesystem_error ∧
    ¬ NameResolves (bootTable 1) noLogical linklessFileSystem [] "boot" := by
  have hthrows : resolve linklessFileSystem [] "boot" (some (.classic (bootTable 1)))
      (some (.dynamic noLogical)) = raiseStd .filesystem_error := by rfl
  refine ⟨hthrows, ?_⟩
  intro h
  obtain ⟨r, hr, _⟩ := h
  rw [hthrows] at hr
  cases hr

end PartitionManager
