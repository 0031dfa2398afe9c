import PartitionManager.Resolve

namespace PartitionManager

namespace Partition

def AsLogicalPartition (fs : FileSystem) (openpart_open : Str → Option OpenPart) (orig : Partition)
    (path : Str) : Outcome Partition :=
  match openpart_open path with
  | none => raise ⟨"Cannot create openpart object: " ++ fs.openpart_strerror none, 1, false⟩
  | some op =>
    .ok { orig with isLogical := true, logicalPartitionPath := path, gptPart := default, op := some op }

end Partition

namespace DynamicTableData

def superLink : Str := "/dev/block/by-name/super"

/-- The loop of `scan` over the partitions of the metadata. -/
def scanPartitions (fs : FileSystem) (openpart_open : Str → Option OpenPart) :
    List Str → List Partition → Outcome (List Partition)
  | [], localPartitions => .ok localPartitions
  | name :: names, localPartitions => do
    let part ← Partition.AsLogicalPartition fs openpart_open .empty (append "/dev/block/mapper" name)
    scanPartitions fs openpart_open names (localPartitions ++ [(Partition.moveCtor part).1])

def scan (fs : FileSystem) (readMetadata : Option LpMetadata) (openpart_open : Str → Option OpenPart)
    (d : DynamicTableData) : Outcome DynamicTableData :=
  if !fs.exist superLink then .ok d
  else
    match readMetadata with
    | none => .error (.undefined .nullDereference)
    | some metadata => do
      let localPartitions ←
        scanPartitions fs openpart_open (metadata.partitions.map LpMetadataPartition.name) d.localPartitions
      .ok ⟨localPartitions, some metadata, true⟩

/-- The default constructor. -/
def construct (fs : FileSystem) (readMetadata : Option LpMetadata)
    (openpart_open : Str → Option OpenPart) : Outcome DynamicTableData :=
  scan fs readMetadata openpart_open ⟨[], none, false⟩

end DynamicTableData

namespace BasicFlags

/-- The constructor: its `catch (...)` keeps what had been built when a store's
constructor threw. -/
def construct (first : Outcome PartitionTableData) (second : Outcome DynamicTableData) :
    Outcome BasicFlags :=
  match first with
  | .error (.raised _) => .ok { partitionTables := (none, none) }
  | .error stop => .error stop
  | .ok t =>
    match second with
    | .error (.raised _) => .ok { partitionTables := (some t, none) }
    | .error stop => .error stop
    | .ok d => .ok { partitionTables := (some t, some d) }

/-- The checks of `main` on the tables, once the privileges are there. -/
def tableChecks (flags : BasicFlags) : Outcome Unit :=
  match flags.partitionTables.1 with
  | none => .error (.undefined .nullDereference)
  | some tables =>
    if tables.tableNamesEmpty then
      raise ⟨"Cannot find any partition table on this device.", 1, false⟩
    else if !tables.valid && !flags.forceProcess then
      raise ⟨"Problem(s) have been detected in your device's partition table. Please use -f (--force) to continue.",
        1, false⟩
    else if flags.onLogical && !tables.isHasSuperPartition then
      raise ⟨"This device doesn't contains logical partitions. But you used -l (--logical) flag.", 1, false⟩
    else .ok ()

/-- Each store that was built serves its names, whatever became of the other. -/
structure StoresIndependent (flags : BasicFlags) (fs : FileSystem) (answers : Str → List Str) : Prop where
  checks : ∀ onLogical forceProcess,
    tableChecks { flags with onLogical, forceProcess } ≠ .error (.undefined .nullDereference)
  dynamic : ∀ d name, flags.partitionTables.2 = some d → d.hasPartition name = true →
    ∃ p ∈ d.localPartitions, p.name = name ∧
      resolve fs (answers name) name flags.first flags.second = .ok (some p)
  classic : ∀ t name, flags.partitionTables.1 = some t → t.hasPartition name = true →
    (∀ d, flags.partitionTables.2 = some d → d.hasPartition name = false) →
    ∃ p ∈ t.localPartitions, p.name = name ∧
      resolve fs (answers name) name flags.first flags.second = .ok (some p)

theorem tableChecks_ne_null {flags : BasicFlags} {t : PartitionTableData}
    (h : flags.partitionTables.1 = some t) : tableChecks flags ≠ .error (.undefined .nullDereference) := by
  simp only [tableChecks, h, raise, Stop.thrown]
  split
  next => simp
  next =>
    split
    next => simp
    next => split <;> simp

theorem resolve_null {c1 c2 : Option BaseTableData} {fs : FileSystem} {answers : List Str} {name : Str}
    (h : c1 = none ∨ c2 = none) : resolve fs answers name c1 c2 = .ok none := by
  unfold resolve getCorrectTableObj
  rcases h with rfl | rfl
  · rfl
  · cases c1 <;> rfl

theorem independent_of_both {t : PartitionTableData} {d : DynamicTableData} {fs : FileSystem}
    {answers : Str → List Str} (hwords : ∀ name, ∀ a ∈ answers name, a ≠ [])
    (hlisted : ∀ name, 1 < t.hasDuplicateNamedPartition name → ∃ a ∈ answers name, a ∈ t.tablesOf name)
    (hlinked : ∀ name, t.hasPartition name = true → d.hasPartition name = false →
      PartitionTableData.Linked fs name) :
    StoresIndependent { partitionTables := (some t, some d) } fs answers := by
  refine ⟨fun _ _ => tableChecks_ne_null rfl, ?_, ?_⟩
  · intro d' name hd' h
    cases hd'
    obtain ⟨p, hp, hmem, hname⟩ := resolve_dynamic h
    exact ⟨p, hmem, hname, hp⟩
  · intro t' name ht' h hnot
    cases ht'
    have hd := hnot d rfl
    obtain ⟨p, hp, hmem, hname, _⟩ := PartitionTableData.partitionWithDupCheck_linked
      (hlinked name h hd) h (hwords name) (hlisted name)
    refine ⟨p, hmem, hname, ?_⟩
    have hclassic : resolve fs (answers name) name (some (.classic t)) (some (.dynamic d)) =
        derefOptional (t.partitionWithDupCheck fs (answers name) name) := resolve_classic hd h
    rw [hp] at hclassic
    exact hclassic

theorem linked_of_independent {t : PartitionTableData} {d : DynamicTableData} {fs : FileSystem}
    {answers : Str → List Str}
    (h : StoresIndependent { partitionTables := (some t, some d) } fs answers) {name : Str}
    (ht : t.hasPartition name = true) (hd : d.hasPartition name = false) :
    PartitionTableData.Linked fs name := by
  by_contra hlink
  obtain ⟨p, _, _, hp⟩ := h.classic t name rfl ht (fun d' hd' => by cases hd'; exact hd)
  have hclassic : resolve fs (answers name) name (some (.classic t)) (some (.dynamic d)) =
      derefOptional (t.partitionWithDupCheck fs (answers name) name) := resolve_classic hd ht
  rw [PartitionTableData.partitionWithDupCheck_unlinked hlink ht] at hclassic
  have hraised := hclassic.symm.trans hp
  cases hraised

/-- The first store was built, and either the second was too and no by-name
link is missing, or it was not and the first has no partition. -/
def StoresUsable (first : Outcome PartitionTableData) (second : Outcome DynamicTableData) (fs : FileSystem) :
    Prop :=
  ∃ t, first = .ok t ∧
    ((∃ d, second = .ok d ∧ ∀ name, t.hasPartition name = true → d.hasPartition name = false →
        PartitionTableData.Linked fs name) ∨
      ((∃ e, second = .error (.raised e)) ∧ t.localPartitions = []))

theorem stores_independent_iff {first : Outcome PartitionTableData} {second : Outcome DynamicTableData}
    {flags : BasicFlags} {fs : FileSystem} {answers : Str → List Str}
    (hflags : construct first second = .ok flags) (hwords : ∀ name, ∀ a ∈ answers name, a ≠ [])
    (hlisted : ∀ t name, first = .ok t → 1 < t.hasDuplicateNamedPartition name →
      ∃ a ∈ answers name, a ∈ t.tablesOf name) :
    StoresIndependent flags fs answers ↔ StoresUsable first second fs := by
  unfold construct at hflags
  split at hflags
  next e =>
    cases hflags
    refine iff_of_false (fun h => ?_) (fun ⟨_, ht, _⟩ => (nomatch ht))
    exact h.checks false false rfl
  next => cases hflags
  next t =>
    split at hflags
    next e =>
      cases hflags
      constructor
      · intro h
        refine ⟨t, rfl, Or.inr ⟨⟨e, rfl⟩, ?_⟩⟩
        by_contra hne
        obtain ⟨p, hp⟩ := List.exists_mem_of_ne_nil _ hne
        have hhas := PartitionTableData.hasPartition_iff.mpr ⟨p, hp, rfl⟩
        obtain ⟨q, _, _, hq⟩ := h.classic t p.name rfl hhas (fun d hd => (nomatch hd))
        have hnull := (resolve_null (Or.inr rfl)).symm.trans hq
        cases hnull
      · rintro ⟨t', ht', ⟨d, hd, _⟩ | ⟨_, hempty⟩⟩
        · cases hd
        · cases ht'
          refine ⟨fun _ _ => tableChecks_ne_null rfl, fun d _ hd => (nomatch hd), ?_⟩
          intro t' name ht' h
          cases ht'
          obtain ⟨p, hp, _⟩ := PartitionTableData.hasPartition_iff.mp h
          rw [hempty] at hp
          cases hp
    next => cases hflags
    next d =>
      cases hflags
      constructor
      · intro h
        exact ⟨t, rfl, Or.inl ⟨d, rfl, fun name ht hd => linked_of_independent h ht hd⟩⟩
      · rintro ⟨t', ht', ⟨d', hd', hlinked⟩ | ⟨⟨e, he⟩, _⟩⟩
        · cases ht'
          cases hd'
          exact independent_of_both hwords (fun name => hlisted t name rfl) hlinked
        · cases he

/-- A device with `super`, on which `boot` has its link. -/
def superFileSystem : FileSystem :=
  { bootFileSystem with
    exist := fun path => path = Partition.byName ∨ path = DynamicTableData.superLink
    read_symlink := fun path => if path = append Partition.byName "boot" then some "/dev/block/sda1" else none }

/-- Its only logical partition cannot be opened. -/
def brokenLogical : Outcome DynamicTableData :=
  DynamicTableData.construct superFileSystem (some superMetadata) (fun _ => none)

/-- With it, the dynamic store. -/
def openedLogical : Outcome DynamicTableData :=
  DynamicTableData.construct superFileSystem (some superMetadata) (fun path => some ⟨path, 4096, true⟩)

/-- Only `boot` is asked about, and the second answer names a table that holds it. -/
theorem twoBoots_name {p : Partition} (h : p ∈ twoBoots.localPartitions) : p.name = "boot" := by
  revert h p
  decide

theorem twoBoots_listed {t : PartitionTableData} {name : Str}
    (ht : (.ok twoBoots : Outcome PartitionTableData) = .ok t)
    (hdup : 1 < t.hasDuplicateNamedPartition name) : ∃ a ∈ (["sdx", "sdb"] : List Str), a ∈ t.tablesOf name := by
  cases ht
  by_cases hname : name = "boot"
  · subst hname
    exact ⟨"sdb", by decide, by decide⟩
  · have hnone : twoBoots.hasDuplicateNamedPartition name = 0 := by
      refine List.countP_eq_zero.mpr fun p hp => ?_
      rw [twoBoots_name hp]
      simpa using Ne.symm hname
    omega

theorem twoBoots_usable : StoresUsable (.ok twoBoots) openedLogical superFileSystem := by
  refine ⟨twoBoots, rfl, Or.inl ⟨_, rfl, fun name ht _ => ?_⟩⟩
  obtain ⟨p, hp, rfl⟩ := PartitionTableData.hasPartition_iff.mp ht
  rw [twoBoots_name hp]
  exact Or.inr (by decide)

theorem twoBoots_unusable : ¬ StoresUsable (.ok twoBoots) brokenLogical superFileSystem := by
  rintro ⟨t, ht, ⟨d, hd, _⟩ | ⟨_, hempty⟩⟩
  · cases hd
  · cases ht
    cases hempty

/-- With a `boot` on each of two disks, nothing is lost while the logical
partition opens, and a name is when it does not. -/
theorem stores_independent_two_boots :
    (∃ flags, construct (.ok twoBoots) openedLogical = .ok flags ∧
      StoresIndependent flags superFileSystem fun _ => ["sdx", "sdb"]) ∧
    ∃ flags, construct (.ok twoBoots) brokenLogical = .ok flags ∧
      ¬ StoresIndependent flags superFileSystem fun _ => ["sdx", "sdb"] := by
  constructor
  · refine ⟨_, rfl, ?_⟩
    exact (stores_independent_iff rfl (fun _ => by decide) fun _ _ => twoBoots_listed).mpr twoBoots_usable
  · refine ⟨_, rfl, fun h => ?_⟩
    exact twoBoots_unusable ((stores_independent_iff rfl (fun _ => by decide) fun _ _ => twoBoots_listed).mp h)

/-- `boot` is lost with the logical partition that cannot be opened. -/
theorem broken_logical_loses_boot : ∃ flags, construct (.ok (bootTable 1)) brokenLogical = .ok flags ∧
    (bootTable 1).hasPartition "boot" = true ∧
    resolve superFileSystem [] "boot" flags.first flags.second = .ok none ∧
    ¬ StoresIndependent flags superFileSystem (fun _ => []) := by
  have hnone : resolve superFileSystem [] "boot" (some (.classic (bootTable 1))) none = .ok none := rfl
  refine ⟨{ partitionTables := (some (bootTable 1), none) }, rfl, rfl, hnone, fun h => ?_⟩
  obtain ⟨p, _, _, hp⟩ := h.classic (bootTable 1) "boot" rfl rfl (fun d hd => (nomatch hd))
  have hcontra := hnone.symm.trans hp
  cases hcontra

end BasicFlags

end PartitionManager
