import PartitionManager.Resolve
import PartitionManager.Scan
import PartitionManager.Library.Run

namespace PartitionManager

def TableNames.empty : TableNames := ⟨[], List.nodup_nil, fun _ h => absurd h List.not_mem_nil⟩

def TableNames.erase (names : TableNames) (name : Str) : TableNames where
  list := names.list.erase name
  nodup := names.nodup.erase name
  fileNames other h := names.fileNames other (List.mem_of_mem_erase h)

namespace TableStore

variable (dev : ScanDevice) (std : StdSort) (t : TableStore)

/-- `localTableNames.find(name) != localTableNames.end()` -/
def hasTable (name : Str) : Bool := t.localTableNames.contains name

def partitionsByTable (name : Str) : Outcome (List Partition) :=
  if !t.hasTable name then .ok []
  else t.localPartitions.filterM fun part => do
    let table ← part.tableName
    .ok (table = name)

/-- The store after a call, and how the call ends. -/
def reScan : TableStore × Outcome Unit :=
  match t.scan dev std with
  | .ok t' => (t', .ok ())
  | .error stop => (t, .error stop)

/-- The private overload, with `auto_toggled` set. -/
def autoReScan : TableStore × Outcome Unit :=
  if !t.buildAutoOnDiskChanges then (t, .ok ()) else t.reScan dev std

def removeTable (name : Str) : TableStore × Outcome Unit :=
  if t.hasTable name then
    autoReScan dev std
      { t with localTableNames := t.localTableNames.erase name, nodup := t.nodup.erase name }
  else (t, .ok ())

variable {dev : ScanDevice} {std : StdSort} {t : TableStore}

theorem hasTable_iff {name : Str} : t.hasTable name = true ↔ name ∈ t.localTableNames := by
  unfold hasTable
  exact List.contains_iff_mem

/-- A scan only fails for want of a table, and then leaves everything as it was. -/
theorem reScan_cases (dev : ScanDevice) (std : StdSort) (t : TableStore) :
    (t.localTableNames = [] ∧ t.reScan dev std = (t, raise ⟨"Empty disk path.", 1, false⟩)) ∨
    (t.localTableNames ≠ [] ∧ t.scan dev std = .ok (t.reScan dev std).1) := by
  unfold reScan
  by_cases hnames : t.localTableNames = []
  · have hfails : t.scan dev std = raise ⟨"Empty disk path.", 1, false⟩ := if_pos hnames
    rw [hfails]
    exact Or.inl ⟨hnames, rfl⟩
  · obtain ⟨t', hscan⟩ := scan_of_names dev std hnames
    rw [hscan]
    exact Or.inr ⟨hnames, rfl⟩

theorem removeTable_absent (dev : ScanDevice) (std : StdSort) {name : Str} (h : name ∉ t.localTableNames) :
    t.removeTable dev std name = (t, .ok ()) := if_neg fun hhas => h (hasTable_iff.mp hhas)

theorem removeTable_listed (dev : ScanDevice) (std : StdSort) {name : Str} (h : name ∈ t.localTableNames) :
    t.removeTable dev std name = autoReScan dev std
      { t with localTableNames := t.localTableNames.erase name, nodup := t.nodup.erase name } :=
  if_pos (hasTable_iff.mpr h)

end TableStore

/-- The calls that change which tables a store knows. -/
inductive StoreCall where
  | removeTable (name : Str)
  | reScan
  | setGPTDataOf (name : Str) (data : GPTData)
  | clear
  | reset

namespace PartitionTableData

variable (dev : ScanDevice) (std : StdSort) (t : PartitionTableData)

def hasTable (name : Str) : Bool := t.toStore.hasTable name

def partitionsByTable (name : Str) : Outcome (List Partition) := t.toStore.partitionsByTable name

/-- The store after a call, and how the call ends. -/
def reScan : PartitionTableData × Outcome Unit :=
  (t.withStore (t.toStore.reScan dev std).1, (t.toStore.reScan dev std).2)

/-- A name that is not on the list is not erased from it either. -/
def removeTable (name : Str) : PartitionTableData × Outcome Unit :=
  (withStore { t with localTableNames := t.localTableNames.erase name } (t.toStore.removeTable dev std name).1,
    (t.toStore.removeTable dev std name).2)

def setGPTDataOf (name : Str) (data : GPTData) : PartitionTableData :=
  { t with
    gptDataCollection := t.gptDataCollection.map fun entry =>
      if squeeze entry.1 = squeeze ("/dev/block/" ++ name) then (entry.1, data) else entry }

def clear : PartitionTableData :=
  { t with
    gptDataCollection := []
    localPartitions := []
    localTableNames := .empty
    physical := TableStore.physical_nil }

def reset : PartitionTableData := { t.clear with buildAutoOnDiskChanges := true }

def call : StoreCall → PartitionTableData × Outcome Unit
  | .removeTable name => t.removeTable dev std name
  | .reScan => t.reScan dev std
  | .setGPTDataOf name data => (t.setGPTDataOf name data, .ok ())
  | .clear => (t.clear, .ok ())
  | .reset => (t.reset, .ok ())

def callStep (t : PartitionTableData) (c : StoreCall) : Option (PartitionTableData × Outcome Unit) :=
  some (t.call dev std c)

/-- Every partition belongs to a listed table, of which the store has the data. -/
def Consistent : Prop :=
  ∀ p ∈ t.localPartitions, ∃ name ∈ t.localTableNames.list, p.tableName = .ok name ∧
    ∃ entry ∈ t.gptDataCollection, entry.1 = append ScanDevice.devBlock name

/-- The table is gone from `t'`, and the partitions of the others are those of `t`. -/
structure Removed (name : Str) (t t' : PartitionTableData) : Prop where
  partitions : ∀ p ∈ t'.localPartitions, p.tableName ≠ .ok name
  partition : ∀ wanted source p, t'.partition wanted source = .ok (some p) → p.tableName ≠ .ok name
  hasPartition : ∀ wanted, t'.hasPartition wanted = true →
    ∃ p ∈ t'.localPartitions, p.name = wanted ∧ p.tableName ≠ .ok name
  partitionsByTable : t'.partitionsByTable name = .ok []
  others : (t'.localPartitions.filter fun p => filename p.localTablePath ≠ name).Perm
    (t.localPartitions.filter fun p => filename p.localTablePath ≠ name)

abbrev CallStep := Run.Transition PartitionTableData StoreCall (Outcome Unit)

/-- A call keeps the store consistent, and `removeTable` removes its table and no other. -/
structure KeepsTables (s : CallStep) : Prop where
  consistent : s.after.Consistent
  removed : ∀ name, s.label = .removeTable name → Removed name s.before s.after

/-- The call does not remove the last table from a store that still lists partitions. -/
def LeavesTable (s : CallStep) : Prop :=
  ∀ name, s.label = .removeTable name → s.before.localTableNames.list = [name] →
    s.before.localPartitions = []

/-- The store lists what the disks of its tables hold, and knows the data of those that load. -/
structure InStep (dev : ScanDevice) (t : PartitionTableData) : Prop where
  auto : t.buildAutoOnDiskChanges = true
  entries : t.localPartitions.Perm (t.localTableNames.list.flatMap dev.tableEntries)
  data : ∀ name ∈ t.localTableNames.list, ∀ gpt, dev.loaded name = some gpt →
    ∃ entry ∈ t.gptDataCollection, entry.1 = append ScanDevice.devBlock name

end PartitionTableData

theorem filename_append_devBlock {name : Str} (h : '/' ∉ name) :
    filename (append ScanDevice.devBlock name) = name := by
  rw [ScanDevice.append_devBlock h]
  unfold filename
  have hrev : (ScanDevice.devBlock ++ '/' :: name).reverse = name.reverse ++ '/' :: ScanDevice.devBlock.reverse := by
    simp
  have hall : ∀ c ∈ name.reverse, decide (c ≠ '/') = true := by
    intro c hc
    rw [decide_eq_true_eq]
    rintro rfl
    exact h (List.mem_reverse.mp hc)
  rw [hrev, List.takeWhile_append_of_pos hall]
  simp

namespace PartitionTableData

variable {dev : ScanDevice} {std : StdSort} {t t' : PartitionTableData}

theorem tableEntries_filename {names : TableNames} {name : Str} (hname : name ∈ names.list) {p : Partition}
    (h : p ∈ dev.tableEntries name) : filename p.localTablePath = name := by
  rw [ScanDevice.tableEntries_path h, filename_append_devBlock (names.fileNames name hname)]

theorem InStep.consistent (h : t.InStep dev) : t.Consistent := by
  intro p hp
  obtain ⟨name, hname, hentry⟩ := List.mem_flatMap.mp (h.entries.mem_iff.mp hp)
  have htable := Partition.tableName_of_physical (t.physical p hp)
  rw [tableEntries_filename hname hentry] at htable
  obtain ⟨gpt, _, _, hload, _⟩ := ScanDevice.mem_tableEntries.mp hentry
  exact ⟨name, hname, htable, h.data name hname gpt hload⟩

theorem inStep_of_scan (hauto : t.buildAutoOnDiskChanges = true) (h : t.scan dev std = .ok t') :
    t'.InStep dev := by
  obtain ⟨hlist, hgpt, hnames, hkept⟩ := scan_ok h
  refine ⟨by rw [hkept, hauto], ?_, ?_⟩
  · rw [hlist, hnames]
    exact std.perm _
  · intro name hname gpt hload
    rw [hnames] at hname
    rw [hgpt]
    exact ⟨(append ScanDevice.devBlock name, gpt), ScanDevice.mem_tableData.mpr ⟨name, hname, rfl, hload⟩, rfl⟩

theorem reScan_cases (dev : ScanDevice) (std : StdSort) (t : PartitionTableData) :
    (t.localTableNames.list = [] ∧ t.reScan dev std = (t, raise ⟨"Empty disk path.", 1, false⟩)) ∨
    (t.localTableNames.list ≠ [] ∧ t.scan dev std = .ok (t.reScan dev std).1) := by
  unfold reScan scan
  rcases TableStore.reScan_cases dev std t.toStore with ⟨hnil, hsame⟩ | ⟨hnames, hscan⟩
  · rw [hsame]
    exact Or.inl ⟨hnil, rfl⟩
  · rw [hscan]
    exact Or.inr ⟨hnames, rfl⟩

theorem InStep.reScan (h : t.InStep dev) : (t.reScan dev std).1.InStep dev := by
  rcases reScan_cases dev std t with ⟨_, hsame⟩ | ⟨_, hscan⟩
  · rw [hsame]
    exact h
  · exact inStep_of_scan h.auto hscan

theorem removeTable_absent (dev : ScanDevice) (std : StdSort) {name : Str} (h : name ∉ t.localTableNames.list) :
    (t.removeTable dev std name).1 = t := by
  have hnames : t.localTableNames.erase name = t.localTableNames := by
    simp only [TableNames.erase, List.erase_of_not_mem h]
  have hsame : t.toStore.removeTable dev std name = (t.toStore, .ok ()) := TableStore.removeTable_absent dev std h
  unfold removeTable
  rw [hsame, hnames]
  rfl

/-- A removed table leaves the list; the rest is scanned again, if there is any. -/
theorem removeTable_cases (dev : ScanDevice) (std : StdSort) (hauto : t.buildAutoOnDiskChanges = true) {name : Str}
    (h : name ∈ t.localTableNames.list) :
    (t.localTableNames.list = [name] ∧ t.removeTable dev std name =
      ({ t with localTableNames := t.localTableNames.erase name }, raise ⟨"Empty disk path.", 1, false⟩)) ∨
    (t.localTableNames.list ≠ [name] ∧
      PartitionTableData.scan dev std { t with localTableNames := t.localTableNames.erase name } =
        .ok (t.removeTable dev std name).1) := by
  have hcall : t.removeTable dev std name =
      PartitionTableData.reScan dev std { t with localTableNames := t.localTableNames.erase name } := by
    have hlisted := TableStore.removeTable_listed (t := t.toStore) dev std h
    have hscans : t.toStore.buildAutoOnDiskChanges = true := hauto
    unfold removeTable reScan
    rw [hlisted, TableStore.autoReScan, if_neg (by simp [hscans])]
    rfl
  have hlast : t.localTableNames.list.erase name = [] ↔ t.localTableNames.list = [name] := by
    constructor
    · intro hnil
      have hperm := List.perm_cons_erase h
      rw [hnil] at hperm
      exact List.perm_singleton.mp hperm
    · intro heq
      simp [heq]
  rw [hcall]
  rcases reScan_cases dev std { t with localTableNames := t.localTableNames.erase name } with
    ⟨hnil, hsame⟩ | ⟨hne, hscan⟩
  · exact Or.inl ⟨hlast.mp hnil, hsame⟩
  · exact Or.inr ⟨fun heq => hne (hlast.mpr heq), hscan⟩

/-- A store that is in step finds nothing of a table that is not on its list. -/
theorem removed_of_inStep {name : Str} (h : t'.InStep dev) (hgone : name ∉ t'.localTableNames.list)
    (hothers : (t'.localPartitions.filter fun p => filename p.localTablePath ≠ name).Perm
      (t.localPartitions.filter fun p => filename p.localTablePath ≠ name)) : Removed name t t' := by
  have hnone : ∀ p ∈ t'.localPartitions, p.tableName ≠ .ok name := by
    intro p hp heq
    obtain ⟨other, hother, htable, _⟩ := h.consistent p hp
    have hsame := Except.ok.inj (htable.symm.trans heq)
    exact hgone (hsame ▸ hother)
  refine ⟨hnone, ?_, ?_, ?_, hothers⟩
  · intro wanted source p hfound
    rw [partition_eq_find] at hfound
    have hmem := List.mem_of_find?_eq_some (Except.ok.inj hfound)
    exact hnone p hmem
  · intro wanted hhas
    obtain ⟨p, hp, hname⟩ := hasPartition_iff.mp hhas
    exact ⟨p, hp, hname, hnone p hp⟩
  · have hnot : t'.toStore.hasTable name = false :=
      Bool.eq_false_iff.mpr fun hhas => hgone (TableStore.hasTable_iff.mp hhas)
    unfold partitionsByTable TableStore.partitionsByTable
    rw [hnot]
    rfl

theorem filter_others {names : TableNames} {name : Str} (h : name ∈ names.list) :
    ((names.list.flatMap dev.tableEntries).filter fun p => filename p.localTablePath ≠ name).Perm
      (((names.list.erase name).flatMap dev.tableEntries).filter fun p => filename p.localTablePath ≠ name) := by
  have hown : (dev.tableEntries name).filter (fun p => filename p.localTablePath ≠ name) = [] := by
    rw [List.filter_eq_nil_iff]
    intro p hp
    simp [tableEntries_filename h hp]
  have hperm := (List.perm_cons_erase h).flatMap_right dev.tableEntries
  have hfilter := hperm.filter fun p => filename p.localTablePath ≠ name
  rw [List.flatMap_cons, List.filter_append, hown, List.nil_append] at hfilter
  exact hfilter

theorem removeTable_keeps_iff {name : Str} (h : t.InStep dev) :
    KeepsTables ⟨t, .removeTable name, (t.removeTable dev std name).2, (t.removeTable dev std name).1⟩ ↔
      LeavesTable ⟨t, .removeTable name, (t.removeTable dev std name).2, (t.removeTable dev std name).1⟩ := by
  by_cases hmem : name ∈ t.localTableNames.list
  · rcases removeTable_cases dev std h.auto hmem with ⟨hlast, hend⟩ | ⟨hmore, hscan⟩
    · have hafter := congrArg Prod.fst hend
      have hempty : t.localTableNames.erase name = .empty := by
        simp [TableNames.erase, TableNames.empty, hlast]
      constructor
      · intro hkeeps other hother _
        have hconsistent := hkeeps.consistent
        dsimp only at hconsistent ⊢
        rw [hafter, hempty] at hconsistent
        by_contra hne
        obtain ⟨p, hp⟩ := List.exists_mem_of_ne_nil _ hne
        obtain ⟨_, hin, _⟩ := hconsistent p hp
        exact absurd hin List.not_mem_nil
      · intro hleaves
        have hnil : t.localPartitions = [] := hleaves name rfl hlast
        have hin : InStep dev (t.removeTable dev std name).1 := by
          rw [hafter, hempty]
          refine ⟨h.auto, ?_, fun other hother => absurd hother List.not_mem_nil⟩
          dsimp only
          rw [hnil]
          exact List.Perm.refl []
        refine ⟨hin.consistent, fun other hother => ?_⟩
        cases hother
        refine removed_of_inStep hin ?_ ?_
        · rw [hafter, hempty]
          exact List.not_mem_nil
        · rw [hafter]
    · have hin : InStep dev (t.removeTable dev std name).1 := inStep_of_scan (by exact h.auto) hscan
      have hnames := (scan_ok hscan).2.2.1
      refine iff_of_true ⟨hin.consistent, fun other hother => ?_⟩ fun other hother hlast => ?_
      · cases hother
        refine removed_of_inStep hin ?_ ?_
        · rw [hnames]
          exact t.localTableNames.nodup.not_mem_erase
        · have hentries := hin.entries
          rw [hnames] at hentries
          exact (hentries.filter _).trans ((filter_others hmem).symm.trans (h.entries.filter _).symm)
      · cases hother
        exact absurd hlast hmore
  · have hsame := removeTable_absent dev std hmem
    refine iff_of_true ⟨?_, fun other hother => ?_⟩ fun other hother hlast => ?_
    · dsimp only
      rw [hsame]
      exact h.consistent
    · cases hother
      dsimp only
      rw [hsame]
      exact removed_of_inStep h hmem (List.Perm.refl _)
    · cases hother
      dsimp only at hlast
      exact absurd (hlast ▸ List.mem_singleton_self name) hmem

theorem InStep.setGPTDataOf (h : t.InStep dev) (name : Str) (data : GPTData) :
    (t.setGPTDataOf name data).InStep dev := by
  refine ⟨h.auto, h.entries, ?_⟩
  intro other hother gpt hload
  obtain ⟨entry, hentry, hpath⟩ := h.data other hother gpt hload
  refine ⟨_, List.mem_map_of_mem hentry, ?_⟩
  split
  next => exact hpath
  next => exact hpath

theorem inStep_clear (hauto : t.buildAutoOnDiskChanges = true) : t.clear.InStep dev :=
  ⟨hauto, List.Perm.refl [], fun _ h => absurd h List.not_mem_nil⟩

/-- The calls other than `removeTable` keep the store in step. -/
theorem InStep.call (h : t.InStep dev) {c : StoreCall} (hc : ∀ name, c ≠ .removeTable name) :
    (t.call dev std c).1.InStep dev := by
  cases c with
  | removeTable name => exact absurd rfl (hc name)
  | reScan => exact h.reScan
  | setGPTDataOf name data => exact h.setGPTDataOf name data
  | clear => exact inStep_clear h.auto
  | reset => exact ⟨rfl, List.Perm.refl [], fun _ h => absurd h List.not_mem_nil⟩

theorem call_keeps_iff (h : t.InStep dev) (c : StoreCall) :
    KeepsTables ⟨t, c, (t.call dev std c).2, (t.call dev std c).1⟩ ↔
      LeavesTable ⟨t, c, (t.call dev std c).2, (t.call dev std c).1⟩ := by
  by_cases hc : ∃ name, c = .removeTable name
  · obtain ⟨name, rfl⟩ := hc
    exact removeTable_keeps_iff h
  · have hother : ∀ name, c ≠ .removeTable name := fun name heq => hc ⟨name, heq⟩
    exact iff_of_true ⟨(h.call hother).consistent, fun name heq => absurd heq (hother name)⟩
      fun name heq => absurd heq (hother name)

theorem inStep_of_leaves (h : t.InStep dev) {c : StoreCall}
    (hleaves : LeavesTable ⟨t, c, (t.call dev std c).2, (t.call dev std c).1⟩) :
    (t.call dev std c).1.InStep dev := by
  by_cases hc : ∃ name, c = .removeTable name
  · obtain ⟨name, rfl⟩ := hc
    show (t.removeTable dev std name).1.InStep dev
    by_cases hmem : name ∈ t.localTableNames.list
    · rcases removeTable_cases dev std h.auto hmem with ⟨hlast, hend⟩ | ⟨_, hscan⟩
      · have hnil : t.localPartitions = [] := hleaves name rfl hlast
        rw [hend]
        have hgone : (t.localTableNames.erase name).list = [] := by simp [TableNames.erase, hlast]
        refine ⟨h.auto, ?_, ?_⟩
        · dsimp only
          rw [hnil, hgone]
          exact List.Perm.refl []
        · intro other hother
          dsimp only at hother
          rw [hgone] at hother
          exact absurd hother List.not_mem_nil
      · exact inStep_of_scan (by exact h.auto) hscan
    · rw [removeTable_absent dev std hmem]
      exact h
  · exact h.call fun name heq => hc ⟨name, heq⟩

/-- A scanned store is consistent, and stays so over a run of calls exactly if
none of them removes the last table while partitions are listed. -/
theorem calls_consistent_iff {t₀ : PartitionTableData} {ts : List CallStep} (hscan : t₀.scan dev std = .ok t)
    (hauto : t.buildAutoOnDiskChanges = true) (hrun : Run.IsRun (callStep dev std) t ts) :
    t.Consistent ∧ ((∀ s ∈ ts, KeepsTables s) ↔ ∀ s ∈ ts, LeavesTable s) := by
  have hkept := (scan_ok hscan).2.2.2
  have hstart : t.InStep dev := inStep_of_scan (by rw [← hkept, hauto]) hscan
  refine ⟨hstart.consistent, Run.forall_iff_of_invariant ?_ ?_ hstart hrun⟩
  · intro s c o s' hs hstep
    obtain ⟨rfl, rfl⟩ := Prod.ext_iff.mp (Option.some.inj hstep)
    exact call_keeps_iff hs c
  · intro s c o s' hs hstep hleaves
    obtain ⟨rfl, rfl⟩ := Prod.ext_iff.mp (Option.some.inj hstep)
    exact inStep_of_leaves hs hleaves

/-- A device with two disks of one partition each. -/
def twoDisks : ScanDevice where
  removable _ := none
  LoadPartitions path := some ⟨512, [⟨if path = "/dev/block/sda" then "boot" else "system", true, 1, 0, 1⟩], 0, 3⟩
  openpart_open _ := none

def twoTables : PartitionTableData := { bootTable 1 with localTableNames := twoNames }

def scannedTables : PartitionTableData := (twoTables.reScan twoDisks .merge).1

def tableRun (cs : List StoreCall) : List CallStep :=
  (Run.trace (callStep twoDisks .merge) scannedTables cs).getD []

theorem calls_consistent_sdb : scannedTables.Consistent ∧
    ((∀ s ∈ tableRun [.removeTable "sdb", .reScan, .clear], KeepsTables s) ↔
      ∀ s ∈ tableRun [.removeTable "sdb", .reScan, .clear], LeavesTable s) := by
  have hscan : twoTables.scan twoDisks .merge = .ok scannedTables := by rfl
  exact calls_consistent_iff hscan rfl (Run.isRun_getD_trace rfl)

/-- The name of the last table is gone when the scan throws, its partition is still there. -/
theorem last_table_stays : ∃ t, (bootTable 1).scan bootDevice .merge = .ok t ∧
    (t.call bootDevice .merge (.removeTable "sda")).2 = raise ⟨"Empty disk path.", 1, false⟩ ∧
    (t.call bootDevice .merge (.removeTable "sda")).1.localTableNames.list = [] ∧
    (t.call bootDevice .merge (.removeTable "sda")).1.hasPartition "boot" = true ∧
    ¬ (t.call bootDevice .merge (.removeTable "sda")).1.Consistent := by
  obtain ⟨t, hscan⟩ : ∃ t, (bootTable 1).scan bootDevice .merge = .ok t := ⟨_, rfl⟩
  have hnames : t.localTableNames.list = [("sda" : Str)] := by
    rw [(scan_ok hscan).2.2.1]
    rfl
  have hstep : t.InStep bootDevice := inStep_of_scan rfl hscan
  have hboot : ∃ p ∈ t.localPartitions, p.name = ("boot" : Str) := by
    have hentry : ∃ p ∈ t.localTableNames.list.flatMap bootDevice.tableEntries, p.name = ("boot" : Str) := by
      rw [hnames]
      exact ⟨_, List.mem_cons_self .., rfl⟩
    obtain ⟨p, hp, hname⟩ := hentry
    exact ⟨p, hstep.entries.mem_iff.mpr hp, hname⟩
  have hgone : (t.localTableNames.erase "sda").list = [] := by simp [TableNames.erase, hnames]
  have hcall : t.call bootDevice .merge (.removeTable "sda") =
      ({ t with localTableNames := t.localTableNames.erase "sda" }, raise ⟨"Empty disk path.", 1, false⟩) := by
    have hmem : ("sda" : Str) ∈ t.localTableNames.list := by simp [hnames]
    rcases removeTable_cases bootDevice .merge hstep.auto hmem with ⟨_, hend⟩ | ⟨hmore, _⟩
    · exact hend
    · exact absurd hnames hmore
  refine ⟨t, hscan, ?_⟩
  rw [hcall]
  refine ⟨rfl, hgone, hasPartition_iff.mpr hboot, ?_⟩
  intro hconsistent
  obtain ⟨p, hp, _⟩ := hboot
  obtain ⟨_, hin, _⟩ := hconsistent p hp
  dsimp only at hin
  rw [hgone] at hin
  exact absurd hin List.not_mem_nil

end PartitionTableData

end PartitionManager
