import PartitionManager.GptTables

namespace PartitionManager

/-- The calls that write a table to its disk. -/
inductive SaveCall where
  | SaveGPTData (name : Str)
  | SaveMBR (name : Str)
  deriving DecidableEq

/-- How the saves of each table end. -/
structure SaveAnswers where
  SaveGPTData : Str → Bool
  SaveMBR : Str → Bool

namespace PartitionTableData

variable (t : PartitionTableData) (saves : SaveAnswers)

/-- `sync(name)`: the calls that it makes, and its result. -/
def syncTable (name : Str) : List SaveCall × Outcome Bool :=
  match t.GPTDataOf name with
  | .error stop => ([], .error stop)
  | .ok _ =>
    if saves.SaveGPTData name then ([.SaveGPTData name, .SaveMBR name], .ok (saves.SaveMBR name))
    else ([.SaveGPTData name], .ok false)

/-- `sync()`, when the iteration over `localTableNames` takes this order. -/
def sync (order : List Str) : List SaveCall × Outcome Bool := Batch.sweep (t.syncTable saves) order true

/-- The store has the data of the table. -/
def HasData (name : Str) : Prop := ∃ data, t.GPTDataOf name = .ok data

def Saved (name : Str) : Prop := saves.SaveGPTData name = true ∧ saves.SaveMBR name = true

/-- Every table with data is saved, and the answer is whether that went well. -/
structure SavesAll (order : List Str) : Prop where
  attempted : ∀ name ∈ t.localTableNames.list, t.HasData name → .SaveGPTData name ∈ (t.sync saves order).1
  returns : ∃ success, (t.sync saves order).2 = .ok success ∧
    (success = true ↔ ∀ name ∈ t.localTableNames.list, t.HasData name → Saved saves name)

end PartitionTableData

/-- The results of `fsync` on the handles of the logical partitions. -/
structure FsyncAnswers where
  result : Nat → Int
  documented : ∀ i, result i = 0 ∨ result i = -1

def openpart_sync (op : Option OpenPart) (fsync : Int) : Int :=
  match op with
  | none => -1
  | some _ => fsync

namespace DynamicTableData

variable (d : DynamicTableData) (fsync : FsyncAnswers)

/-- The result of `openpart_sync` on the handle of the `i`-th partition. -/
def handleSync (i : Nat) : Int := openpart_sync (d.localPartitions[i]?.bind Partition.op) (fsync.result i)

/-- `sync(name)`: the partitions it calls `openpart_sync` for, and the result as a truth value. -/
def syncNamed (name : Str) : List Nat × Bool :=
  match d.localPartitions.findIdx? fun part => part.name = name with
  | none => ([], false)
  | some i => ([i], d.handleSync fsync i ≠ 0)

def sync : List Nat × Outcome Bool :=
  Batch.sweep (fun part : Partition => ((d.syncNamed fsync part.name).1, .ok (d.syncNamed fsync part.name).2))
    d.localPartitions true

/-- Each partition is synchronized once, and both overloads report a success just when
what they called succeeded. -/
structure Syncs : Prop where
  once : (d.sync fsync).1.Perm (List.range d.localPartitions.length)
  all : (d.sync fsync).2 = .ok true ↔ ∀ i < d.localPartitions.length, d.handleSync fsync i = 0
  named : ∀ name, (d.syncNamed fsync name).2 = true ↔
    ∃ i, d.localPartitions.findIdx? (fun part => part.name = name) = some i ∧ d.handleSync fsync i = 0

end DynamicTableData

namespace PartitionTableData

variable {dev : ScanDevice} {std : StdSort} {t₀ t : PartitionTableData} {saves : SaveAnswers} {name : Str}

/-- After a scan, a listed table has data unless it was skipped. -/
theorem hasData_iff_loaded (hscan : t₀.scan dev std = .ok t) (hname : name ∈ t.localTableNames.list) :
    t.HasData name ↔ dev.loaded name ≠ none := by
  rw [(scan_ok hscan).2.2.1] at hname
  unfold HasData GPTDataOf
  cases hfind : t.gptDataCollection.find? fun entry =>
      squeeze entry.1 = squeeze (append ScanDevice.devBlock name) with
  | none =>
    refine iff_of_false ?_ ?_
    · intro h
      obtain ⟨data, hdata⟩ := h
      cases hdata
    · intro hload
      obtain ⟨gpt, hgpt⟩ := Option.ne_none_iff_exists'.mp hload
      have hmem : (append ScanDevice.devBlock name, gpt) ∈ t.gptDataCollection :=
        (mem_gptData_of_scan hscan).mpr ⟨name, hname, rfl, hgpt⟩
      have hmissed := List.find?_eq_none.mp hfind _ hmem
      simp at hmissed
  | some entry =>
    have hload := loaded_of_scan hscan (List.mem_of_find?_eq_some hfind) hname (by simpa using List.find?_some hfind)
    exact iff_of_true ⟨entry.2, rfl⟩ (by simp [hload])

theorem syncTable_of_hasData (h : t.HasData name) :
    (t.syncTable saves name).2 = .ok (saves.SaveGPTData name && saves.SaveMBR name) ∧
      SaveCall.SaveGPTData name ∈ (t.syncTable saves name).1 := by
  obtain ⟨data, hdata⟩ := h
  unfold syncTable
  rw [hdata]
  cases saves.SaveGPTData name <;> simp

theorem syncTable_of_noData (h : ¬ t.HasData name) : ∃ stop, (t.syncTable saves name).2 = .error stop := by
  unfold syncTable
  cases hdata : t.GPTDataOf name with
  | error stop => exact ⟨stop, rfl⟩
  | ok data => exact absurd ⟨data, hdata⟩ h

theorem SavesAll.sync_ne_error {order : List Str} (h : t.SavesAll saves order) (stop : Stop) :
    (t.sync saves order).2 ≠ .error stop := by
  obtain ⟨success, hsuccess, _⟩ := h.returns
  rw [hsuccess]
  simp

/-- `sync()` saves every table, whatever the order, just when none has been skipped. -/
theorem savesAll_iff_hasData {order : List Str} (horder : order.Perm t.localTableNames.list) :
    t.SavesAll saves order ↔ ∀ name ∈ t.localTableNames.list, t.HasData name := by
  constructor
  · intro h name hname
    by_contra hnone
    have hvisit : ∃ name ∈ order, ∃ stop, (t.syncTable saves name).2 = .error stop :=
      ⟨name, horder.mem_iff.mpr hname, syncTable_of_noData hnone⟩
    obtain ⟨stop, hstop⟩ := Batch.sweep_error hvisit true
    exact h.sync_ne_error stop hstop
  · intro h
    have hvisits : ∀ name ∈ order,
        (t.syncTable saves name).2 = .ok (saves.SaveGPTData name && saves.SaveMBR name) :=
      fun name hname => (syncTable_of_hasData (h name (horder.mem_iff.mp hname))).1
    have hsync := Batch.sweep_ok hvisits true
    refine ⟨fun name hname hdata => ?_, _, congrArg Prod.snd hsync, ?_⟩
    · rw [sync, hsync]
      exact List.mem_flatMap.mpr ⟨name, horder.mem_iff.mpr hname, (syncTable_of_hasData hdata).2⟩
    · rw [Bool.true_and, List.all_eq_true]
      simp only [horder.mem_iff, Bool.and_eq_true, Saved]
      exact ⟨fun hall name hname _ => hall name hname, fun hall name hname => hall name hname (h name hname)⟩

end PartitionTableData

/-- A scanned store is saved as a whole, in any order of its tables, just when the scan
skipped none of them. -/
theorem scanned_saves_iff {dev : ScanDevice} {std : StdSort} {t₀ t : PartitionTableData} {saves : SaveAnswers}
    {order : List Str} (hscan : t₀.scan dev std = .ok t) (horder : order.Perm t.localTableNames.list) :
    t.SavesAll saves order ↔ ∀ name ∈ t.localTableNames.list, dev.loaded name ≠ none := by
  rw [PartitionTableData.savesAll_iff_hasData horder]
  exact forall₂_congr fun name hname => PartitionTableData.hasData_iff_loaded hscan hname

namespace PartitionTableData

def allSaved : SaveAnswers := ⟨fun _ => true, fun _ => true⟩

theorem two_tables_saved : ∃ t, twoTables.scan twoDisks .merge = .ok t ∧ t.SavesAll allSaved ["sdb", "sda"] := by
  have hscan : ∃ t, twoTables.scan twoDisks .merge = .ok t := ⟨_, rfl⟩
  obtain ⟨t, hscan⟩ := hscan
  have hnames : t.localTableNames.list = ["sda", "sdb"] := by
    rw [(PartitionTableData.scan_ok hscan).2.2.1]
    rfl
  have horder : (["sdb", "sda"] : List Str).Perm t.localTableNames.list := by
    rw [hnames]
    exact List.Perm.swap _ _ _
  refine ⟨t, hscan, (scanned_saves_iff hscan horder).mpr ?_⟩
  rw [hnames]
  decide

/-- One of the two disks is a removable one. -/
def removableDisk : ScanDevice :=
  { twoDisks with removable := fun path => if path = "/sys/block/sdb/removable".toList then some "1".toList else none }

/-- A skipped table ends the saves by an exception, after those that come before it. -/
theorem skipped_table_throws : ∃ t, twoTables.scan removableDisk .merge = .ok t ∧
    t.sync allSaved ["sda", "sdb"] =
      ([.SaveGPTData "sda", .SaveMBR "sda"], raise ⟨"Can't find GPT data of sdb".toList, 1, false⟩) ∧
    t.sync allSaved ["sdb", "sda"] = ([], raise ⟨"Can't find GPT data of sdb".toList, 1, false⟩) ∧
    ¬ t.SavesAll allSaved ["sda", "sdb"] ∧ ¬ t.SavesAll allSaved ["sdb", "sda"] := by
  have hscan : ∃ t, twoTables.scan removableDisk .merge = .ok t ∧
      t.sync allSaved ["sda", "sdb"] =
        ([.SaveGPTData "sda", .SaveMBR "sda"], raise ⟨"Can't find GPT data of sdb".toList, 1, false⟩) ∧
      t.sync allSaved ["sdb", "sda"] = ([], raise ⟨"Can't find GPT data of sdb".toList, 1, false⟩) :=
    ⟨_, rfl, rfl, rfl⟩
  obtain ⟨t, hscan, hfirst, hlast⟩ := hscan
  refine ⟨t, hscan, hfirst, hlast, fun h => ?_, fun h => ?_⟩
  · exact h.sync_ne_error _ (congrArg Prod.snd hfirst)
  · exact h.sync_ne_error _ (congrArg Prod.snd hlast)

end PartitionTableData

namespace DynamicTableData

variable {d : DynamicTableData} {fsync : FsyncAnswers}

def names (d : DynamicTableData) : List Str := d.localPartitions.map Partition.name

theorem names_length (d : DynamicTableData) : d.localPartitions.length = d.names.length :=
  (List.length_map Partition.name).symm

theorem findIdx?_name (d : DynamicTableData) {name : Str} (h : name ∈ d.names) :
    d.localPartitions.findIdx? (fun part => part.name = name) = some (d.names.idxOf name) := by
  have hbeq : (fun other : Str => decide (other = name)) = fun other => other == name := by
    funext other
    exact Bool.eq_iff_iff.mpr (by simp)
  have hfirst : d.names.findIdx? (fun other => other = name) = some (d.names.idxOf name) :=
    List.findIdx?_eq_some_iff_findIdx_eq.mpr ⟨List.idxOf_lt_length_of_mem h, by rw [hbeq]; rfl⟩
  rwa [names, List.findIdx?_map] at hfirst

theorem findIdx?_absent (d : DynamicTableData) {name : Str} (h : name ∉ d.names) :
    d.localPartitions.findIdx? (fun part => part.name = name) = none := by
  rw [List.findIdx?_eq_none_iff]
  intro part hpart
  simpa using fun heq => h (List.mem_map.mpr ⟨part, hpart, heq⟩)

theorem syncNamed_of_mem {name : Str} (h : name ∈ d.names) :
    d.syncNamed fsync name = ([d.names.idxOf name], decide (d.handleSync fsync (d.names.idxOf name) ≠ 0)) := by
  rw [syncNamed, d.findIdx?_name h]

/-- `sync(name)` tells the truth about a name just when no partition has it. -/
theorem syncNamed_iff {name : Str} : ((d.syncNamed fsync name).2 = true ↔
    ∃ i, d.localPartitions.findIdx? (fun part => part.name = name) = some i ∧ d.handleSync fsync i = 0) ↔
      d.hasPartition name = false := by
  have hpresent : d.hasPartition name = true ↔ name ∈ d.names := by
    simp [hasPartition, names]
  by_cases h : name ∈ d.names
  · rw [syncNamed_of_mem h, d.findIdx?_name h, hpresent.mpr h]
    simp
  · have habsent : d.hasPartition name = false := by
      rw [← Bool.not_eq_true, hpresent]
      exact h
    rw [syncNamed, d.findIdx?_absent h, habsent]
    simp

theorem sync_eq (d : DynamicTableData) (fsync : FsyncAnswers) : d.sync fsync =
    (d.names.map d.names.idxOf, .ok (d.names.all fun name => d.handleSync fsync (d.names.idxOf name) ≠ 0)) := by
  have hmem : ∀ part ∈ d.localPartitions, part.name ∈ d.names := fun part hpart => List.mem_map_of_mem hpart
  have hvisits : ∀ part ∈ d.localPartitions,
      (Except.ok (d.syncNamed fsync part.name).2 : Outcome Bool) =
        .ok (decide (d.handleSync fsync (d.names.idxOf part.name) ≠ 0)) := by
    intro part hpart
    rw [syncNamed_of_mem (hmem part hpart)]
  have hcalls : (d.localPartitions.flatMap fun part => (d.syncNamed fsync part.name).1) =
      d.names.map d.names.idxOf := by
    have hmap : d.names.map d.names.idxOf = d.localPartitions.map fun part => d.names.idxOf part.name := List.map_map
    rw [hmap, List.map_eq_flatMap]
    refine List.flatMap_congr fun part hpart => ?_
    rw [syncNamed_of_mem (hmem part hpart)]
  have hall : (d.localPartitions.all fun part => d.handleSync fsync (d.names.idxOf part.name) ≠ 0) =
      d.names.all fun name => d.handleSync fsync (d.names.idxOf name) ≠ 0 := by
    change _ = (d.localPartitions.map Partition.name).all _
    rw [List.all_map]
    rfl
  rw [sync, Batch.sweep_ok hvisits, Bool.true_and, hall]
  exact Prod.ext hcalls rfl

/-- Every handle is synchronized once just when the names are distinct. -/
theorem sync_once_iff : (d.sync fsync).1.Perm (List.range d.localPartitions.length) ↔ d.names.Nodup := by
  rw [sync_eq]
  constructor
  · intro h
    have hnodup : (d.names.map d.names.idxOf).Nodup := h.nodup_iff.mpr List.nodup_range
    exact List.Nodup.of_map _ hnodup
  · intro h
    have hrange : d.names.map d.names.idxOf = List.range d.names.length := by
      refine List.ext_getElem (by simp) fun i hi _ => ?_
      rw [List.getElem_map, h.idxOf_getElem, List.getElem_range]
    rw [names_length, hrange]

/-- With distinct names, `sync()` tells the truth just when some calls succeed and some
fail, or there is nothing to call. -/
theorem sync_all_iff (hnodup : d.names.Nodup) :
    ((d.sync fsync).2 = .ok true ↔ ∀ i < d.localPartitions.length, d.handleSync fsync i = 0) ↔
      (d.localPartitions ≠ [] → (∃ i < d.localPartitions.length, d.handleSync fsync i = 0) ∧
        ∃ i < d.localPartitions.length, d.handleSync fsync i ≠ 0) := by
  have hcode : (d.sync fsync).2 = .ok true ↔ ∀ i < d.localPartitions.length, d.handleSync fsync i ≠ 0 := by
    rw [sync_eq, Except.ok.injEq, List.all_eq_true, names_length]
    constructor
    · intro h i hi
      have hname := h _ (List.getElem_mem hi)
      rw [hnodup.idxOf_getElem] at hname
      exact of_decide_eq_true hname
    · intro h name hname
      exact decide_eq_true (h _ (List.idxOf_lt_length_of_mem hname))
  rw [hcode]
  constructor
  · intro h hne
    have hpos : 0 < d.localPartitions.length := List.length_pos_iff.mpr hne
    constructor
    · by_contra hnone
      have hfail : ∀ i < d.localPartitions.length, d.handleSync fsync i ≠ 0 :=
        fun i hi hzero => hnone ⟨i, hi, hzero⟩
      exact hfail 0 hpos (h.mp hfail 0 hpos)
    · by_contra hnone
      have hgood : ∀ i < d.localPartitions.length, d.handleSync fsync i = 0 := by
        intro i hi
        by_contra hzero
        exact hnone ⟨i, hi, hzero⟩
      exact h.mpr hgood 0 hpos (hgood 0 hpos)
  · intro h
    by_cases hne : d.localPartitions = []
    · simp [hne]
    · obtain ⟨⟨i, hi, hgood⟩, j, hj, hfail⟩ := h hne
      exact iff_of_false (fun hall => hall i hi hgood) fun hall => hfail (hall j hj)

/-- Success and failure are told apart the wrong way round, so that only a store without
logical partitions is reported on correctly. -/
theorem syncs_iff : d.Syncs fsync ↔ d.localPartitions = [] := by
  constructor
  · intro h
    by_contra hne
    obtain ⟨p, others, hcons⟩ := List.exists_cons_of_ne_nil hne
    have habsent := syncNamed_iff.mp (h.named p.name)
    simp [hasPartition, hcons] at habsent
  · intro h
    have hnames : d.names = [] := by simp [names, h]
    refine ⟨sync_once_iff.mpr (by simp [hnames]), (sync_all_iff (by simp [hnames])).mpr fun hne => absurd h hne, ?_⟩
    intro name
    exact syncNamed_iff.mpr (by simp [hasPartition, h])

/-- Every `fsync` succeeds, or every one fails. -/
def alike (good : Bool) : FsyncAnswers where
  result _ := if good then 0 else -1
  documented _ := by cases good <;> simp

def systemStore : DynamicTableData where
  localPartitions := [{
    localTablePath := []
    logicalPartitionPath := "/dev/block/mapper/system"
    localIndex := 0
    gptPart := default
    op := some ⟨"/dev/block/dm-0", 4096, true⟩
    isLogical := true }]
  lpMetadata := some superMetadata
  supported := true

theorem system_sync_inverted : systemStore.sync (alike true) = ([0], .ok false) ∧
    systemStore.syncNamed (alike true) "system" = ([0], false) ∧ systemStore.handleSync (alike true) 0 = 0 ∧
    systemStore.sync (alike false) = ([0], .ok true) ∧ systemStore.syncNamed (alike false) "system" = ([0], true) ∧
    ¬ systemStore.Syncs (alike true) ∧ ¬ systemStore.Syncs (alike false) := by
  refine ⟨rfl, rfl, rfl, rfl, rfl, fun h => ?_, fun h => ?_⟩
  · have hnamed := (h.named "system").mpr ⟨0, rfl, rfl⟩
    cases hnamed
  · obtain ⟨i, hi, hzero⟩ := (h.named "system").mp rfl
    cases hi
    cases hzero

end DynamicTableData

end PartitionManager
