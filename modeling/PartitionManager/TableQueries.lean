import PartitionManager.Library.Checks
import PartitionManager.Library.Lookup
import PartitionManager.StoreCalls

namespace PartitionManager

structure BasicInfo where
  name : Str
  size : Nat
  isLogical : Bool
  deriving DecidableEq

inductive TableCall where
  | reScan (dev : ScanDevice) (std : StdSort)
  | removeTable (dev : ScanDevice) (std : StdSort) (name : Str)
  | setTables (names : List Str) (nodup : names.Nodup)
  | setAutoScan (state : Bool)

namespace TableStore

/-- Before the constructor has looked for the tables. -/
def initial : TableStore where
  gptDataCollection := []
  localPartitions := []
  localTableNames := []
  nodup := List.nodup_nil
  physical := physical_nil

section

variable (abi : Abi) (fs : FileSystem) (dev : ScanDevice) (std : StdSort) (t : TableStore)

def partitions : List Partition := t.localPartitions.foldl (fun parts part => parts ++ [part]) []

def partitions_const : List Partition := t.localPartitions.foldl (fun parts part => parts ++ [part]) []

def tableNames : List Str := t.localTableNames

def partitionsByTable_const (name : Str) : Outcome (List Partition) :=
  if !t.hasTable name then .ok []
  else t.localPartitions.filterM fun part => do
    let table ← part.tableName
    .ok (table = name)

def about (part : Partition) : Outcome BasicInfo := do
  let size ← part.size abi fs
  .ok ⟨part.name, size, false⟩

/-- The turn of the loop for one partition. -/
def aboutStep (name : Str) (parts : List BasicInfo) (part : Partition) : Outcome (List BasicInfo) := do
  let table ← part.tableName
  if table = name then do
    let info ← about abi fs part
    .ok (parts ++ [info])
  else .ok parts

/-- The list of names is not consulted here. -/
def aboutPartitionsByTable (name : Str) : Outcome (List BasicInfo) :=
  t.partitions_const.foldlM (aboutStep abi fs name) []

def call : TableCall → TableStore × Outcome Unit
  | .reScan dev std => t.reScan dev std
  | .removeTable dev std name => t.removeTable dev std name
  | .setTables names nodup => ({ t with localTableNames := names, nodup := nodup }, .ok ())
  | .setAutoScan state => ({ t with buildAutoOnDiskChanges := state }, .ok ())

def callStep (t : TableStore) (c : TableCall) : Option (TableStore × Outcome Unit) := some (t.call c)

end

/-- The partition belongs to a table that is on the list. -/
def lists (t : TableStore) (p : Partition) : Bool := t.hasTable (filename p.localTablePath)

/-- What the queries of one state have in common. Nothing is said of
`aboutPartitionsByTable` for a table that is not listed. -/
structure PerTable (abi : Abi) (fs : FileSystem) (t : TableStore) : Prop where
  about : ∀ name ∈ t.tableNames,
    t.aboutPartitionsByTable abi fs name = t.partitionsByTable name >>= List.mapM (TableStore.about abi fs)
  unlisted : ∀ name, name ∉ t.tableNames → t.partitionsByTable name = .ok []
  once : ∃ lists, t.tableNames.mapM t.partitionsByTable = .ok lists ∧
    lists.flatten.Perm (t.partitions.filter t.lists)
  const : t.partitions = t.partitions_const ∧ ∀ name, t.partitionsByTable name = t.partitionsByTable_const name

/-- The lists over all table names hold every partition once. -/
def Complete (t : TableStore) : Prop :=
  ∃ lists, t.tableNames.mapM t.partitionsByTable = .ok lists ∧ lists.flatten.Perm t.partitions

/-- Each listed table on which a scan finds partitions goes by the name of its device node. -/
def ScansListed (dev : ScanDevice) (names : List Str) : Prop :=
  ∀ name ∈ names, dev.tableEntries name ≠ [] → filename (append ScanDevice.devBlock name) ∈ names

abbrev QueryStep := Run.Transition TableStore TableCall (Outcome Unit)

/-- The call leaves no registered partition without its table on the list: a table is
taken off together with its partitions, or has none. -/
def KeepsListed (x : QueryStep) : Prop :=
  match x.label with
  | .reScan dev _ => x.before.localTableNames ≠ [] → ScansListed dev x.before.localTableNames
  | .removeTable dev _ name =>
    name ∈ x.before.localTableNames →
      if x.before.buildAutoOnDiskChanges = true ∧ x.before.localTableNames.erase name ≠ [] then
        ScansListed dev (x.before.localTableNames.erase name)
      else ∀ p ∈ x.before.localPartitions, filename p.localTablePath ≠ name
  | .setTables names _ => ∀ p ∈ x.before.localPartitions, filename p.localTablePath ∈ names
  | .setAutoScan _ => True

variable {abi : Abi} {fs : FileSystem} {dev : ScanDevice} {std : StdSort} {t : TableStore}

theorem partitions_eq (t : TableStore) : t.partitions = t.localPartitions := by
  have hloop : ∀ ps acc : List Partition, ps.foldl (fun parts part => parts ++ [part]) acc = acc ++ ps := by
    intro ps
    induction ps with
    | nil => simp
    | cons p ps ih =>
      intro acc
      rw [List.foldl_cons, ih, List.append_assoc, List.singleton_append]
  unfold partitions
  rw [hloop, List.nil_append]

theorem partitionsByTable_listed {name : Str} (h : name ∈ t.localTableNames) :
    t.partitionsByTable name = .ok (t.localPartitions.filter fun p => filename p.localTablePath = name) := by
  unfold partitionsByTable
  rw [if_neg (by simpa using hasTable_iff.mpr h)]
  refine Checks.filterM_ok fun p hp => ?_
  rw [Partition.tableName_of_physical (t.physical p hp)]
  rfl

/-- The loop collects the information on the partitions of the table, and stops where
a size cannot be read. -/
theorem aboutLoop_eq {ps : List Partition} (hps : ∀ p ∈ ps, p.isLogical = false) (name : Str)
    (acc : List BasicInfo) : ps.foldlM (aboutStep abi fs name) acc =
      ((ps.filter fun p => filename p.localTablePath = name).mapM (about abi fs)).map (acc ++ ·) := by
  induction ps generalizing acc with
  | nil =>
    show Except.ok acc = Except.ok (acc ++ [])
    rw [List.append_nil]
  | cons p ps ih =>
    rw [List.forall_mem_cons] at hps
    have htable := Partition.tableName_of_physical hps.1
    rw [List.foldlM_cons]
    by_cases hname : filename p.localTablePath = name
    · rw [List.filter_cons_of_pos (by simpa using hname), List.mapM_cons]
      have hstep : aboutStep abi fs name acc p = (about abi fs p).map fun info => acc ++ [info] := by
        unfold aboutStep
        rw [htable, Checks.ok_bind, if_pos hname]
        cases about abi fs p with
        | error stop => rfl
        | ok info => rfl
      rw [hstep]
      cases about abi fs p with
      | error stop => rfl
      | ok info =>
        show List.foldlM (aboutStep abi fs name) (acc ++ [info]) ps = _
        rw [ih hps.2, Checks.ok_bind]
        cases (ps.filter fun p => filename p.localTablePath = name).mapM (about abi fs) with
        | error stop => rfl
        | ok infos =>
          show Except.ok (acc ++ [info] ++ infos) = Except.ok (acc ++ info :: infos)
          rw [List.append_assoc, List.singleton_append]
    · rw [List.filter_cons_of_neg (by simpa using hname)]
      have hstep : aboutStep abi fs name acc p = .ok acc := by
        unfold aboutStep
        rw [htable, Checks.ok_bind, if_neg hname]
      rw [hstep, Checks.ok_bind, ih hps.2]

theorem aboutPartitionsByTable_eq (name : Str) : t.aboutPartitionsByTable abi fs name =
    (t.localPartitions.filter fun p => filename p.localTablePath = name).mapM (about abi fs) := by
  have hconst : t.partitions_const = t.localPartitions := partitions_eq t
  unfold aboutPartitionsByTable
  rw [hconst, aboutLoop_eq t.physical]
  cases (t.localPartitions.filter fun p => filename p.localTablePath = name).mapM (about abi fs) with
  | error stop => rfl
  | ok infos => rfl

/-- The lists over all table names hold the partitions of listed tables once. -/
theorem lists_perm (t : TableStore) : ∃ lists, t.tableNames.mapM t.partitionsByTable = .ok lists ∧
    lists.flatten.Perm (t.localPartitions.filter t.lists) := by
  refine ⟨t.localTableNames.map fun name => t.localPartitions.filter fun p => filename p.localTablePath = name,
    PartitionTableData.mapM_ok fun name hname => partitionsByTable_listed hname, ?_⟩
  have hkeys : (t.localTableNames.flatMap fun name =>
      t.localPartitions.filter fun p => filename p.localTablePath = name).Perm
        (t.localPartitions.filter fun p => filename p.localTablePath ∈ t.localTableNames) := by
    convert Lookup.flatMap_filter_perm t.nodup t.localPartitions
  have hlists : t.localPartitions.filter t.lists =
      t.localPartitions.filter fun p => decide (filename p.localTablePath ∈ t.localTableNames) := by
    refine List.filter_congr fun p _ => ?_
    rw [Bool.eq_iff_iff, decide_eq_true_iff]
    exact hasTable_iff
  rw [← List.flatMap_def, hlists]
  exact hkeys

theorem perTable (abi : Abi) (fs : FileSystem) (t : TableStore) : PerTable abi fs t := by
  refine ⟨?_, ?_, ?_, rfl, fun _ => rfl⟩
  · intro name hname
    rw [partitionsByTable_listed hname, Checks.ok_bind, aboutPartitionsByTable_eq]
  · intro name hname
    unfold partitionsByTable
    rw [if_pos (by simpa using fun h => hname (hasTable_iff.mp h))]
  · rw [partitions_eq]
    exact lists_perm t

theorem lists_iff {p : Partition} : t.lists p = true ↔ filename p.localTablePath ∈ t.localTableNames :=
  hasTable_iff

theorem complete_iff : t.Complete ↔ ∀ p ∈ t.localPartitions, filename p.localTablePath ∈ t.localTableNames := by
  obtain ⟨lists, hlists, hperm⟩ := lists_perm t
  unfold Complete
  rw [hlists, partitions_eq]
  constructor
  · rintro ⟨_, hsame, hall⟩ p hp
    cases hsame
    have hmem := (hperm.symm.trans hall).mem_iff.mpr hp
    exact lists_iff.mp (List.mem_filter.mp hmem).2
  · intro h
    have hall : t.localPartitions.filter t.lists = t.localPartitions :=
      List.filter_eq_self.mpr fun p hp => lists_iff.mpr (h p hp)
    rw [hall] at hperm
    exact ⟨lists, rfl, hperm⟩

theorem complete_after_scan_iff {t' : TableStore} (h : t.scan dev std = .ok t') :
    t'.Complete ↔ ScansListed dev t.localTableNames := by
  obtain ⟨hlist, _, hnames, _⟩ := scan_ok h
  have hparts : t'.localPartitions.Perm (t.localTableNames.flatMap dev.tableEntries) := by
    rw [hlist]
    exact std.perm _
  rw [complete_iff, hnames]
  constructor
  · intro h name hname hfound
    obtain ⟨p, hp⟩ := List.exists_mem_of_ne_nil _ hfound
    have hlisted := h p (hparts.mem_iff.mpr (List.mem_flatMap.mpr ⟨name, hname, hp⟩))
    rwa [ScanDevice.tableEntries_path hp] at hlisted
  · intro h p hp
    obtain ⟨name, hname, hentry⟩ := List.mem_flatMap.mp (hparts.mem_iff.mp hp)
    rw [ScanDevice.tableEntries_path hentry]
    exact h name hname (List.ne_nil_of_mem hentry)

theorem reScan_complete_iff (h : t.Complete) : (t.reScan dev std).1.Complete ↔
    (t.localTableNames ≠ [] → ScansListed dev t.localTableNames) := by
  rcases reScan_cases dev std t with ⟨hnil, hsame⟩ | ⟨hnames, hscan⟩
  · rw [hsame]
    exact iff_of_true h fun hne => absurd hnil hne
  · rw [complete_after_scan_iff hscan, imp_iff_right hnames]

/-- Without a scan the partitions of the removed table stay. -/
theorem erased_complete_iff (h : t.Complete) (name : Str) :
    Complete { t with localTableNames := t.localTableNames.erase name, nodup := t.nodup.erase name } ↔
      ∀ p ∈ t.localPartitions, filename p.localTablePath ≠ name := by
  rw [complete_iff] at h ⊢
  refine forall_congr' fun p => imp_congr_right fun hp => ?_
  show filename p.localTablePath ∈ t.localTableNames.erase name ↔ _
  rw [t.nodup.mem_erase_iff]
  exact and_iff_left (h p hp)

theorem removeTable_complete_iff (h : t.Complete) (name : Str) : (t.removeTable dev std name).1.Complete ↔
    (name ∈ t.localTableNames →
      if t.buildAutoOnDiskChanges = true ∧ t.localTableNames.erase name ≠ [] then
        ScansListed dev (t.localTableNames.erase name)
      else ∀ p ∈ t.localPartitions, filename p.localTablePath ≠ name) := by
  by_cases hmem : name ∈ t.localTableNames
  · let erased : TableStore :=
      { t with localTableNames := t.localTableNames.erase name, nodup := t.nodup.erase name }
    have hcall : t.removeTable dev std name = erased.autoReScan dev std := removeTable_listed dev std hmem
    have herased : erased.Complete ↔ _ := erased_complete_iff h name
    rw [hcall, imp_iff_right hmem]
    unfold autoReScan
    by_cases hauto : t.buildAutoOnDiskChanges = true
    · rw [if_neg (by simp [erased, hauto])]
      rcases reScan_cases dev std erased with ⟨hnil, hsame⟩ | ⟨hnames, hscan⟩
      · rw [if_neg fun hscans => hscans.2 hnil, hsame]
        exact herased
      · rw [if_pos ⟨hauto, hnames⟩]
        exact complete_after_scan_iff hscan
    · rw [if_pos (by simpa [erased] using hauto), if_neg fun hscans => hauto hscans.1]
      exact herased
  · rw [removeTable_absent dev std hmem]
    exact iff_of_true h fun hin => absurd hin hmem

theorem call_complete_iff (h : t.Complete) (c : TableCall) :
    (t.call c).1.Complete ↔ KeepsListed ⟨t, c, (t.call c).2, (t.call c).1⟩ := by
  cases c with
  | reScan dev std => exact reScan_complete_iff h
  | removeTable dev std name => exact removeTable_complete_iff h name
  | setTables names nodup => exact complete_iff
  | setAutoScan state =>
    have hkept : Complete { t with buildAutoOnDiskChanges := state } := complete_iff.mpr (complete_iff.mp h)
    exact iff_of_true hkept trivial

/-- In every state of a run the queries of a table agree. The lists over all tables hold
every partition once in each of these states exactly if every call keeps the tables of
the registered partitions listed. -/
theorem table_queries_agree {ts : List QueryStep} (abi : Abi) (fs : FileSystem)
    (hrun : Run.IsRun callStep initial ts) :
    (∀ x ∈ ts, PerTable abi fs x.after) ∧ ((∀ x ∈ ts, Complete x.after) ↔ ∀ x ∈ ts, KeepsListed x) := by
  have hstart : initial.Complete := complete_iff.mpr nofun
  refine ⟨fun x _ => perTable abi fs x.after, Run.forall_iff_of_invariant ?_ ?_ hstart hrun⟩
  · intro t c o t' h hstep
    obtain ⟨rfl, rfl⟩ := Prod.ext_iff.mp (Option.some.inj hstep)
    exact call_complete_iff h c
  · intro t c o t' h hstep hkeeps
    obtain ⟨rfl, rfl⟩ := Prod.ext_iff.mp (Option.some.inj hstep)
    exact (call_complete_iff h c).mpr hkeeps

/-- Two disks of one partition each: `boot` on `sda` and `system` on any other, of 4096 bytes. -/
def disks4096 : ScanDevice where
  removable _ := none
  LoadPartitions path :=
    some ⟨512, [⟨if path = "/dev/block/sda".toList then "boot" else "system", true, 1, 0, 7⟩], 0, 3⟩
  openpart_open path := some ⟨path, 4096, true⟩

/-- Both disks are scanned, `sdb` is taken off with its partition, `sda` without a scan. -/
def scanRun : List QueryStep :=
  (Run.trace callStep initial
    [.setTables twoNames.list twoNames.nodup, .reScan disks4096 .merge, .removeTable disks4096 .merge "sdb",
      .setAutoScan false, .removeTable disks4096 .merge "sda"]).getD []

theorem table_queries_two_disks : scanRun.length = 5 ∧
    (∀ x ∈ scanRun, PerTable .arm64_v8a bootFileSystem x.after) ∧
    ((∀ x ∈ scanRun, Complete x.after) ↔ ∀ x ∈ scanRun, KeepsListed x) :=
  ⟨rfl, table_queries_agree .arm64_v8a bootFileSystem (Run.isRun_getD_trace rfl)⟩

def sdaListed : TableStore := (initial.call (.setTables ["sda"] (List.nodup_singleton _))).1

def sdaScanned : TableStore := (sdaListed.reScan disks4096 .merge).1

def sdaRemoved : TableStore := ((sdaScanned.call (.setAutoScan false)).1.removeTable disks4096 .merge "sda").1

/-- With auto scanning off, `sda` leaves the list and `boot` stays: no table lists it,
and it is still described. -/
theorem removed_table_described : ∃ ts, Run.IsRun callStep initial ts ∧ (∃ x ∈ ts, x.after = sdaRemoved) ∧
    sdaRemoved.partitionsByTable "sda" = .ok [] ∧
    sdaRemoved.aboutPartitionsByTable .arm64_v8a bootFileSystem "sda" = .ok [⟨"boot", 4096, false⟩] ∧
    ¬ sdaRemoved.Complete := by
  have hrun : Run.IsRun callStep initial ((Run.trace callStep initial [.setTables ["sda"] (List.nodup_singleton _),
      .reScan disks4096 .merge, .setAutoScan false, .removeTable disks4096 .merge "sda"]).getD []) :=
    Run.isRun_getD_trace rfl
  obtain ⟨t, hscan⟩ := scan_of_names (t := sdaListed) disks4096 .merge (List.cons_ne_nil _ _)
  have hafter : sdaScanned = t := by
    unfold sdaScanned reScan
    rw [hscan]
  have hboot : sdaRemoved.localPartitions =
      [⟨"/dev/block/sda", [], 0, ⟨"boot", true, 1, 0, 7⟩, some ⟨"/dev/block/sda1", 4096, true⟩, false⟩] := by
    show sdaScanned.localPartitions = _
    rw [hafter, (scan_ok hscan).1]
    exact List.perm_singleton.mp (StdSort.merge.perm _)
  refine ⟨_, hrun, ⟨_, List.mem_cons_of_mem _ (List.mem_cons_of_mem _ (List.mem_cons_of_mem _ List.mem_cons_self)),
    rfl⟩, rfl, ?_, fun h => ?_⟩
  · rw [aboutPartitionsByTable_eq, hboot]
    rfl
  · rw [complete_iff, hboot] at h
    exact absurd (h _ List.mem_cons_self) List.not_mem_nil

end TableStore

end PartitionManager
