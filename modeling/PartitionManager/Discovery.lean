import Mathlib.Data.List.TakeWhile
import PartitionManager.StoreCalls
import PartitionManager.Stores

namespace PartitionManager

/-- What the search for tables asks of the file system; a call that fails throws a
`filesystem_error` of this text. No directory lists a file name twice. -/
structure BlockDirectory where
  entries : Except Str (List Str)
  distinct : ∀ paths, entries = .ok paths → (paths.map filename).Nodup
  is_block_file : Str → Except Str Bool
  exist : Str → Except Str Bool

/-- The order in which an `unordered_set` is iterated, by the order of the insertions. -/
structure HashOrder where
  order : List Str → List Str
  perm : ∀ names, (order names).Perm names

theorem slash_notMem_filename (path : Str) : '/' ∉ filename path := by
  unfold filename
  rw [List.mem_reverse]
  intro h
  simpa using List.mem_takeWhile_imp h

namespace TableNames

def insert (names : TableNames) (path : Str) : TableNames where
  list := if names.list.contains (filename path) then names.list else names.list ++ [filename path]
  nodup := by
    split
    next => exact names.nodup
    next h =>
      rw [List.contains_iff_mem] at h
      rw [← List.concat_eq_append]
      exact names.nodup.concat h
  fileNames := by
    intro name hname
    split at hname
    next => exact names.fileNames name hname
    next =>
      rcases List.mem_append.mp hname with hold | hnew
      · exact names.fileNames name hold
      · rw [List.mem_singleton.mp hnew]
        exact slash_notMem_filename path

def iterated (hash : HashOrder) (names : TableNames) : TableNames where
  list := hash.order names.list
  nodup := (hash.perm names.list).nodup_iff.mpr names.nodup
  fileNames name h := names.fileNames name ((hash.perm names.list).mem_iff.mp h)

theorem mem_insert {names : TableNames} {path name : Str} :
    name ∈ (names.insert path).list ↔ name ∈ names.list ∨ filename path = name := by
  unfold insert
  dsimp only
  split
  next h =>
    rw [List.contains_iff_mem] at h
    refine ⟨Or.inl, ?_⟩
    rintro (hold | rfl)
    · exact hold
    · exact h
  next => simp [eq_comm]

end TableNames

namespace BlockDirectory

variable (dir : BlockDirectory)

/-- `Extra::isReallyTable`. -/
def isReallyTable (name : Str) : Except Str Bool :=
  dir.exist (append (append "/sys/class/block" name) "device")

/-- The test of one entry. -/
def isTable (path : Str) : Except Str Bool := do
  if ← dir.is_block_file path then dir.isReallyTable (filename path) else .ok false

def sortEntries (paths : List Str) : List Str := paths.mergeSort fun a b => decide (filename a ≤ filename b)

/-- The loop of `findTablePaths`. -/
def findTables : List Str → TableNames → Except Str TableNames
  | [], names => .ok names
  | path :: paths, names => do
    if ← dir.isTable path then findTables paths (names.insert path) else findTables paths names

/-- The `try` block of `findTablePaths`. -/
def find (names : TableNames) : Except Str TableNames := do
  let paths ← dir.entries
  dir.findTables (sortEntries paths) names

end BlockDirectory

namespace PartitionTableData

def findTablePaths (dir : BlockDirectory) (hash : HashOrder) (t : PartitionTableData) :
    Outcome PartitionTableData :=
  match dir.find t.localTableNames with
  | .error what => raise ⟨what, 1, false⟩
  | .ok names =>
    if names.list.isEmpty then raise ⟨"Can't find any disk or partition table in /dev/block", 1, false⟩
    else .ok { t with
      localTableNames := names.iterated hash
      isUFS := if names.list.length > 1 then true else t.isUFS }

/-- The members before the constructor's body. -/
def unscanned : PartitionTableData where
  gptDataCollection := []
  localPartitions := []
  localTableNames := .empty
  physical := TableStore.physical_nil

/-- The default constructor. -/
def construct (dir : BlockDirectory) (hash : HashOrder) (dev : ScanDevice) (std : StdSort) :
    Outcome PartitionTableData := do
  let t ← findTablePaths dir hash unscanned
  t.scan dev std

end PartitionTableData

namespace BlockDirectory

variable (dir : BlockDirectory)

/-- The directory lists a whole disk under this name. -/
def Disk (name : Str) : Prop :=
  ∃ paths, dir.entries = .ok paths ∧ ∃ path ∈ paths, dir.isTable path = .ok true ∧ filename path = name

/-- Reading the directory fails, or the test of one of its entries. -/
def Fails (what : Str) : Prop :=
  dir.entries = .error what ∨ ∃ paths, dir.entries = .ok paths ∧ ∃ path ∈ paths, dir.isTable path = .error what

/-- The same directory, whose entries come in another order. -/
structure Reordered (dir dir' : BlockDirectory) : Prop where
  unread : ∀ what, dir.entries = .error what → dir'.entries = .error what
  lists : ∀ paths, dir.entries = .ok paths → ∃ paths', dir'.entries = .ok paths' ∧ paths.Perm paths'
  is_block_file : dir'.is_block_file = dir.is_block_file
  exist : dir'.exist = dir.exist

variable {dir} {dir' : BlockDirectory}

theorem findTables_cons (path : Str) (paths : List Str) (names : TableNames) :
    dir.findTables (path :: paths) names =
      (dir.isTable path >>= fun found => dir.findTables paths (if found then names.insert path else names)) := by
  rw [findTables]
  congr 1
  funext found
  cases found <;> rfl

theorem findTables_ok {paths : List Str} {names names' : TableNames}
    (h : dir.findTables paths names = .ok names') : (∀ path ∈ paths, ∃ found, dir.isTable path = .ok found) ∧
      ∀ name, name ∈ names'.list ↔
        name ∈ names.list ∨ ∃ path ∈ paths, dir.isTable path = .ok true ∧ filename path = name := by
  induction paths generalizing names with
  | nil =>
    cases h
    simp
  | cons path paths ih =>
    rw [findTables_cons] at h
    obtain ⟨found, hfound, hrest⟩ := Checks.bind_ok_iff.mp h
    obtain ⟨hall, hnames⟩ := ih hrest
    refine ⟨List.forall_mem_cons.mpr ⟨⟨found, hfound⟩, hall⟩, fun name => ?_⟩
    rw [hnames, List.exists_mem_cons_iff, hfound, ← or_assoc]
    refine or_congr_left ?_
    cases found with
    | true => simp [TableNames.mem_insert]
    | false => simp

theorem findTables_error {paths : List Str} {names : TableNames} {what : Str}
    (h : dir.findTables paths names = .error what) : ∃ path ∈ paths, dir.isTable path = .error what := by
  induction paths generalizing names with
  | nil => cases h
  | cons path paths ih =>
    rw [findTables_cons] at h
    rcases Checks.bind_error_iff.mp h with hhere | ⟨found, _, hrest⟩
    · exact ⟨path, List.mem_cons_self, hhere⟩
    · obtain ⟨other, hmem, hother⟩ := ih hrest
      exact ⟨other, List.mem_cons_of_mem _ hmem, hother⟩

theorem mem_sortEntries {paths : List Str} {path : Str} : path ∈ sortEntries paths ↔ path ∈ paths :=
  (List.mergeSort_perm paths _).mem_iff

theorem sortEntries_pairwise (paths : List Str) :
    (sortEntries paths).Pairwise fun a b => filename a ≤ filename b := by
  refine (List.pairwise_mergeSort ?_ ?_ paths).imp ?_
  · intro a b c hab hbc
    rw [decide_eq_true_eq] at hab hbc ⊢
    exact le_trans hab hbc
  · intro a b
    simpa using le_total (filename a) (filename b)
  · intro a b hab
    exact of_decide_eq_true hab

/-- No two file names are the same, so there is one sorted order only. -/
theorem sortEntries_congr {paths paths' : List Str} (hperm : paths.Perm paths') (hnodup : (paths.map filename).Nodup) :
    sortEntries paths = sortEntries paths' := by
  have hinj := List.inj_on_of_nodup_map hnodup
  refine List.Perm.eq_of_pairwise ?_ (sortEntries_pairwise paths) (sortEntries_pairwise paths') ?_
  · intro a b ha hb hab hba
    exact hinj (mem_sortEntries.mp ha) (hperm.mem_iff.mpr (mem_sortEntries.mp hb)) (le_antisymm hab hba)
  · exact ((List.mergeSort_perm paths _).trans hperm).trans (List.mergeSort_perm paths' _).symm

theorem find_ok {names : TableNames} (h : dir.find .empty = .ok names) :
    (∀ what, ¬ dir.Fails what) ∧ ∀ name, name ∈ names.list ↔ dir.Disk name := by
  obtain ⟨paths, hpaths, hfind⟩ := Checks.bind_ok_iff.mp h
  obtain ⟨hall, hnames⟩ := findTables_ok hfind
  refine ⟨?_, fun name => ?_⟩
  · rintro what (hunread | ⟨paths', hpaths', path, hmem, hpath⟩)
    · rw [hpaths] at hunread
      cases hunread
    · obtain rfl := Except.ok.inj (hpaths.symm.trans hpaths')
      obtain ⟨found, hfound⟩ := hall path (mem_sortEntries.mpr hmem)
      rw [hpath] at hfound
      cases hfound
  · rw [hnames]
    simp only [TableNames.empty, List.not_mem_nil, false_or, mem_sortEntries]
    constructor
    · intro hfound
      exact ⟨paths, hpaths, hfound⟩
    · rintro ⟨paths', hpaths', hfound⟩
      rw [Except.ok.inj (hpaths.symm.trans hpaths')]
      exact hfound

theorem find_error {names : TableNames} {what : Str} (h : dir.find names = .error what) : dir.Fails what := by
  rcases Checks.bind_error_iff.mp h with hunread | ⟨paths, hpaths, hfind⟩
  · exact Or.inl hunread
  · obtain ⟨path, hmem, hpath⟩ := findTables_error hfind
    exact Or.inr ⟨paths, hpaths, path, mem_sortEntries.mp hmem, hpath⟩

theorem Reordered.findTables (h : dir.Reordered dir') (paths : List Str) (names : TableNames) :
    dir'.findTables paths names = dir.findTables paths names := by
  have htest : dir'.isTable = dir.isTable := by
    funext path
    simp only [isTable, isReallyTable, h.is_block_file, h.exist]
  induction paths generalizing names with
  | nil => rfl
  | cons path paths ih => simp only [findTables_cons, htest, ih]

theorem Reordered.find (h : dir.Reordered dir') (names : TableNames) : dir'.find names = dir.find names := by
  unfold BlockDirectory.find
  cases hentries : dir.entries with
  | error what =>
    rw [h.unread what hentries]
    rfl
  | ok paths =>
    obtain ⟨paths', hpaths', hperm⟩ := h.lists paths hentries
    rw [hpaths', Checks.ok_bind, Checks.ok_bind, h.findTables, sortEntries_congr hperm (dir.distinct paths hentries)]

end BlockDirectory

namespace PartitionTableData

/-- The same store up to the order of its lists, or the same exception. -/
inductive SameStart : Outcome PartitionTableData → Outcome PartitionTableData → Prop
  | stores {t t' : PartitionTableData} (names : t.localTableNames.list.Perm t'.localTableNames.list)
    (partitions : t.localPartitions.Perm t'.localPartitions)
    (data : t.gptDataCollection.Perm t'.gptDataCollection) (ufs : t.isUFS = t'.isUFS) : SameStart (.ok t) (.ok t')
  | stops (stop : Stop) : SameStart (.error stop) (.error stop)

/-- The store lists the whole disks, and one partition for each used slot of those that a scan loads. -/
structure Discovered (dir : BlockDirectory) (dev : ScanDevice) (t : PartitionTableData) : Prop where
  tables : ∀ name, name ∈ t.localTableNames.list ↔ dir.Disk name
  partitions : t.localPartitions.Perm (t.localTableNames.list.flatMap dev.tableEntries)
  sorted : t.localPartitions.Pairwise fun a b => ¬ b.name < a.name
  data : ∀ name gpt, dir.Disk name → dev.loaded name = some gpt →
    (append ScanDevice.devBlock name, gpt) ∈ t.gptDataCollection
  ufs : t.isUFS = true ↔ ∃ a b, dir.Disk a ∧ dir.Disk b ∧ a ≠ b

/-- How the constructor throws: with the text of the failure, or for want of a disk. -/
inductive NotDiscovered (dir : BlockDirectory) : Stop → Prop
  | fails {what : Str} (h : dir.Fails what) : NotDiscovered dir (.thrown ⟨what, 1, false⟩)
  | nothing (h : ∀ name, ¬ dir.Disk name) :
    NotDiscovered dir (.thrown ⟨"Can't find any disk or partition table in /dev/block", 1, false⟩)

variable {dir dir' : BlockDirectory} {hash hash' : HashOrder} {dev : ScanDevice} {std std' : StdSort}
  {t t' : PartitionTableData}

theorem two_le_length_iff {names : List Str} (hnodup : names.Nodup) :
    1 < names.length ↔ ∃ a b, a ∈ names ∧ b ∈ names ∧ a ≠ b := by
  constructor
  · intro h
    refine ⟨names[0], names[1], List.getElem_mem _, List.getElem_mem _, ?_⟩
    intro heq
    exact absurd ((hnodup.getElem_inj_iff).mp heq) (by omega)
  · rintro ⟨a, b, ha, hb, hne⟩
    by_contra h
    match names, ha, hb with
    | [x], ha, hb => exact hne ((List.mem_singleton.mp ha).trans (List.mem_singleton.mp hb).symm)
    | _ :: _ :: _, _, _ => simp at h

/-- A search that returns. -/
theorem findTablePaths_ok (h : findTablePaths dir hash unscanned = .ok t) : (∀ what, ¬ dir.Fails what) ∧
    (∀ name, name ∈ t.localTableNames.list ↔ dir.Disk name) ∧ t.localTableNames.list ≠ [] ∧
    (t.isUFS = true ↔ 1 < t.localTableNames.list.length) := by
  unfold findTablePaths at h
  split at h
  next => cases h
  next names hfind =>
    obtain ⟨hnever, hnames⟩ := BlockDirectory.find_ok hfind
    have hperm := hash.perm names.list
    split at h
    next => cases h
    next hsome =>
      cases h
      refine ⟨hnever, fun name => (hperm.mem_iff).trans (hnames name), ?_, ?_⟩
      · intro hnil
        rw [show names.list = [] from List.nil_perm.mp (hnil ▸ hperm)] at hsome
        exact hsome rfl
      · rw [show (names.iterated hash).list.length = names.list.length from hperm.length_eq]
        simp [unscanned]

theorem findTablePaths_error {stop : Stop} (h : findTablePaths dir hash unscanned = .error stop) :
    NotDiscovered dir stop := by
  unfold findTablePaths at h
  split at h
  next what hfind =>
    cases h
    exact .fails (BlockDirectory.find_error hfind)
  next names hfind =>
    split at h
    next hnil =>
      cases h
      refine .nothing fun name hdisk => ?_
      have hmem := ((BlockDirectory.find_ok hfind).2 name).mpr hdisk
      rw [List.isEmpty_iff.mp hnil] at hmem
      cases hmem
    next => cases h

/-- A scan with a table to scan does not throw. -/
theorem scan_of_names (dev : ScanDevice) (std : StdSort) (hnames : t.localTableNames.list ≠ []) :
    ∃ t', t.scan dev std = .ok t' ∧ t'.isUFS = t.isUFS := by
  obtain ⟨s, hscan⟩ := TableStore.scan_of_names (t := t.toStore) dev std hnames
  unfold scan
  rw [hscan]
  exact ⟨_, rfl, rfl⟩

theorem construct_cases (dir : BlockDirectory) (hash : HashOrder) (dev : ScanDevice) (std : StdSort) :
    (∃ stop, construct dir hash dev std = .error stop ∧ NotDiscovered dir stop) ∨
    ∃ t₀ t, findTablePaths dir hash unscanned = .ok t₀ ∧ t₀.scan dev std = .ok t ∧ t.isUFS = t₀.isUFS ∧
      construct dir hash dev std = .ok t := by
  unfold construct
  cases hfind : findTablePaths dir hash unscanned with
  | error stop => exact Or.inl ⟨stop, rfl, findTablePaths_error hfind⟩
  | ok t₀ =>
    obtain ⟨t, hscan, hufs⟩ := scan_of_names dev std (findTablePaths_ok hfind).2.2.1
    exact Or.inr ⟨t₀, t, rfl, hscan, hufs, hscan⟩

theorem construct_discovered (h : construct dir hash dev std = .ok t) : Discovered dir dev t := by
  rcases construct_cases dir hash dev std with
    ⟨_, hstop, _⟩ | ⟨t₀, t', hfind, hscan, hufs, hok⟩
  · rw [h] at hstop
    cases hstop
  · obtain rfl := Except.ok.inj (h.symm.trans hok)
    obtain ⟨_, htables, _, hmany⟩ := findTablePaths_ok hfind
    obtain ⟨hlist, hdata, hnames, _⟩ := scan_ok hscan
    refine ⟨fun name => by rw [hnames, htables], ?_, ?_, ?_, ?_⟩
    · rw [hlist, hnames]
      exact std.perm _
    · rw [hlist]
      exact std.sorted _
    · intro name gpt hdisk hload
      rw [hdata, ScanDevice.mem_tableData]
      exact ⟨name, (htables name).mpr hdisk, rfl, hload⟩
    · rw [hufs, hmany, two_le_length_iff t₀.localTableNames.nodup]
      simp only [htables]

theorem construct_stopped {stop : Stop} (h : construct dir hash dev std = .error stop) : NotDiscovered dir stop := by
  rcases construct_cases dir hash dev std with
    ⟨stop', hstop, hwhy⟩ | ⟨_, _, _, _, _, hok⟩
  · rw [h] at hstop
    cases hstop
    exact hwhy
  · rw [h] at hok
    cases hok

theorem construct_stops_iff : (∃ stop, construct dir hash dev std = .error stop) ↔
    (∃ what, dir.Fails what) ∨ ∀ name, ¬ dir.Disk name := by
  constructor
  · rintro ⟨stop, h⟩
    cases construct_stopped h with
    | fails hfails => exact Or.inl ⟨_, hfails⟩
    | nothing hnothing => exact Or.inr hnothing
  · intro h
    rcases construct_cases dir hash dev std with
      ⟨stop, hstop, _⟩ | ⟨t₀, _, hfind, _, _, _⟩
    · exact ⟨stop, hstop⟩
    · obtain ⟨hnever, htables, hsome, _⟩ := findTablePaths_ok hfind
      rcases h with ⟨what, hfails⟩ | hnothing
      · exact absurd hfails (hnever what)
      · obtain ⟨name, hname⟩ := List.exists_mem_of_ne_nil _ hsome
        exact absurd ((htables name).mp hname) (hnothing name)

/-- The search does not depend on the order in which the directory is listed, the
store's lists not on the order in which its set is iterated. -/
theorem construct_reordered (h : dir.Reordered dir') :
    SameStart (construct dir hash dev std) (construct dir' hash' dev std') := by
  unfold construct findTablePaths
  rw [h.find]
  cases hfind : dir.find unscanned.localTableNames with
  | error what => exact .stops _
  | ok names =>
    dsimp only
    by_cases hnil : names.list.isEmpty = true
    · rw [if_pos hnil, if_pos hnil]
      exact .stops _
    · rw [if_neg hnil, Checks.ok_bind, if_neg hnil, Checks.ok_bind]
      have hperm := (hash.perm names.list).trans (hash'.perm names.list).symm
      have hsome : ∀ order : HashOrder, order.order names.list ≠ [] := by
        intro order hempty
        have hall := order.perm names.list
        rw [hempty] at hall
        exact hnil (List.isEmpty_iff.mpr (List.nil_perm.mp hall))
      obtain ⟨t, hscan, hufs⟩ := @scan_of_names { unscanned with
          localTableNames := names.iterated hash
          isUFS := if names.list.length > 1 then true else unscanned.isUFS } dev std (hsome hash)
      obtain ⟨t', hscan', hufs'⟩ := @scan_of_names { unscanned with
          localTableNames := names.iterated hash'
          isUFS := if names.list.length > 1 then true else unscanned.isUFS } dev std' (hsome hash')
      rw [hscan, hscan']
      obtain ⟨hlist, hdata, hnames, _⟩ := scan_ok hscan
      obtain ⟨hlist', hdata', hnames', _⟩ := scan_ok hscan'
      refine .stores ?_ ?_ ?_ (hufs.trans hufs'.symm)
      · rw [hnames, hnames']
        exact hperm
      · rw [hlist, hlist']
        exact ((std.perm _).trans (hperm.flatMap_right _)).trans (std'.perm _).symm
      · rw [hdata, hdata']
        exact hperm.filterMap _

theorem call_isUFS (c : StoreCall) : (t.call dev std c).1.isUFS = t.isUFS := by
  cases c with
  | reScan => rfl
  | removeTable name => rfl
  | setGPTDataOf name data => rfl
  | clear => rfl
  | reset => rfl

end PartitionTableData

/-- What a start of the program makes of the disks of the device. -/
structure Discovery (dir : BlockDirectory) (hash : HashOrder) (dev : ScanDevice) (std : StdSort) : Prop where
  found : ∀ t, PartitionTableData.construct dir hash dev std = .ok t → t.Discovered dir dev
  stopped : ∀ stop, PartitionTableData.construct dir hash dev std = .error stop →
    PartitionTableData.NotDiscovered dir stop
  stops : (∃ stop, PartitionTableData.construct dir hash dev std = .error stop) ↔
    (∃ what, dir.Fails what) ∨ ∀ name, ¬ dir.Disk name
  reordered : ∀ dir' hash' std', dir.Reordered dir' → PartitionTableData.SameStart
    (PartitionTableData.construct dir hash dev std) (PartitionTableData.construct dir' hash' dev std')
  unlisted : ∀ second flags onLogical forceProcess,
    BasicFlags.construct (PartitionTableData.construct dir hash dev std) second = .ok flags →
      BasicFlags.tableChecks { flags with onLogical, forceProcess } ≠
        raise ⟨"Cannot find any partition table on this device.", 1, false⟩
  null : ∀ second flags onLogical forceProcess,
    BasicFlags.construct (PartitionTableData.construct dir hash dev std) second = .ok flags →
      (BasicFlags.tableChecks { flags with onLogical, forceProcess } = .error (.undefined .nullDereference) ↔
        ∃ stop, PartitionTableData.construct dir hash dev std = .error stop)
  ufs : ∀ t ts, PartitionTableData.construct dir hash dev std = .ok t →
    Run.IsRun (PartitionTableData.callStep dev std) t ts → ∀ s ∈ ts, s.after.isUFS = t.isUFS

section

variable {dir : BlockDirectory} {hash : HashOrder} {dev : ScanDevice} {std : StdSort} {flags : BasicFlags}
  {second : Outcome DynamicTableData} {onLogical forceProcess : Bool}

/-- What is left of a first store that was not built, or was. -/
theorem flags_cases
    (hflags : BasicFlags.construct (PartitionTableData.construct dir hash dev std) second = .ok flags) :
    ((∃ stop, PartitionTableData.construct dir hash dev std = .error stop) ∧ flags.partitionTables.1 = none) ∨
      ∃ t, PartitionTableData.construct dir hash dev std = .ok t ∧ flags.partitionTables.1 = some t := by
  unfold BasicFlags.construct at hflags
  split at hflags
  next e he =>
    cases hflags
    exact Or.inl ⟨⟨_, he⟩, rfl⟩
  next => cases hflags
  next t ht =>
    refine Or.inr ⟨t, ht, ?_⟩
    split at hflags
    next =>
      cases hflags
      rfl
    next => cases hflags
    next =>
      cases hflags
      rfl

theorem checks_null_iff
    (hflags : BasicFlags.construct (PartitionTableData.construct dir hash dev std) second = .ok flags) :
    BasicFlags.tableChecks { flags with onLogical, forceProcess } = .error (.undefined .nullDereference) ↔
      ∃ stop, PartitionTableData.construct dir hash dev std = .error stop := by
  rcases flags_cases hflags with ⟨hstop, hnone⟩ | ⟨t, ht, hsome⟩
  · refine iff_of_true ?_ hstop
    unfold BasicFlags.tableChecks
    dsimp only
    rw [hnone]
  · refine iff_of_false (BasicFlags.tableChecks_ne_null hsome) ?_
    rintro ⟨stop, hstop⟩
    rw [ht] at hstop
    cases hstop

/-- A store that was built lists a table. -/
theorem checks_listed
    (hflags : BasicFlags.construct (PartitionTableData.construct dir hash dev std) second = .ok flags) :
    BasicFlags.tableChecks { flags with onLogical, forceProcess } ≠
      raise ⟨"Cannot find any partition table on this device.", 1, false⟩ := by
  rcases flags_cases hflags with ⟨hstop, _⟩ | ⟨t, ht, hsome⟩
  · rw [(checks_null_iff hflags).mpr hstop]
    exact fun h => nomatch h
  · have hlisted : t.tableNamesEmpty = false := by
      by_contra hempty
      have hnil : t.localTableNames.list = [] := List.isEmpty_iff.mp (eq_true_of_ne_false hempty)
      have hnothing : ∀ name, ¬ dir.Disk name := by
        intro name hdisk
        have hmem := ((PartitionTableData.construct_discovered ht).tables name).mpr hdisk
        rw [hnil] at hmem
        cases hmem
      obtain ⟨stop, hstop⟩ := PartitionTableData.construct_stops_iff.mpr (Or.inr hnothing)
      rw [ht] at hstop
      cases hstop
    unfold BasicFlags.tableChecks
    dsimp only
    rw [hsome]
    dsimp only
    rw [hlisted, if_neg Bool.false_ne_true]
    split
    next => decide
    next =>
      split
      next => decide
      next => exact fun h => nomatch h

end

/-- From the device to the checks of `main`: the stores that are built, the
starts that throw, and what the program then looks at. -/
theorem start_discovers (dir : BlockDirectory) (hash : HashOrder) (dev : ScanDevice) (std : StdSort) :
    Discovery dir hash dev std where
  found _ h := PartitionTableData.construct_discovered h
  stopped _ h := PartitionTableData.construct_stopped h
  stops := PartitionTableData.construct_stops_iff
  reordered _ _ _ h := PartitionTableData.construct_reordered h
  unlisted _ _ _ _ h := checks_listed h
  null _ _ _ _ h := checks_null_iff h
  ufs t _ _ hrun := by
    refine @Run.forall_of_invariant _ _ _ _ (fun s => s.isUFS = t.isUFS) _ ?_ _ _ rfl hrun
    intro s c o s' hs hstep
    obtain ⟨rfl, rfl⟩ := Prod.ext_iff.mp (Option.some.inj hstep)
    have hkept : (s.call dev std c).1.isUFS = t.isUFS := (PartitionTableData.call_isUFS c).trans hs
    exact ⟨hkept, hkept⟩

end PartitionManager
