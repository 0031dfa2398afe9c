import PartitionManager.DynamicCopies

namespace PartitionManager

/-- A `PartitionTableData` with the disk GUID of each table that it has data of. The
data lie in a map by path, and every path starts at the root. -/
structure PhysicalStore where
  table : PartitionTableData
  diskGUID : Str → Nat
  absolute : ∀ entry ∈ table.gptDataCollection, entry.1.head? = some '/'
  distinct : table.gptDataCollection.Pairwise fun a b => squeeze a.1 ≠ squeeze b.1

namespace Partition

theorem mapM_copyCtor {fs : FileSystem} {openpart_open : Str → UInt32 → Option OpenPart} {ps qs : List Partition}
    (h : ps.mapM (copyCtor fs openpart_open) = .ok qs) : qs.map bare = ps.map bare := by
  have hcopies := Checks.mapM_ok_iff.mp h
  clear h
  induction hcopies with
  | nil => rfl
  | cons hcopy _ ih =>
    obtain ⟨op, rfl⟩ := copyCtor_fields hcopy
    rw [List.map_cons, List.map_cons, ih]
    rfl

theorem physical_of_bare {ps qs : List Partition} (h : qs.map bare = ps.map bare)
    (hps : ∀ p ∈ ps, p.isLogical = false) : ∀ q ∈ qs, q.isLogical = false := by
  intro q hq
  have hmem : q.bare ∈ ps.map bare := h ▸ List.mem_map_of_mem hq
  obtain ⟨p, hp, hbare⟩ := List.mem_map.mp hmem
  have hkind : p.bare.isLogical = q.bare.isLogical := congrArg Partition.isLogical hbare
  exact hkind.symm.trans (hps p hp)

theorem equalVectors_symm {ps qs : List Partition} (hps : ∀ p ∈ ps, p.isLogical = false)
    (hqs : ∀ q ∈ qs, q.isLogical = false) (h : equalVectors ps qs = true) : equalVectors qs ps = true := by
  induction ps generalizing qs with
  | nil =>
    cases qs with
    | nil => rfl
    | cons q qs => cases h
  | cons p ps ih =>
    cases qs with
    | nil => cases h
    | cons q qs =>
      rw [List.forall_mem_cons] at hps hqs
      have hparts : p.operator_eq q = true ∧ equalVectors ps qs = true := by
        rwa [equalVectors, Bool.and_eq_true] at h
      have hhead := operator_eq_symm (hps.1.trans hqs.1.symm) hparts.1
      have htail := ih hps.2 hqs.2 hparts.2
      rw [equalVectors, hhead, htail, Bool.and_true]

theorem equalVectors_trans {ps qs rs : List Partition} (hps : ∀ p ∈ ps, p.isLogical = false)
    (hqs : ∀ q ∈ qs, q.isLogical = false) (hpq : equalVectors ps qs = true) (hqr : equalVectors qs rs = true) :
    equalVectors ps rs = true := by
  induction ps generalizing qs rs with
  | nil =>
    cases qs with
    | nil => exact hqr
    | cons q qs => cases hpq
  | cons p ps ih =>
    cases qs with
    | nil => cases hpq
    | cons q qs =>
      cases rs with
      | nil => cases hqr
      | cons r rs =>
        rw [List.forall_mem_cons] at hps hqs
        rw [equalVectors, Bool.and_eq_true] at hpq hqr
        have hhead := operator_eq_trans (hps.1.trans hqs.1.symm) hpq.1 hqr.1
        have htail := ih hps.2 hqs.2 hpq.2 hqr.2
        rw [equalVectors, hhead, htail, Bool.and_true]

end Partition

namespace PhysicalStore

section

variable (fs : FileSystem) (openpart_open : Str → UInt32 → Option OpenPart) (a : PhysicalStore)

/-- `other.GPTDataOf(name)->GetDiskGUID()` -/
def diskGUIDOf (name : Str) : Outcome Nat :=
  (a.table.GPTDataOf name).map fun _ => a.diskGUID (squeeze (append ScanDevice.devBlock name))

/-- The turn of the comparison for one table of the left store. -/
def compareTable (other : PhysicalStore) (equal : Bool) (entry : Str × GPTData) : Outcome Bool := do
  let guid ← other.diskGUIDOf entry.1
  .ok (if a.diskGUID (squeeze entry.1) ≠ guid then false else equal)

def operator_eq (other : PhysicalStore) : Outcome Bool := do
  let equal ← a.table.gptDataCollection.foldlM (a.compareTable other) true
  .ok (Partition.equalVectors a.table.localPartitions other.table.localPartitions && equal)

def operator_ne (other : PhysicalStore) : Outcome Bool := (a.operator_eq other).map not

/-- The copy constructor shares the data of the tables and copies the partitions. -/
def copy : Outcome PhysicalStore :=
  match h : a.table.localPartitions.mapM (Partition.copyCtor fs openpart_open) with
  | .error stop => .error stop
  | .ok localPartitions =>
    .ok
      { a with
        table :=
          { a.table with
            localPartitions
            physical := Partition.physical_of_bare (Partition.mapM_copyCtor h) a.table.physical } }

def clear : PhysicalStore where
  table := a.table.clear
  diskGUID := a.diskGUID
  absolute _ h := absurd h List.not_mem_nil
  distinct := List.Pairwise.nil

end

/-- The store has data of the table at a path. -/
def Has (b : PhysicalStore) (path : Str) : Prop :=
  ∃ entry ∈ b.table.gptDataCollection, squeeze entry.1 = squeeze path

/-- Any two of the stores have data of the same tables. -/
def SameTables (stores : List PhysicalStore) : Prop :=
  ∀ a ∈ stores, ∀ b ∈ stores, ∀ entry ∈ a.table.gptDataCollection, b.Has entry.1

/-- What `==` and `!=` have to satisfy among some stores. -/
structure EqualityLaws (stores : List PhysicalStore) : Prop where
  total : ∀ a ∈ stores, ∀ b ∈ stores, ∃ equal, a.operator_eq b = .ok equal
  refl : ∀ a ∈ stores, a.operator_eq a = .ok true
  symm : ∀ a ∈ stores, ∀ b ∈ stores, a.operator_eq b = .ok true → b.operator_eq a = .ok true
  trans : ∀ a ∈ stores, ∀ b ∈ stores, ∀ c ∈ stores,
    a.operator_eq b = .ok true → b.operator_eq c = .ok true → a.operator_eq c = .ok true
  ne : ∀ a ∈ stores, ∀ b ∈ stores, ∀ equal, a.operator_eq b = .ok equal → a.operator_ne b = .ok !equal
  copies : ∀ a ∈ stores, ∀ fs openpart_open e, a.copy fs openpart_open = .ok e →
    e.operator_eq a = .ok true ∧ a.operator_eq e = .ok true

variable {a b c e : PhysicalStore} {stores : List PhysicalStore}

/-- A path of the map is looked up as it is: joined to `/dev/block`, it replaces it. -/
theorem diskGUIDOf_ok_iff {path : Str} (h : path.head? = some '/') {guid : Nat} :
    b.diskGUIDOf path = .ok guid ↔ b.Has path ∧ guid = b.diskGUID (squeeze path) := by
  have happend : append ScanDevice.devBlock path = path := by
    unfold append
    rw [if_pos h]
  unfold diskGUIDOf PartitionTableData.GPTDataOf
  rw [happend]
  cases hfind : b.table.gptDataCollection.find? fun entry => squeeze entry.1 = squeeze path with
  | none =>
    have hnone := List.find?_eq_none.mp hfind
    refine iff_of_false (fun h => nomatch h) fun hhas => ?_
    obtain ⟨⟨entry, hentry, heq⟩, _⟩ := hhas
    exact hnone entry hentry (decide_eq_true heq)
  | some entry =>
    have hpath : squeeze entry.1 = squeeze path := by simpa using List.find?_some hfind
    have hhas : b.Has path := ⟨entry, List.mem_of_find?_eq_some hfind, hpath⟩
    show Except.ok (b.diskGUID (squeeze path)) = .ok guid ↔ _
    rw [Except.ok.injEq]
    exact ⟨fun heq => ⟨hhas, heq.symm⟩, fun h => h.2.symm⟩

/-- The loop comes to its end if the right store has every table of the left one. -/
theorem compareLoop_ok_iff {entries : List (Str × GPTData)} (h : ∀ entry ∈ entries, entry.1.head? = some '/')
    (equal result : Bool) : entries.foldlM (a.compareTable b) equal = .ok result ↔
      (∀ entry ∈ entries, b.Has entry.1) ∧ result = (equal &&
        entries.all fun entry => a.diskGUID (squeeze entry.1) = b.diskGUID (squeeze entry.1)) := by
  induction entries generalizing equal with
  | nil =>
    rw [List.foldlM_nil, List.all_nil, Bool.and_true]
    show Except.ok equal = .ok result ↔ _
    rw [Except.ok.injEq]
    exact ⟨fun heq => ⟨fun entry hentry => absurd hentry List.not_mem_nil, heq.symm⟩, fun hend => hend.2.symm⟩
  | cons entry entries ih =>
    rw [List.forall_mem_cons] at h
    rw [List.foldlM_cons, Checks.bind_ok_iff, List.forall_mem_cons, List.all_cons]
    have hturn : ∀ next, a.compareTable b equal entry = .ok next ↔ b.Has entry.1 ∧
        next = (equal && decide (a.diskGUID (squeeze entry.1) = b.diskGUID (squeeze entry.1))) := by
      intro next
      unfold compareTable
      rw [Checks.bind_ok_iff]
      simp only [diskGUIDOf_ok_iff h.1, Except.ok.injEq]
      constructor
      · rintro ⟨guid, ⟨hhas, rfl⟩, rfl⟩
        refine ⟨hhas, ?_⟩
        by_cases hsame : a.diskGUID (squeeze entry.1) = b.diskGUID (squeeze entry.1)
        · simp [hsame]
        · simp [hsame]
      · rintro ⟨hhas, rfl⟩
        refine ⟨_, ⟨hhas, rfl⟩, ?_⟩
        by_cases hsame : a.diskGUID (squeeze entry.1) = b.diskGUID (squeeze entry.1)
        · simp [hsame]
        · simp [hsame]
    constructor
    · rintro ⟨next, hnext, hrest⟩
      obtain ⟨hhas, rfl⟩ := (hturn next).mp hnext
      obtain ⟨hothers, rfl⟩ := (ih h.2 _).mp hrest
      exact ⟨⟨hhas, hothers⟩, by rw [Bool.and_assoc]⟩
    · rintro ⟨⟨hhas, hothers⟩, rfl⟩
      refine ⟨_, (hturn _).mpr ⟨hhas, rfl⟩, (ih h.2 _).mpr ⟨hothers, ?_⟩⟩
      rw [Bool.and_assoc]

theorem operator_eq_ok_iff {equal : Bool} : a.operator_eq b = .ok equal ↔
    (∀ entry ∈ a.table.gptDataCollection, b.Has entry.1) ∧
      equal = (Partition.equalVectors a.table.localPartitions b.table.localPartitions &&
        a.table.gptDataCollection.all fun entry =>
          a.diskGUID (squeeze entry.1) = b.diskGUID (squeeze entry.1)) := by
  unfold operator_eq
  rw [Checks.bind_ok_iff]
  simp only [compareLoop_ok_iff a.absolute, Bool.true_and, Except.ok.injEq]
  constructor
  · rintro ⟨all, ⟨hhas, rfl⟩, rfl⟩
    exact ⟨hhas, rfl⟩
  · rintro ⟨hhas, rfl⟩
    exact ⟨_, ⟨hhas, rfl⟩, rfl⟩

theorem operator_eq_true_iff : a.operator_eq b = .ok true ↔
    (∀ entry ∈ a.table.gptDataCollection, b.Has entry.1) ∧
      Partition.equalVectors a.table.localPartitions b.table.localPartitions = true ∧
      ∀ entry ∈ a.table.gptDataCollection, a.diskGUID (squeeze entry.1) = b.diskGUID (squeeze entry.1) := by
  rw [operator_eq_ok_iff, eq_comm, Bool.and_eq_true, List.all_eq_true]
  simp only [decide_eq_true_eq]

theorem has_self : ∀ entry ∈ a.table.gptDataCollection, a.Has entry.1 :=
  fun entry hentry => ⟨entry, hentry, rfl⟩

theorem operator_eq_symm (hback : ∀ entry ∈ b.table.gptDataCollection, a.Has entry.1)
    (h : a.operator_eq b = .ok true) : b.operator_eq a = .ok true := by
  obtain ⟨_, hparts, hguids⟩ := operator_eq_true_iff.mp h
  refine operator_eq_true_iff.mpr
    ⟨hback, Partition.equalVectors_symm a.table.physical b.table.physical hparts, fun entry hentry => ?_⟩
  obtain ⟨other, hother, hpath⟩ := hback entry hentry
  have hguid := hguids other hother
  rw [hpath] at hguid
  exact hguid.symm

theorem operator_eq_trans (hab : a.operator_eq b = .ok true) (hbc : b.operator_eq c = .ok true) :
    a.operator_eq c = .ok true := by
  obtain ⟨hin, hparts, hguids⟩ := operator_eq_true_iff.mp hab
  obtain ⟨hin', hparts', hguids'⟩ := operator_eq_true_iff.mp hbc
  have hstep : ∀ entry ∈ a.table.gptDataCollection, c.Has entry.1 ∧
      b.diskGUID (squeeze entry.1) = c.diskGUID (squeeze entry.1) := by
    intro entry hentry
    obtain ⟨other, hother, hpath⟩ := hin entry hentry
    obtain ⟨third, hthird, hpath'⟩ := hin' other hother
    have hguid := hguids' other hother
    rw [hpath] at hguid hpath'
    exact ⟨⟨third, hthird, hpath'⟩, hguid⟩
  exact operator_eq_true_iff.mpr ⟨fun entry hentry => (hstep entry hentry).1,
    Partition.equalVectors_trans a.table.physical b.table.physical hparts hparts',
    fun entry hentry => (hguids entry hentry).trans (hstep entry hentry).2⟩

theorem copy_spec {fs : FileSystem} {openpart_open : Str → UInt32 → Option OpenPart}
    (h : a.copy fs openpart_open = .ok e) : e.table.gptDataCollection = a.table.gptDataCollection ∧
      e.diskGUID = a.diskGUID ∧
      e.table.localPartitions.map Partition.bare = a.table.localPartitions.map Partition.bare := by
  unfold copy at h
  split at h
  next => cases h
  next localPartitions hparts =>
    cases h
    exact ⟨rfl, rfl, Partition.mapM_copyCtor hparts⟩

/-- A store and its copy are equal in both directions. -/
theorem copy_equal {fs : FileSystem} {openpart_open : Str → UInt32 → Option OpenPart}
    (h : a.copy fs openpart_open = .ok e) : e.operator_eq a = .ok true ∧ a.operator_eq e = .ok true := by
  obtain ⟨hdata, hguid, hbare⟩ := copy_spec h
  constructor
  · refine operator_eq_true_iff.mpr ⟨?_, Partition.equalVectors_of_bare hbare, fun _ _ => by rw [hguid]⟩
    rw [hdata]
    exact has_self
  · refine operator_eq_true_iff.mpr ⟨?_, Partition.equalVectors_of_bare hbare.symm, fun _ _ => by rw [hguid]⟩
    unfold Has
    rw [hdata]
    exact has_self

/-- The comparison is an equivalence that never throws exactly among stores that have
data of the same tables. -/
theorem store_equality_iff (stores : List PhysicalStore) : EqualityLaws stores ↔ SameTables stores := by
  constructor
  · intro h a ha b hb
    obtain ⟨equal, hequal⟩ := h.total a ha b hb
    exact (operator_eq_ok_iff.mp hequal).1
  · intro h
    refine ⟨?_, ?_, ?_, ?_, ?_, ?_⟩
    · intro a ha b hb
      exact ⟨_, operator_eq_ok_iff.mpr ⟨h a ha b hb, rfl⟩⟩
    · intro a ha
      exact operator_eq_true_iff.mpr ⟨has_self, Partition.equalVectors_of_bare rfl, fun _ _ => rfl⟩
    · intro a ha b hb heq
      exact operator_eq_symm (h b hb a ha) heq
    · intro a _ b _ c _ hab hbc
      exact operator_eq_trans hab hbc
    · intro a _ b _ equal heq
      unfold operator_ne
      rw [heq]
      rfl
    · intro a _ fs openpart_open e he
      exact copy_equal he

/-- What a scan leaves, with the disk GUIDs that it read. -/
def ofScan {dev : ScanDevice} {std : StdSort} {t t' : PartitionTableData} (h : t.scan dev std = .ok t')
    (diskGUID : Str → Nat) : PhysicalStore where
  table := t'
  diskGUID := diskGUID
  absolute := by
    intro entry hentry
    rw [(PartitionTableData.scan_ok h).2.1] at hentry
    obtain ⟨name, hname, hpath, _⟩ := ScanDevice.mem_tableData.mp hentry
    rw [hpath, ScanDevice.append_devBlock (t.localTableNames.fileNames name hname)]
    rfl
  distinct := by
    rw [(PartitionTableData.scan_ok h).2.1]
    exact ScanDevice.tableData_pairwise t.localTableNames.fileNames t.localTableNames.nodup

/-- The store of a device with one disk, as the scan leaves it. -/
def bootStore : PhysicalStore :=
  ofScan (rfl : (bootTable 1).scan PartitionTableData.bootDevice .merge = .ok _) fun _ => 7

theorem bootStore_copy : ∃ e, bootStore.copy bootFileSystem (fun _ _ => none) = .ok e := by
  have hclosed : ∀ p ∈ bootStore.table.localPartitions, p.op = none := by
    intro p hp
    have hscan : (bootTable 1).scan PartitionTableData.bootDevice .merge = .ok bootStore.table := rfl
    obtain ⟨_, _, hentry⟩ := (PartitionTableData.mem_partitions_of_scan hscan).mp hp
    obtain ⟨_, _, _, _, _, _, rfl⟩ := ScanDevice.mem_tableEntries.mp hentry
    rfl
  have hopen : Partition.Reopens (fun _ _ => none) bootStore.table.localPartitions := by
    intro p hp op hop
    rw [hclosed p hp] at hop
    cases hop
  have hcopies : ∀ p ∈ bootStore.table.localPartitions,
      ∃ q, Partition.copyCtor bootFileSystem (fun _ _ => none) p = .ok q ∧ q.bare = (id p).bare :=
    fun p hp => Partition.copyCtor_of_reopens hopen hp
  obtain ⟨qs, hqs, _⟩ := Partition.mapM_bare hcopies
  unfold copy
  split
  next stop hstop =>
    rw [hqs] at hstop
    cases hstop
  next => exact ⟨_, rfl⟩

/-- A store cannot be compared with a copy of it that was cleared, but that copy can be
compared with the store. -/
theorem cleared_copy_throws : ∃ e, bootStore.copy bootFileSystem (fun _ _ => none) = .ok e ∧
    bootStore.operator_eq e.clear = raise ⟨"Can't find GPT data of /dev/block/sda", 1, false⟩ ∧
    (∃ equal, e.clear.operator_eq bootStore = .ok equal) ∧ ¬ EqualityLaws [bootStore, e.clear] := by
  obtain ⟨e, he⟩ := bootStore_copy
  have hthrows : bootStore.operator_eq e.clear = raise ⟨"Can't find GPT data of /dev/block/sda", 1, false⟩ := rfl
  have hback : e.clear.operator_eq bootStore =
      .ok (Partition.equalVectors [] bootStore.table.localPartitions && true) := rfl
  refine ⟨e, he, hthrows, ⟨_, hback⟩, fun h => ?_⟩
  obtain ⟨equal, hequal⟩ := h.total bootStore (by simp) e.clear (by simp)
  rw [hthrows] at hequal
  cases hequal

end PhysicalStore

end PartitionManager
