import PartitionManager.Flags
import PartitionManager.Library.Checks

namespace PartitionManager

def UINT64_MAX : UInt64 := 0xFFFFFFFFFFFFFFFF

namespace DynamicTableData

variable (abi : Abi) (fs : FileSystem) (d : DynamicTableData) (m : LpMetadata)

/-- `partition(name)->get().size()`. -/
def sizeOf (name : Str) : Outcome Nat :=
  match d.partition name with
  | none => .error (.undefined .emptyOptional)
  | some p => p.size abi fs

/-- `total` of the group at `index`. -/
def groupTotal (index : Nat) : Outcome UInt64 :=
  m.partitions.foldlM (fun total p =>
    if p.group_index.toNat = index then do
      let size ← d.sizeOf abi fs p.name
      .ok (total + UInt64.ofNat size)
    else .ok total) 0

def groupFits (group : LpMetadataPartitionGroup × Nat) : Outcome Bool :=
  if group.1.maximum_size = 0 then .ok true
  else do
    let total ← d.groupTotal abi fs m group.2
    .ok (!total > group.1.maximum_size)

def extentFits (extent : LpMetadataExtent) : Outcome Bool :=
  if extent.target_type ≠ LP_TARGET_TYPE_LINEAR then .ok true
  else
    match m.block_devices[extent.target_source.toNat]? with
    | none => .error (.undefined .indexOutOfRange)
    | some bd => .ok (!(extent.target_data + extent.num_sectors) * 512 > bd.size)

def partitionFits (partition : LpMetadataPartition) : Bool :=
  !(partition.first_extent_index + partition.num_extents).toNat > m.extents.length

def validMetadata : Outcome Bool :=
  match d.lpMetadata with
  | none => .ok false
  | some m =>
    if m.header.magic ≠ LP_METADATA_HEADER_MAGIC then .ok false
    else do
      if !(← m.groups.zipIdx.allM (d.groupFits abi fs m)) then .ok false
      else if !(← m.extents.allM (extentFits m)) then .ok false
      else .ok (m.partitions.all (partitionFits m))

/-- One turn of the loop of `freeSpace`. -/
def addUsed (name : Str) (used_size : UInt64) (p : LpMetadataPartition) : Outcome UInt64 :=
  match m.groups[p.group_index.toNat]? with
  | none => .error (.undefined .indexOutOfRange)
  | some group =>
    if group.name = name then do
      let size ← d.sizeOf abi fs name
      .ok (used_size + UInt64.ofNat size)
    else .ok used_size

def freeSpace (name : Str) : Outcome UInt64 :=
  match d.lpMetadata with
  | none => .error (.undefined .nullDereference)
  | some m =>
    match m.groups.find? fun group => group.name = name with
    | none => .ok UINT64_MAX
    | some it => do
      let used_size ← m.partitions.foldlM (d.addUsed abi fs m name) 0
      .ok (it.maximum_size - used_size)

/-- The sizes of the partitions whose `group_index` names the group. -/
def memberSizes (index : Nat) : Outcome (List Nat) :=
  (m.partitions.filter fun p => p.group_index.toNat = index).mapM fun p => d.sizeOf abi fs p.name

variable {abi : Abi} {fs : FileSystem} {d : DynamicTableData} {m : LpMetadata} {name : Str} {index : Nat}

theorem sizeOf_ne_outOfRange : d.sizeOf abi fs name ≠ .error (.undefined .indexOutOfRange) := by
  unfold sizeOf Partition.size
  cases d.partition name with
  | none => simp
  | some p =>
    dsimp only
    split
    next => simp [raise, Stop.thrown]
    next => simp

/-- The total of a group is the sum of its sizes modulo 2^64. -/
theorem foldlM_total (ps : List LpMetadataPartition) (total : UInt64) :
    ps.foldlM (fun total p =>
        if p.group_index.toNat = index then do
          let size ← d.sizeOf abi fs p.name
          .ok (total + UInt64.ofNat size)
        else .ok total) total =
      ((ps.filter fun p => p.group_index.toNat = index).mapM fun p => d.sizeOf abi fs p.name) >>= fun sizes =>
        .ok (total + UInt64.ofNat sizes.sum) := by
  induction ps generalizing total with
  | nil => simp [pure, Except.pure, bind, Except.bind]
  | cons p ps ih =>
    rw [List.foldlM_cons]
    by_cases hp : p.group_index.toNat = index
    · rw [if_pos hp, List.filter_cons_of_pos (by simpa using hp), List.mapM_cons]
      cases d.sizeOf abi fs p.name with
      | error stop => rfl
      | ok size =>
        show List.foldlM _ (total + UInt64.ofNat size) ps = _
        rw [ih]
        cases (ps.filter fun p => p.group_index.toNat = index).mapM fun p => d.sizeOf abi fs p.name with
        | error stop => rfl
        | ok sizes => simp [bind, Except.bind, pure, Except.pure, UInt64.add_assoc]
    · rw [if_neg hp, List.filter_cons_of_neg (by simpa using hp)]
      exact ih total

theorem groupFits_ok_true {group : LpMetadataPartitionGroup} :
    d.groupFits abi fs m (group, index) = .ok true ↔
      (group.maximum_size ≠ 0 →
        ∃ sizes, d.memberSizes abi fs m index = .ok sizes ∧ sizes.sum % 2 ^ 64 ≤ group.maximum_size.toNat) := by
  unfold groupFits
  by_cases hmax : group.maximum_size = 0
  · simp [hmax]
  · rw [if_neg hmax]
    unfold groupTotal
    rw [foldlM_total, Checks.bind_ok_iff]
    constructor
    · intro h hne
      obtain ⟨total, htotal, hfits⟩ := h
      obtain ⟨sizes, hsizes, hsum⟩ := Checks.bind_ok_iff.mp htotal
      refine ⟨sizes, hsizes, ?_⟩
      have hle := Except.ok.inj hfits
      rw [← Except.ok.inj hsum] at hle
      simpa [UInt64.le_iff_toNat_le] using hle
    · intro h
      obtain ⟨sizes, hsizes, hsum⟩ := h hmax
      refine ⟨_, Checks.bind_ok_iff.mpr ⟨sizes, hsizes, rfl⟩, ?_⟩
      simpa [UInt64.le_iff_toNat_le] using hsum

theorem memberSizes_ne_outOfRange : d.memberSizes abi fs m index ≠ .error (.undefined .indexOutOfRange) := by
  unfold memberSizes
  generalize m.partitions.filter (fun p => p.group_index.toNat = index) = ps
  induction ps with
  | nil => exact nofun
  | cons p ps ih =>
    rw [List.mapM_cons]
    intro h
    rcases Checks.bind_error_iff.mp h with hsize | ⟨size, _, hrest⟩
    · exact sizeOf_ne_outOfRange hsize
    · rcases Checks.bind_error_iff.mp hrest with hsizes | ⟨sizes, _, hend⟩
      · exact ih hsizes
      · cases hend

theorem groupFits_ne_outOfRange {group : LpMetadataPartitionGroup × Nat} :
    d.groupFits abi fs m group ≠ .error (.undefined .indexOutOfRange) := by
  unfold groupFits groupTotal
  rw [foldlM_total]
  intro h
  split at h
  next => cases h
  next =>
    rcases Checks.bind_error_iff.mp h with htotal | ⟨total, _, hend⟩
    · rcases Checks.bind_error_iff.mp htotal with hsizes | ⟨sizes, _, hend⟩
      · exact memberSizes_ne_outOfRange hsizes
      · cases hend
    · cases hend

/-- The limits that accepted metadata should keep, in exact integers. -/
structure InBounds (abi : Abi) (fs : FileSystem) (d : DynamicTableData) (m : LpMetadata) : Prop where
  extents : ∀ e ∈ m.extents, e.target_type = LP_TARGET_TYPE_LINEAR →
    ∃ bd, m.block_devices[e.target_source.toNat]? = some bd ∧
      (e.target_data.toNat + e.num_sectors.toNat) * 512 ≤ bd.size.toNat
  partitions : ∀ p ∈ m.partitions, p.first_extent_index.toNat + p.num_extents.toNat ≤ m.extents.length
  groups : ∀ index group, m.groups[index]? = some group → group.maximum_size ≠ 0 →
    ∃ sizes, d.memberSizes abi fs m index = .ok sizes ∧ sizes.sum ≤ group.maximum_size.toNat

/-- The group limits modulo 2^64. -/
def GroupsModulo (abi : Abi) (fs : FileSystem) (d : DynamicTableData) (m : LpMetadata) : Prop :=
  ∀ index group, m.groups[index]? = some group → group.maximum_size ≠ 0 →
    ∃ sizes, d.memberSizes abi fs m index = .ok sizes ∧ sizes.sum % 2 ^ 64 ≤ group.maximum_size.toNat

/-- The limit of an extent modulo 2^64. -/
def ExtentModulo (m : LpMetadata) (e : LpMetadataExtent) : Prop :=
  e.target_type = LP_TARGET_TYPE_LINEAR → ∃ bd, m.block_devices[e.target_source.toNat]? = some bd ∧
    (e.target_data.toNat + e.num_sectors.toNat) * 512 % 2 ^ 64 ≤ bd.size.toNat

/-- Every linear extent names a block device, unless the magic, a group or an
extent before it is over a limit already. -/
def SourcesInRange (abi : Abi) (fs : FileSystem) (d : DynamicTableData) (m : LpMetadata) : Prop :=
  m.header.magic = LP_METADATA_HEADER_MAGIC → GroupsModulo abi fs d m →
    ∀ pre e post, m.extents = pre ++ e :: post → (∀ y ∈ pre, ExtentModulo m y) →
      e.target_type = LP_TARGET_TYPE_LINEAR → e.target_source.toNat < m.block_devices.length

/-- All limits are kept modulo the width of the fields. -/
structure WithinModulo (abi : Abi) (fs : FileSystem) (d : DynamicTableData) (m : LpMetadata) : Prop where
  magic : m.header.magic = LP_METADATA_HEADER_MAGIC
  groups : GroupsModulo abi fs d m
  extents : ∀ e ∈ m.extents, ExtentModulo m e
  partitions : ∀ p ∈ m.partitions,
    (p.first_extent_index.toNat + p.num_extents.toNat) % 2 ^ 32 ≤ m.extents.length

/-- No sum and no product leaves its type. Only a table of 2^32 extents has room for
indices that wrap. -/
structure NoWrap (abi : Abi) (fs : FileSystem) (d : DynamicTableData) (m : LpMetadata) : Prop where
  groups : ∀ index group sizes, m.groups[index]? = some group → group.maximum_size ≠ 0 →
    d.memberSizes abi fs m index = .ok sizes → sizes.sum < 2 ^ 64
  extents : ∀ e ∈ m.extents, e.target_type = LP_TARGET_TYPE_LINEAR →
    (e.target_data.toNat + e.num_sectors.toNat) * 512 < 2 ^ 64
  partitions : ∀ p ∈ m.partitions, p.first_extent_index.toNat + p.num_extents.toNat < 2 ^ 32 ∨
    p.first_extent_index.toNat + p.num_extents.toNat ≤ m.extents.length

theorem groupsFit_ok_true :
    m.groups.zipIdx.allM (d.groupFits abi fs m) = .ok true ↔ GroupsModulo abi fs d m := by
  rw [Checks.allM_ok_true]
  constructor
  · intro h index group hgroup
    exact groupFits_ok_true.mp (h (group, index) (List.mem_zipIdx_iff_getElem?.mpr hgroup))
  · intro h entry hentry
    exact groupFits_ok_true.mpr (h entry.2 entry.1 (List.mem_zipIdx_iff_getElem?.mp hentry))

theorem groupsFit_ne_outOfRange :
    m.groups.zipIdx.allM (d.groupFits abi fs m) ≠ .error (.undefined .indexOutOfRange) := by
  intro h
  obtain ⟨_, _, _, _, _, hgroup⟩ := Checks.allM_error.mp h
  exact groupFits_ne_outOfRange hgroup

theorem extentEnd_toNat (e : LpMetadataExtent) : ((e.target_data + e.num_sectors) * 512).toNat =
    (e.target_data.toNat + e.num_sectors.toNat) * 512 % 2 ^ 64 := by
  rw [UInt64.toNat_mul, UInt64.toNat_add, Nat.mod_mul_mod]
  rfl

theorem extentFits_ok_true {e : LpMetadataExtent} : extentFits m e = .ok true ↔ ExtentModulo m e := by
  unfold extentFits ExtentModulo
  by_cases htype : e.target_type = LP_TARGET_TYPE_LINEAR
  · rw [if_neg (by simpa using htype)]
    cases hbd : m.block_devices[e.target_source.toNat]? with
    | none => simp [htype]
    | some bd =>
      rw [← extentEnd_toNat]
      simp [htype, UInt64.le_iff_toNat_le]
  · simp [htype]

theorem extentFits_outOfRange {e : LpMetadataExtent} :
    extentFits m e = .error (.undefined .indexOutOfRange) ↔
      e.target_type = LP_TARGET_TYPE_LINEAR ∧ m.block_devices.length ≤ e.target_source.toNat := by
  unfold extentFits
  by_cases htype : e.target_type = LP_TARGET_TYPE_LINEAR
  · rw [if_neg (by simpa using htype), ← List.getElem?_eq_none_iff]
    cases m.block_devices[e.target_source.toNat]? with
    | none => simp [htype]
    | some bd => simp
  · simp [htype]

theorem partitionFits_iff {p : LpMetadataPartition} : partitionFits m p = true ↔
    (p.first_extent_index.toNat + p.num_extents.toNat) % 2 ^ 32 ≤ m.extents.length := by
  unfold partitionFits
  rw [← UInt32.toNat_add]
  simp

/-- The checks pass exactly if all limits are kept modulo the width of the fields. -/
theorem validMetadata_ok_true (hm : d.lpMetadata = some m) :
    d.validMetadata abi fs = .ok true ↔ WithinModulo abi fs d m := by
  unfold validMetadata
  rw [hm]
  dsimp only
  by_cases hmagic : m.header.magic = LP_METADATA_HEADER_MAGIC
  · rw [if_neg (by simpa using hmagic), Checks.bind_ok_iff]
    constructor
    · intro h
      obtain ⟨groups, hgroups, h⟩ := h
      cases groups with
      | false => cases h
      | true =>
        obtain ⟨extents, hextents, h⟩ := Checks.bind_ok_iff.mp h
        cases extents with
        | false => cases h
        | true =>
          have hall := List.all_eq_true.mp (Except.ok.inj h)
          exact ⟨hmagic, groupsFit_ok_true.mp hgroups,
            fun e he => extentFits_ok_true.mp (Checks.allM_ok_true.mp hextents e he),
            fun p hp => partitionFits_iff.mp (hall p hp)⟩
    · intro h
      have hextents : m.extents.allM (extentFits m) = .ok true :=
        Checks.allM_ok_true.mpr fun e he => extentFits_ok_true.mpr (h.extents e he)
      have hall : m.partitions.all (partitionFits m) = true :=
        List.all_eq_true.mpr fun p hp => partitionFits_iff.mpr (h.partitions p hp)
      refine ⟨true, groupsFit_ok_true.mpr h.groups, Checks.bind_ok_iff.mpr ⟨true, hextents, ?_⟩⟩
      simp [hall]
  · rw [if_pos (by simpa using hmagic)]
    exact iff_of_false (fun h => by cases h) fun h => hmagic h.magic

/-- The only index that can leave its table is the `target_source` of an extent. -/
theorem validMetadata_outOfRange (hm : d.lpMetadata = some m) :
    d.validMetadata abi fs ≠ .error (.undefined .indexOutOfRange) ↔ SourcesInRange abi fs d m := by
  unfold validMetadata SourcesInRange
  rw [hm]
  dsimp only
  by_cases hmagic : m.header.magic = LP_METADATA_HEADER_MAGIC
  · rw [if_neg (by simpa using hmagic)]
    constructor
    · intro h _ hgroups pre e post hextents hpre htype
      by_contra hrange
      have hsource : extentFits m e = .error (.undefined .indexOutOfRange) :=
        extentFits_outOfRange.mpr ⟨htype, Nat.not_lt.mp hrange⟩
      have herror := Checks.allM_error.mpr
        ⟨pre, e, post, hextents, fun y hy => extentFits_ok_true.mpr (hpre y hy), hsource⟩
      apply h
      refine Checks.bind_error_iff.mpr (Or.inr ⟨true, groupsFit_ok_true.mpr hgroups, ?_⟩)
      exact Checks.bind_error_iff.mpr (Or.inl herror)
    · intro h herror
      rcases Checks.bind_error_iff.mp herror with hgroups | ⟨groups, hgroups, herror⟩
      · exact groupsFit_ne_outOfRange hgroups
      · cases groups with
        | false => cases herror
        | true =>
          rcases Checks.bind_error_iff.mp herror with hextents | ⟨extents, _, herror⟩
          · obtain ⟨pre, e, post, heq, hpre, he⟩ := Checks.allM_error.mp hextents
            obtain ⟨htype, hsource⟩ := extentFits_outOfRange.mp he
            have hlt := h hmagic (groupsFit_ok_true.mp hgroups) pre e post heq
              (fun y hy => extentFits_ok_true.mp (hpre y hy)) htype
            omega
          · cases extents with
            | false => cases herror
            | true => cases herror
  · rw [if_pos (by simpa using hmagic)]
    exact iff_of_true (fun h => by cases h) fun h => absurd h hmagic

theorem inBounds_iff_noWrap (h : WithinModulo abi fs d m) : InBounds abi fs d m ↔ NoWrap abi fs d m := by
  constructor
  · intro hin
    refine ⟨?_, ?_, ?_⟩
    · intro index group sizes hgroup hmax hsizes
      obtain ⟨sizes', hsizes', hle⟩ := hin.groups index group hgroup hmax
      have heq := Except.ok.inj (hsizes.symm.trans hsizes')
      rw [heq]
      have hlt := group.maximum_size.toNat_lt
      omega
    · intro e he htype
      obtain ⟨bd, _, hle⟩ := hin.extents e he htype
      have hlt := bd.size.toNat_lt
      omega
    · intro p hp
      exact Or.inr (hin.partitions p hp)
  · intro hno
    refine ⟨?_, ?_, ?_⟩
    · intro e he htype
      obtain ⟨bd, hbd, hle⟩ := h.extents e he htype
      rw [Nat.mod_eq_of_lt (hno.extents e he htype)] at hle
      exact ⟨bd, hbd, hle⟩
    · intro p hp
      rcases hno.partitions p hp with hlt | hle
      · have hmod := h.partitions p hp
        rwa [Nat.mod_eq_of_lt hlt] at hmod
      · exact hle
    · intro index group hgroup hmax
      obtain ⟨sizes, hsizes, hle⟩ := h.groups index group hgroup hmax
      rw [Nat.mod_eq_of_lt (hno.groups index group sizes hgroup hmax hsizes)] at hle
      exact ⟨sizes, hsizes, hle⟩

/-- Accepted metadata is in bounds, and no table is left, exactly if the sources
are in range and nothing wraps in metadata that keeps its limits modulo the widths. -/
theorem validMetadata_sound_iff (hm : d.lpMetadata = some m) :
    ((d.validMetadata abi fs = .ok true → InBounds abi fs d m) ∧
        d.validMetadata abi fs ≠ .error (.undefined .indexOutOfRange)) ↔
      (WithinModulo abi fs d m → NoWrap abi fs d m) ∧ SourcesInRange abi fs d m := by
  rw [validMetadata_ok_true hm, validMetadata_outOfRange hm]
  apply and_congr_left
  intro _
  exact ⟨fun h hw => (inBounds_iff_noWrap hw).mp (h hw), fun h hw => (inBounds_iff_noWrap hw).mpr (h hw)⟩

/-- A device whose `super` holds `metadata`, with the logical partition `system` of `size` bytes. -/
def superTable (metadata : LpMetadata) (size : Nat) : DynamicTableData where
  localPartitions := [⟨[], "/dev/block/mapper/system", 0, default, some ⟨"/dev/block/dm-0", size, true⟩, true⟩]
  lpMetadata := some metadata
  supported := true

theorem validMetadata_sound_super :
    (((superTable superMetadata 4096).validMetadata .arm64_v8a bootFileSystem = .ok true →
        InBounds .arm64_v8a bootFileSystem (superTable superMetadata 4096) superMetadata) ∧
      (superTable superMetadata 4096).validMetadata .arm64_v8a bootFileSystem ≠
        .error (.undefined .indexOutOfRange)) ↔
      (WithinModulo .arm64_v8a bootFileSystem (superTable superMetadata 4096) superMetadata →
        NoWrap .arm64_v8a bootFileSystem (superTable superMetadata 4096) superMetadata) ∧
      SourcesInRange .arm64_v8a bootFileSystem (superTable superMetadata 4096) superMetadata :=
  validMetadata_sound_iff rfl

/-- An extent 2^55 sectors into a device of 2 MiB is accepted. -/
theorem far_extent_accepted :
    let metadata : LpMetadata := { superMetadata with extents := [⟨8, LP_TARGET_TYPE_LINEAR, 0x80000000000000, 0⟩] }
    (superTable metadata 4096).validMetadata .arm64_v8a bootFileSystem = .ok true ∧
      ¬ InBounds .arm64_v8a bootFileSystem (superTable metadata 4096) metadata := by
  refine ⟨rfl, ?_⟩
  intro h
  obtain ⟨bd, hbd, hle⟩ := h.extents _ List.mem_cons_self rfl
  cases hbd
  revert hle
  decide

/-- The group's own name stands for each of its partitions: that gives their sum. -/
structure CountsAlike (abi : Abi) (fs : FileSystem) (d : DynamicTableData) (m : LpMetadata) (index : Nat)
    (group : LpMetadataPartitionGroup) : Prop where
  indices : ∀ p ∈ m.partitions, p.group_index.toNat < m.groups.length
  fits : ∀ sizes, d.memberSizes abi fs m index = .ok sizes → sizes.sum ≤ group.maximum_size.toNat
  sum : ∀ sizes, d.memberSizes abi fs m index = .ok sizes → sizes ≠ [] →
    ∃ size, d.sizeOf abi fs group.name = .ok size ∧ sizes.length * size % 2 ^ 64 = sizes.sum

theorem addUsed_ok_iff (hindex : ∀ i g, m.groups[i]? = some g → (g.name = name ↔ i = index))
    {p : LpMetadataPartition} {used result : UInt64} :
    d.addUsed abi fs m name used p = .ok result ↔ p.group_index.toNat < m.groups.length ∧
      ∃ size, (p.group_index.toNat = index → d.sizeOf abi fs name = .ok size) ∧
        result = if p.group_index.toNat = index then used + UInt64.ofNat size else used := by
  unfold addUsed
  cases hgroup : m.groups[p.group_index.toNat]? with
  | none =>
    have hlen := List.getElem?_eq_none_iff.mp hgroup
    exact iff_of_false (fun h => nomatch h) fun h => absurd h.1 (Nat.not_lt.mpr hlen)
  | some group =>
    have hlen := (List.getElem?_eq_some_iff.mp hgroup).1
    dsimp only
    by_cases hname : group.name = name
    · have heq := (hindex _ _ hgroup).mp hname
      rw [if_pos hname, Checks.bind_ok_iff]
      simp [heq ▸ hlen, heq, eq_comm]
    · have hne : p.group_index.toNat ≠ index := fun heq => hname ((hindex _ _ hgroup).mpr heq)
      simp [hname, hne, hlen, eq_comm]

/-- The loop of `freeSpace` adds one and the same size for every partition of the group. -/
theorem foldlM_addUsed_ok_iff (hindex : ∀ i g, m.groups[i]? = some g → (g.name = name ↔ i = index))
    (ps : List LpMetadataPartition) (used result : UInt64) :
    ps.foldlM (d.addUsed abi fs m name) used = .ok result ↔
      (∀ p ∈ ps, p.group_index.toNat < m.groups.length) ∧
        ∃ size, ((ps.filter fun p => p.group_index.toNat = index) ≠ [] → d.sizeOf abi fs name = .ok size) ∧
          result = used + UInt64.ofNat ((ps.filter fun p => p.group_index.toNat = index).length * size) := by
  induction ps generalizing used result with
  | nil => simp [pure, Except.pure, eq_comm]
  | cons p ps ih =>
    rw [List.foldlM_cons, Checks.bind_ok_iff, List.forall_mem_cons]
    constructor
    · intro h
      obtain ⟨u, hu, hrest⟩ := h
      obtain ⟨hlen, size, hsize, rfl⟩ := (addUsed_ok_iff hindex).mp hu
      obtain ⟨hlens, size', hsize', rfl⟩ := (ih _ _).mp hrest
      refine ⟨⟨hlen, hlens⟩, ?_⟩
      by_cases hp : p.group_index.toNat = index
      · refine ⟨size, fun _ => hsize hp, ?_⟩
        rw [if_pos hp, List.filter_cons_of_pos (by simpa using hp), List.length_cons, Nat.add_mul, Nat.one_mul,
          Nat.add_comm, UInt64.ofNat_add, UInt64.add_assoc]
        congr 3
        cases hmore : ps.filter fun p => p.group_index.toNat = index with
        | nil => simp
        | cons q qs =>
          have hsame := (hsize hp).symm.trans (hsize' (by simp [hmore]))
          rw [Except.ok.inj hsame]
      · rw [if_neg hp, List.filter_cons_of_neg (by simpa using hp)]
        exact ⟨size', hsize', rfl⟩
    · intro h
      obtain ⟨⟨hlen, hlens⟩, size, hsize, rfl⟩ := h
      by_cases hp : p.group_index.toNat = index
      · rw [List.filter_cons_of_pos (by simpa using hp)] at hsize ⊢
        have hok := hsize (List.cons_ne_nil _ _)
        refine ⟨used + UInt64.ofNat size, (addUsed_ok_iff hindex).mpr ⟨hlen, size, fun _ => hok, by rw [if_pos hp]⟩,
          (ih _ _).mpr ⟨hlens, size, fun _ => hok, ?_⟩⟩
        rw [List.length_cons, Nat.add_mul, Nat.one_mul, Nat.add_comm, UInt64.ofNat_add, UInt64.add_assoc]
      · rw [List.filter_cons_of_neg (by simpa using hp)] at hsize ⊢
        exact ⟨used, (addUsed_ok_iff hindex).mpr ⟨hlen, size, fun heq => absurd heq hp, by rw [if_neg hp]⟩,
          (ih _ _).mpr ⟨hlens, size, hsize, rfl⟩⟩

/-- Distinct names and indices tell the same groups apart. -/
theorem index_of_name {group : LpMetadataPartitionGroup}
    (hnames : (m.groups.map LpMetadataPartitionGroup.name).Nodup) (hgroup : m.groups[index]? = some group)
    (i : Nat) (g : LpMetadataPartitionGroup) (hg : m.groups[i]? = some g) : g.name = group.name ↔ i = index := by
  constructor
  · intro h
    have hi : (m.groups.map LpMetadataPartitionGroup.name)[i]? = some g.name := by
      rw [List.getElem?_map, hg]
      rfl
    have hindex : (m.groups.map LpMetadataPartitionGroup.name)[index]? = some group.name := by
      rw [List.getElem?_map, hgroup]
      rfl
    have hlen := (List.getElem?_eq_some_iff.mp hi).1
    apply (List.getElem?_inj hlen hnames).mp
    rw [hi, hindex, h]
  · intro h
    subst h
    rw [Option.some.inj (hg.symm.trans hgroup)]

theorem find_group {group : LpMetadataPartitionGroup}
    (hnames : (m.groups.map LpMetadataPartitionGroup.name).Nodup) (hgroup : m.groups[index]? = some group) :
    (m.groups.find? fun g => g.name = group.name) = some group := by
  cases hfind : m.groups.find? fun g => g.name = group.name with
  | none =>
    have hno := List.find?_eq_none.mp hfind group (List.mem_of_getElem? hgroup)
    simp at hno
  | some g =>
    have hname : g.name = group.name := by simpa using List.find?_some hfind
    obtain ⟨i, hi⟩ := List.mem_iff_getElem?.mp (List.mem_of_find?_eq_some hfind)
    have heq := (index_of_name hnames hgroup i g hi).mp hname
    subst heq
    rw [← hi, hgroup]

theorem memberSizes_length {sizes : List Nat} (h : d.memberSizes abi fs m index = .ok sizes) :
    (m.partitions.filter fun p => p.group_index.toNat = index).length = sizes.length :=
  (Checks.mapM_ok_iff.mp h).length_eq

/-- In accepted metadata the free space of a bounded group is its maximum less
the sum of its partitions exactly if its name gives that sum. -/
theorem freeSpace_exact_iff {group : LpMetadataPartitionGroup} (hm : d.lpMetadata = some m)
    (hvalid : d.validMetadata abi fs = .ok true) (hnames : (m.groups.map LpMetadataPartitionGroup.name).Nodup)
    (hgroup : m.groups[index]? = some group) (hmax : group.maximum_size ≠ 0) :
    (∃ free sizes, d.freeSpace abi fs group.name = .ok free ∧ d.memberSizes abi fs m index = .ok sizes ∧
        free.toNat + sizes.sum = group.maximum_size.toNat) ↔ CountsAlike abi fs d m index group := by
  obtain ⟨sizes, hsizes, _⟩ := ((validMetadata_ok_true hm).mp hvalid).groups index group hgroup hmax
  have hlength := memberSizes_length hsizes
  have hfree : ∀ free, d.freeSpace abi fs group.name = .ok free ↔
      ∃ used, m.partitions.foldlM (d.addUsed abi fs m group.name) 0 = .ok used ∧
        group.maximum_size - used = free := by
    intro free
    unfold freeSpace
    rw [hm]
    dsimp only
    rw [find_group hnames hgroup]
    dsimp only
    rw [Checks.bind_ok_iff]
    simp
  constructor
  · intro h
    obtain ⟨free, sizes', hspace, hsizes', hsum⟩ := h
    obtain rfl := Except.ok.inj (hsizes.symm.trans hsizes')
    obtain ⟨used, hused, rfl⟩ := (hfree free).mp hspace
    obtain ⟨hindices, size, hsize, rfl⟩ := (foldlM_addUsed_ok_iff (index_of_name hnames hgroup) _ _ _).mp hused
    rw [hlength, UInt64.zero_add, UInt64.toNat_sub, UInt64.toNat_ofNat'] at hsum
    have hlt := group.maximum_size.toNat_lt
    refine ⟨hindices, fun other hother => ?_, fun other hother hne => ?_⟩
    · obtain rfl := Except.ok.inj (hsizes.symm.trans hother)
      omega
    · obtain rfl := Except.ok.inj (hsizes.symm.trans hother)
      refine ⟨size, hsize ?_, by omega⟩
      apply List.ne_nil_of_length_pos
      rw [hlength]
      exact List.length_pos_of_ne_nil hne
  · intro h
    have hle := h.fits sizes hsizes
    have hlt := group.maximum_size.toNat_lt
    have hsize : ∃ size, (sizes ≠ [] → d.sizeOf abi fs group.name = .ok size) ∧
        sizes.length * size % 2 ^ 64 = sizes.sum := by
      by_cases hne : sizes = []
      · exact ⟨0, fun h => absurd hne h, by simp [hne]⟩
      · obtain ⟨size, hok, hsum⟩ := h.sum sizes hsizes hne
        exact ⟨size, fun _ => hok, hsum⟩
    obtain ⟨size, hok, hsum⟩ := hsize
    refine ⟨group.maximum_size - UInt64.ofNat (sizes.length * size), sizes, (hfree _).mpr ⟨_, ?_, rfl⟩, hsizes, ?_⟩
    · refine (foldlM_addUsed_ok_iff (index_of_name hnames hgroup) _ _ _).mpr ⟨h.indices, size, fun hne => hok ?_, ?_⟩
      · intro hnil
        rw [hnil] at hlength
        exact hne (List.length_eq_zero_iff.mp hlength)
      · rw [hlength, UInt64.zero_add]
    · rw [UInt64.toNat_sub, UInt64.toNat_ofNat', hsum]
      omega

/-- A `super` with two groups of one partition each. The first one is named as its partition is. -/
def groupedMetadata : LpMetadata where
  header := ⟨LP_METADATA_HEADER_MAGIC⟩
  partitions := [⟨"system", 0, 1, 0⟩, ⟨"vendor", 1, 1, 1⟩]
  extents := [⟨8, LP_TARGET_TYPE_LINEAR, 2048, 0⟩, ⟨8, LP_TARGET_TYPE_LINEAR, 2056, 0⟩]
  groups := [⟨"system", 8192⟩, ⟨"main", 4096⟩]
  block_devices := [⟨2097152⟩]

def groupedTable : DynamicTableData where
  localPartitions :=
    [⟨[], "/dev/block/mapper/system", 0, default, some ⟨"/dev/block/dm-0", 4096, true⟩, true⟩,
      ⟨[], "/dev/block/mapper/vendor", 0, default, some ⟨"/dev/block/dm-1", 4096, true⟩, true⟩]
  lpMetadata := some groupedMetadata
  supported := true

/-- The free space of `system` is told, of `main` it is not. -/
theorem freeSpace_exact_groups :
    groupedTable.freeSpace .arm64_v8a bootFileSystem "system" = .ok 4096 ∧
    ((∃ free sizes, groupedTable.freeSpace .arm64_v8a bootFileSystem "system" = .ok free ∧
        groupedTable.memberSizes .arm64_v8a bootFileSystem groupedMetadata 0 = .ok sizes ∧
        free.toNat + sizes.sum = (8192 : UInt64).toNat) ↔
      CountsAlike .arm64_v8a bootFileSystem groupedTable groupedMetadata 0 ⟨"system", 8192⟩) ∧
    ((∃ free sizes, groupedTable.freeSpace .arm64_v8a bootFileSystem "main" = .ok free ∧
        groupedTable.memberSizes .arm64_v8a bootFileSystem groupedMetadata 1 = .ok sizes ∧
        free.toNat + sizes.sum = (4096 : UInt64).toNat) ↔
      CountsAlike .arm64_v8a bootFileSystem groupedTable groupedMetadata 1 ⟨"main", 4096⟩) := by
  have hmetadata : groupedTable.lpMetadata = some groupedMetadata := rfl
  have hvalid : groupedTable.validMetadata .arm64_v8a bootFileSystem = .ok true := rfl
  have hnames : (groupedMetadata.groups.map LpMetadataPartitionGroup.name).Nodup := by decide
  have hsystem : groupedMetadata.groups[0]? = some ⟨"system", 8192⟩ := rfl
  have hmain : groupedMetadata.groups[1]? = some ⟨"main", 4096⟩ := rfl
  exact ⟨rfl, freeSpace_exact_iff hmetadata hvalid hnames hsystem (by decide),
    freeSpace_exact_iff hmetadata hvalid hnames hmain (by decide)⟩

/-- No logical partition is called `main`. -/
theorem freeSpace_reads_empty_optional :
    (superTable superMetadata 4096).validMetadata .arm64_v8a bootFileSystem = .ok true ∧
      (∀ p ∈ superMetadata.partitions, (superTable superMetadata 4096).hasPartition p.name = true) ∧
      superMetadata.groups = [⟨"main", 4096⟩] ∧
      (superTable superMetadata 4096).freeSpace .arm64_v8a bootFileSystem "main" =
        .error (.undefined .emptyOptional) := by
  refine ⟨rfl, ?_, rfl, rfl⟩
  intro p hp
  rw [List.mem_singleton.mp hp]
  rfl

end DynamicTableData

end PartitionManager
