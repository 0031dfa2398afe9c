import PartitionManager.TableData

namespace PartitionManager

/-- `BasicFlags`, after the command line has been read. -/
structure BasicFlags where
  partitionTables : Option PartitionTableData × Option DynamicTableData
  onLogical : Bool := false
  quietProcess : Bool := false
  forceProcess : Bool := false

def BasicFlags.first (flags : BasicFlags) : Option BaseTableData :=
  flags.partitionTables.1.map .classic

def BasicFlags.second (flags : BasicFlags) : Option BaseTableData :=
  flags.partitionTables.2.map .dynamic

/-- `AsyncResult_t`: what a plugin's task reports. -/
structure AsyncResult where
  message : Str
  result : Bool
  deriving DecidableEq

def AsyncResult.Error (message : Str) : AsyncResult := ⟨message, false⟩

def AsyncResult.Success (message : Str) : AsyncResult := ⟨message, true⟩

/-- A check that answers with an error ends the task with it. -/
theorem AsyncResult.early_of_error {α : Type} {message : Str} {r : AsyncResult ⊕ α}
    (h : (.ok (.inl (AsyncResult.Error message)) : Outcome (AsyncResult ⊕ α)) = .ok r) :
    ∃ early, r = .inl early ∧ early.result = false := by
  cases h
  exact ⟨_, rfl, rfl⟩

/-- `std::clamp`, whose result is undefined where `hi` is below `lo`. -/
def clamp (v lo hi : Nat) : Nat := if v < lo then lo else if hi < v then hi else v

def MIN_BUFFER_SIZE : Nat := 1024

/-- Buffer size of the plugins: their `std::clamp` call. -/
def pluginBuffer (bufferSize size : Nat) : Nat :=
  clamp bufferSize MIN_BUFFER_SIZE (min bufferSize size)

theorem pluginBuffer_pos {bufferSize size : Nat} (hs : 0 < size) : 0 < pluginBuffer bufferSize size := by
  unfold pluginBuffer clamp MIN_BUFFER_SIZE
  split
  · omega
  · split <;> omega

/-- What the first lines of every `runAsync` find: the partition and the kind of its table. -/
def findPartition (flags : BasicFlags) (fs : FileSystem) (answers : List Str) (partitionName : Str) :
    Outcome (Option Partition × Option TableType) := do
  let (table, tType) := getCorrectTableObj partitionName flags.first flags.second none
  let partition ← setupPartition fs answers partitionName table
  .ok (partition, tType)

/-- A device whose only partition is `boot`, of `size` bytes, and its tables. -/
def bootPartition (size : Nat) : Partition where
  localTablePath := "/dev/block/sda"
  logicalPartitionPath := []
  localIndex := 0
  gptPart := ⟨"boot", true, 1, 0, size⟩
  op := some ⟨"/dev/block/sda1", size, true⟩
  isLogical := false

def bootTable (size : Nat) : PartitionTableData where
  gptDataCollection := [("/dev/block/sda", ⟨512, [⟨"boot", true, 1, 0, size⟩], 0, 3⟩)]
  localPartitions := [bootPartition size]
  localTableNames := ⟨["sda"], by simp, by simp⟩
  physical := by
    intro p hp
    rw [List.mem_singleton.mp hp]
    rfl

/-- The dynamic store of a device without `super`. -/
def noLogical : DynamicTableData := ⟨[], none, false⟩

/-- The metadata of a `super` with one logical partition of eight sectors. -/
def superMetadata : LpMetadata where
  header := ⟨LP_METADATA_HEADER_MAGIC⟩
  partitions := [⟨"system", 0, 1, 0⟩]
  extents := [⟨8, LP_TARGET_TYPE_LINEAR, 2048, 0⟩]
  groups := [⟨"main", 4096⟩]
  block_devices := [⟨2097152⟩]

def bootFlags (size : Nat) : BasicFlags := { partitionTables := (some (bootTable size), some noLogical) }

def bootFileSystem : FileSystem := ⟨fun _ => false, fun _ => false, fun _ => none, fun _ => [], fun _ => []⟩

end PartitionManager
