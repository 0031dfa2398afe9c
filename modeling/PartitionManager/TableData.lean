import PartitionManager.Partition

namespace PartitionManager

inductive TableType where
  | DYNAMIC
  | CLASSIC
  deriving DecidableEq

/-- `GPTData` of gptfdisk after a successful load. -/
structure GPTData where
  blockSize : Nat
  parts : List GPTPart
  Verify : Nat
  CheckHeaderValidity : Nat
  deriving DecidableEq

/-- The table names that `findTablePaths` collects, in the order the iteration of the set
takes. They are entries of `/dev/block`, so none of them holds a slash, as one that is
given to `setTables` may. -/
structure TableNames where
  list : List Str
  nodup : list.Nodup
  fileNames : ∀ name ∈ list, '/' ∉ name

/-- The physical partitions a store holds: none of them is a logical one. -/
structure PartitionTableData where
  gptDataCollection : List (Str × GPTData)
  localPartitions : List Partition
  localTableNames : TableNames
  buildAutoOnDiskChanges : Bool := true
  isUFS : Bool := false
  physical : ∀ p ∈ localPartitions, p.isLogical = false

def LP_METADATA_HEADER_MAGIC : UInt32 := 0x414C5030

def LP_TARGET_TYPE_LINEAR : UInt32 := 0

structure LpMetadataHeader where
  magic : UInt32
  deriving DecidableEq

structure LpMetadataPartition where
  name : Str
  first_extent_index : UInt32
  num_extents : UInt32
  group_index : UInt32
  deriving DecidableEq

structure LpMetadataExtent where
  num_sectors : UInt64
  target_type : UInt32
  target_data : UInt64
  target_source : UInt32
  deriving DecidableEq

structure LpMetadataPartitionGroup where
  name : Str
  maximum_size : UInt64
  deriving DecidableEq

structure LpMetadataBlockDevice where
  size : UInt64
  deriving DecidableEq

structure LpMetadata where
  header : LpMetadataHeader
  partitions : List LpMetadataPartition
  extents : List LpMetadataExtent
  groups : List LpMetadataPartitionGroup
  block_devices : List LpMetadataBlockDevice
  deriving DecidableEq

structure DynamicTableData where
  localPartitions : List Partition
  lpMetadata : Option LpMetadata
  supported : Bool
  deriving DecidableEq

namespace PartitionTableData

variable (t : PartitionTableData)

def hasPartition (name : Str) : Bool := t.localPartitions.any fun p => p.name = name

def hasDuplicateNamedPartition (name : Str) : Nat := t.localPartitions.countP fun p => p.name = name

def duplicatePartitionPositions (fs : FileSystem) (name : Str) : Outcome (List (Bool × Str)) :=
  (t.localPartitions.filter fun p => p.name = name).mapM fun p => do
    let link ← p.pathByName fs
    let table ← p.tableName
    .ok (!link.isEmpty, table)

/-- `from` is `source` here. -/
def partition (name : Str) (source : Str := []) : Outcome (Option Partition) :=
  t.localPartitions.findM? fun p =>
    if source.isEmpty then .ok (p.name = name)
    else if p.name = name then do
      let table ← p.tableName
      .ok (table = source)
    else .ok false

/-- The prompt: the first answer that names a listed table ends it. -/
def chooseTable (names : List Str) : List Str → Outcome Str
  | [] => .error .never
  | choice :: answers => if choice ∈ names then .ok choice else chooseTable names answers

def partitionWithDupCheck (fs : FileSystem) (answers : List Str) (name : Str) (check : Bool := true) :
    Outcome (Option Partition) := do
  let parts ← t.duplicatePartitionPositions fs name
  if t.hasDuplicateNamedPartition name > 1 && check then
    let choice ← chooseTable (parts.map Prod.snd) answers
    t.partition name choice
  else
    match parts with
    | [] => .error (.undefined .emptyVector)
    | first :: _ => t.partition name first.2

def isHasSuperPartition : Bool := t.localPartitions.any fun p => p.name = ("super" : Str)

def tableNamesEmpty : Bool := t.localTableNames.list.isEmpty

def valid : Bool :=
  !t.gptDataCollection.any fun entry => entry.2.Verify ≠ 0 && entry.2.CheckHeaderValidity ≠ 3

end PartitionTableData

namespace DynamicTableData

variable (t : DynamicTableData)

def hasPartition (name : Str) : Bool := t.localPartitions.any fun p => p.name = name

def partition (name : Str) : Option Partition := t.localPartitions.find? fun p => p.name = name

end DynamicTableData

/-- An object behind a `BaseTableData *` that is not null. -/
inductive BaseTableData where
  | classic (t : PartitionTableData)
  | dynamic (t : DynamicTableData)

namespace BaseTableData

def type : BaseTableData → TableType
  | classic _ => .CLASSIC
  | dynamic _ => .DYNAMIC

def hasPartition : BaseTableData → Str → Bool
  | classic t, name => t.hasPartition name
  | dynamic t, name => t.hasPartition name

def partition : BaseTableData → Str → Outcome (Option Partition)
  | classic t, name => t.partition name
  | dynamic t, name => .ok (t.partition name)

end BaseTableData

/-- The table that holds `name`, null if there is none, and what becomes of `tType`. -/
def getCorrectTableObj (name : Str) (c1 c2 : Option BaseTableData) (tType : Option TableType) :
    Option BaseTableData × Option TableType :=
  match c1, c2 with
  | some c1, some c2 =>
    let tType := if c1.hasPartition name then some c1.type else tType
    let tType := if c2.hasPartition name then some c2.type else tType
    match tType with
    | none => (none, none)
    | some .CLASSIC => (some c1, some .CLASSIC)
    | some .DYNAMIC => (some c2, some .DYNAMIC)
  | _, _ => (none, tType)

/-- `->get()` on the optional a lookup gave. -/
def derefOptional (x : Outcome (Option Partition)) : Outcome (Option Partition) := do
  match ← x with
  | none => .error (.undefined .emptyOptional)
  | some p => .ok (some p)

def setupPartition (fs : FileSystem) (answers : List Str) (name : Str) :
    Option BaseTableData → Outcome (Option Partition)
  | none => .ok none
  | some (.classic t) => derefOptional (t.partitionWithDupCheck fs answers name)
  | some (.dynamic t) => derefOptional (.ok (t.partition name))

def resolve (fs : FileSystem) (answers : List Str) (name : Str) (c1 c2 : Option BaseTableData) :
    Outcome (Option Partition) :=
  setupPartition fs answers name (getCorrectTableObj name c1 c2 none).1

end PartitionManager
