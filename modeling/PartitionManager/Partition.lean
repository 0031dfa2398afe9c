import PartitionManager.Basic

namespace PartitionManager

/-- `GPTPart` of gptfdisk: one slot of a partition table. -/
structure GPTPart where
  description : Str
  used : Bool
  uniqueGUID : Nat
  firstLBA : Nat
  lastLBA : Nat
  deriving DecidableEq, Inhabited

def GPTPart.IsUsed (part : GPTPart) : Bool := part.used

def GPTPart.GetDescription (part : GPTPart) : Str := part.description

/-- An open `openpart_t`: the device it was opened on, the size found then, and
whether `load_info` can read the device's header. -/
structure OpenPart where
  path : Str
  size : Nat
  load_info : Bool
  deriving DecidableEq

/-- `openpart_get_size`, with `UINT64_MAX` as its failure answer. -/
def openpart_get_size (op : Option OpenPart) : Nat :=
  match op with
  | none => 2 ^ 64 - 1
  | some op => if op.load_info then op.size % 2 ^ 64 else 2 ^ 64 - 1

/-- What the code asks of the file system outside the partitions themselves: `exist` is
`std::filesystem::exists` and `Helper::isExists`, `fileIsExists` is for regular files.
A `none` of `read_symlink` is its exception: no entry, or one that is no link. -/
structure FileSystem where
  exist : Str → Bool
  fileIsExists : Str → Bool
  read_symlink : Str → Option Str
  strerror : Errno → Str
  openpart_strerror : Option OpenPart → Str

def FileSystem.readSymlink (fs : FileSystem) (path : Str) : Outcome Str :=
  match fs.read_symlink path with
  | some target => .ok target
  | none => raiseStd .filesystem_error

/-- `BasicPartition_t`. -/
structure Partition where
  localTablePath : Str
  logicalPartitionPath : Str
  localIndex : Nat
  gptPart : GPTPart
  op : Option OpenPart
  isLogical : Bool
  deriving DecidableEq

namespace Partition

/-- The default constructor. -/
def empty : Partition := ⟨[], [], 0, default, none, false⟩

/-- Arguments of the variadic constructor, one `process_ctor` overload each. -/
inductive CtorArg where
  | index (i : Nat)
  | part (part : GPTPart)
  | path (path : Str)
  | op (op : Option OpenPart)

def process_ctor (p : Partition) : CtorArg → Partition
  | .index i => { p with localIndex := i }
  | .part part => { p with gptPart := part }
  | .path path => { p with localTablePath := path }
  | .op op => { p with op := op }

def ofArgs (args : List CtorArg) : Partition := args.foldl process_ctor empty

/-- The move constructor: the new object, and what is left of the old one. -/
def moveCtor (other : Partition) : Partition × Partition :=
  ({ localTablePath := other.localTablePath, logicalPartitionPath := other.logicalPartitionPath,
     localIndex := other.localIndex, gptPart := other.gptPart, op := other.op,
     isLogical := other.isLogical },
   { other with localTablePath := [], logicalPartitionPath := [], localIndex := 0,
                gptPart := default, op := none, isLogical := false })

/-- Move assignment between two distinct objects. -/
def moveAssign (_self other : Partition) : Partition × Partition :=
  ({ localTablePath := other.localTablePath, logicalPartitionPath := other.logicalPartitionPath,
     localIndex := other.localIndex, gptPart := other.gptPart, op := other.op,
     isLogical := other.isLogical },
   { other with localTablePath := [], logicalPartitionPath := [], localIndex := 0,
                gptPart := default, op := none, isLogical := false })

def name (p : Partition) : Str :=
  if p.isLogical then filename p.logicalPartitionPath else p.gptPart.GetDescription

/-- Device node of slot `index` of the table at `table`. -/
def slotPath (table : Str) (index : Nat) : Str :=
  let suffix : Str := if (table.getLast?.map Char.isDigit).getD false then "p" else ""
  table ++ suffix ++ to_string ((index + 1) % 2 ^ 32)

def path (p : Partition) : Str :=
  if p.isLogical then p.logicalPartitionPath else slotPath p.localTablePath p.localIndex

def absolutePath (fs : FileSystem) (p : Partition) : Outcome Str :=
  if p.isLogical then fs.readSymlink p.logicalPartitionPath else .ok p.path

def tableName (p : Partition) : Outcome Str :=
  if p.isLogical then raise ⟨"Cannot return table name: Is logical partition", 1, false⟩
  else .ok (filename p.localTablePath)

def byName : Str := "/dev/block/by-name"

/-- The link that stands for the name of `p`. -/
def byNameLink (p : Partition) : Str := append byName p.gptPart.GetDescription

def pathByName (fs : FileSystem) (p : Partition) : Outcome Str :=
  if p.isLogical then .ok p.logicalPartitionPath
  else if !fs.exist byName then .ok []
  else do
    let target ← fs.readSymlink p.byNameLink
    if target ≠ p.path then .ok [] else .ok p.byNameLink

def size (abi : Abi) (fs : FileSystem) (p : Partition) : Outcome Nat :=
  let size := openpart_get_size p.op
  if size = 2 ^ 64 - 1 then
    raise ⟨"Cannot get size of " ++ p.name ++ ": " ++ fs.openpart_strerror p.op, 1, false⟩
  else .ok (abi.toSize size)

theorem size_lt {abi : Abi} {fs : FileSystem} {p : Partition} {n : Nat}
    (h : p.size abi fs = .ok n) : n < 2 ^ abi.bits := by
  unfold size at h
  dsimp only at h
  split at h
  next => cases h
  next =>
    cases h
    have hp : (0 : Int) < 2 ^ abi.bits := Int.pow_pos (by decide)
    have hm := Int.emod_lt_of_pos (openpart_get_size p.op) hp
    have h0 := Int.emod_nonneg (openpart_get_size p.op) (Int.ne_of_gt hp)
    unfold Abi.toSize
    have hcast : ((2 ^ abi.bits : Nat) : Int) = 2 ^ abi.bits := by norm_cast
    omega

theorem name_of_physical {p : Partition} (h : p.isLogical = false) :
    p.name = p.gptPart.GetDescription := by
  simp [name, h]

theorem tableName_of_physical {p : Partition} (h : p.isLogical = false) :
    p.tableName = .ok (filename p.localTablePath) := by
  simp [tableName, h]

/-- The link consulted depends on the name alone. -/
theorem byNameLink_eq {p : Partition} (h : p.isLogical = false) :
    p.byNameLink = append byName p.name := by
  rw [byNameLink, name_of_physical h]

/-- The lookup of the link fails exactly when the directory is there and the link is not. -/
theorem pathByName_ok_iff (fs : FileSystem) {p : Partition} (h : p.isLogical = false) :
    (∃ link, p.pathByName fs = .ok link) ↔
      fs.exist byName = false ∨ (fs.read_symlink (append byName p.name)).isSome := by
  cases he : fs.exist byName with
  | false => simp [pathByName, h, he]
  | true =>
    cases hr : fs.read_symlink (append byName p.name) with
    | none =>
      simp [pathByName, h, he, byNameLink_eq h, FileSystem.readSymlink, hr, raiseStd, bind, Except.bind]
    | some target =>
      by_cases ht : target = p.path <;>
        simp [pathByName, h, he, byNameLink_eq h, FileSystem.readSymlink, hr, ht, bind, Except.bind]

theorem pathByName_missing_link {fs : FileSystem} {p : Partition} (h : p.isLogical = false)
    (hdir : fs.exist byName = true) (hlink : fs.read_symlink (append byName p.name) = none) :
    p.pathByName fs = raiseStd .filesystem_error := by
  simp [pathByName, h, hdir, byNameLink_eq h, FileSystem.readSymlink, hlink, raiseStd, bind, Except.bind]

end Partition

end PartitionManager
