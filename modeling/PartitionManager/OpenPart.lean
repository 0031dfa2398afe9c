import PartitionManager.Basic

namespace PartitionManager

def OP_RDONLY : UInt32 := 0x1
def OP_WRONLY : UInt32 := 0x2
def OP_RDWR : UInt32 := 0x4
def OP_IGNTYPE : UInt32 := 0x8

def O_RDONLY : UInt32 := 0
def O_WRONLY : UInt32 := 1
def O_RDWR : UInt32 := 2
def O_ACCMODE : UInt32 := 3

def EBADF : Errno := 9
def ENOSPC : Errno := 28

/-- The flags that `openpart_open` gives to `open`. -/
def openFlags (flags extra_oflags : UInt32) : UInt32 :=
  let oflags := if extra_oflags ≠ 0 then extra_oflags else 0
  if flags &&& OP_RDONLY ≠ 0 then oflags ||| O_RDONLY
  else if flags &&& OP_WRONLY ≠ 0 then oflags ||| O_WRONLY
  else oflags ||| O_RDWR

/-- A block device that a descriptor is open on. -/
structure OpenFile where
  device : Str
  size : Nat
  oflags : UInt32
  deriving DecidableEq

namespace OpenFile

variable (file : OpenFile)

def readable : Bool := file.oflags &&& O_ACCMODE = O_RDONLY || file.oflags &&& O_ACCMODE = O_RDWR

def writable : Bool := file.oflags &&& O_ACCMODE = O_WRONLY || file.oflags &&& O_ACCMODE = O_RDWR

end OpenFile

/-- The descriptors of the process. -/
abbrev FdTable := UInt32 → Option OpenFile

/-- `struct openpart`. -/
structure OpenPartT where
  fd : UInt32
  flags : UInt32
  sector_size : UInt64
  info_loaded : Bool := false
  deriving DecidableEq

/-- `_FILE_OFFSET_BITS` of the build: the width of `off_t`. -/
inductive FileOffsetBits where
  | bits32
  | bits64
  deriving DecidableEq

def FileOffsetBits.width : FileOffsetBits → Nat
  | .bits32 => 32
  | .bits64 => 64

/-- Conversion to `off_t`. -/
def FileOffsetBits.off_t (lfs : FileOffsetBits) (offset : UInt64) : Int :=
  if offset.toNat % 2 ^ lfs.width < 2 ^ (lfs.width - 1) then (offset.toNat % 2 ^ lfs.width : Nat)
  else (offset.toNat % 2 ^ lfs.width : Nat) - 2 ^ lfs.width

/-- The bytes of the device that a call reads or writes. -/
structure Transfer where
  start : Nat
  length : Nat
  deriving DecidableEq

/-- The most that the kernel transfers in one call. -/
def MAX_RW_COUNT : Nat := 0x7ffff000

section

variable (abi : Abi) (lfs : FileOffsetBits) (files : FdTable)

def pread (fd : UInt32) (count : Nat) (offset : Int) : Except Errno Transfer :=
  match files fd with
  | none => .error EBADF
  | some file =>
    if !file.readable then .error EBADF
    else if offset < 0 ∨ abi.SSIZE_MAX < count then .error EINVAL
    else .ok ⟨offset.toNat, min (min count MAX_RW_COUNT) (file.size - offset.toNat)⟩

def pwrite (fd : UInt32) (count : Nat) (offset : Int) : Except Errno Transfer :=
  match files fd with
  | none => .error EBADF
  | some file =>
    if !file.writable then .error EBADF
    else if offset < 0 ∨ abi.SSIZE_MAX < count then .error EINVAL
    else if file.size ≤ offset.toNat ∧ 0 < count then .error ENOSPC
    else .ok ⟨offset.toNat, min (min count MAX_RW_COUNT) (file.size - offset.toNat)⟩

/-- What a call on a handle transfers, or the `op->err` it leaves when it returns -1. -/
def openpart_read (op : OpenPartT) (count : Nat) (offset : UInt64) : Except Errno Transfer :=
  pread abi files op.fd count (lfs.off_t offset)

def openpart_write (op : OpenPartT) (count : Nat) (offset : UInt64) : Except Errno Transfer :=
  if op.flags &&& OP_RDWR = 0 then .error EACCES
  else pwrite abi files op.fd count (lfs.off_t offset)

end

/-- The handle permits both transfers. -/
def OpenPartT.permitsRead (files : FdTable) (op : OpenPartT) : Prop :=
  ∃ file, files op.fd = some file ∧ file.readable = true

def OpenPartT.permitsWrite (files : FdTable) (op : OpenPartT) : Prop :=
  op.flags &&& OP_RDWR ≠ 0 ∧ ∃ file, files op.fd = some file ∧ file.writable = true

end PartitionManager
