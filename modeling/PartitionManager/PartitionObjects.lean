import PartitionManager.OpenPart
import PartitionManager.Stores

namespace PartitionManager

/-- Null when the header of the device cannot be read. -/
def openpart_get_part_path (op : OpenPart) : Option Str := if op.load_info then some op.path else none

namespace Partition

section

variable (fs : FileSystem) (openpart_open : Str → UInt32 → Option OpenPart)

def cannotCreate {α : Type} : Outcome α :=
  raise ⟨"Cannot create openpart object: " ++ fs.openpart_strerror none, 1, false⟩

/-- The path under which a copy opens the device of `other`: a string made from a
null path has no defined result. -/
def reopenPath (other : Partition) (op : OpenPart) : Outcome Str :=
  if other.isLogical then .ok other.logicalPartitionPath
  else
    match openpart_get_part_path op with
    | some path => .ok path
    | none => .error (.undefined .nullDereference)

/-- A constructor that throws leaves no object. -/
def copyCtor (other : Partition) : Outcome Partition :=
  let copied : Partition :=
    { localTablePath := other.localTablePath, logicalPartitionPath := other.logicalPartitionPath,
      localIndex := other.localIndex, gptPart := other.gptPart, op := none, isLogical := other.isLogical }
  match other.op with
  | none => .ok copied
  | some op => do
    let path ← reopenPath other op
    match openpart_open path OP_RDWR with
    | none => cannotCreate fs
    | some op => .ok { copied with op := some op }

/-- The constructor for logical partitions. -/
def ofPath (path : Str) : Outcome Partition :=
  match openpart_open path OP_RDWR with
  | none => cannotCreate fs
  | some op => .ok { empty with logicalPartitionPath := path, isLogical := true, op := some op }

/-- Calls that work on an object that is there already: the object after the call,
and how the call ends. -/
inductive InPlace where
  | AsLogicalPartition (path : Str)
  | copyAssign (other : Partition)

namespace InPlace

/-- The old handle is closed before the new one is asked for. -/
def asLogical (orig : Partition) (path : Str) : Partition × Outcome Unit :=
  let orig : Partition :=
    { orig with isLogical := true, logicalPartitionPath := path, gptPart := default, op := none }
  match openpart_open path OP_RDWR with
  | none => (orig, cannotCreate fs)
  | some op => ({ orig with op := some op }, .ok ())

/-- The operator between two distinct objects. It gives `O_RDWR` where `openpart_open`
takes flags of its own. -/
def assign (self other : Partition) : Partition × Outcome Unit :=
  let self : Partition :=
    { self with
      localTablePath := other.localTablePath
      logicalPartitionPath := other.logicalPartitionPath
      localIndex := other.localIndex
      gptPart := other.gptPart
      isLogical := other.isLogical
      op := none }
  match other.op with
  | none => (self, .ok ())
  | some op =>
    match reopenPath other op with
    | .error stop => (self, .error stop)
    | .ok path =>
      match openpart_open path O_RDWR with
      | none => (self, cannotCreate fs)
      | some op => ({ self with op := some op }, .ok ())

def run (p : Partition) : InPlace → Partition × Outcome Unit
  | .AsLogicalPartition path => asLogical fs openpart_open p path
  | .copyAssign other => assign fs openpart_open p other

/-- The call reaches `openpart_open`, and it fails. -/
def Fails : InPlace → Prop
  | .AsLogicalPartition path => openpart_open path OP_RDWR = none
  | .copyAssign other => ∃ op path, other.op = some op ∧ reopenPath other op = .ok path ∧
      openpart_open path O_RDWR = none

/-- What the failed call leaves. -/
def remains (p : Partition) : InPlace → Partition
  | .AsLogicalPartition path =>
    { p with isLogical := true, logicalPartitionPath := path, gptPart := default, op := none }
  | .copyAssign other => { other with op := none }

/-- The call throws the error of a handle that could not be made, and `p` is as it was. -/
structure Unharmed (p : Partition) (after : Partition × Outcome Unit) : Prop where
  throws : after.2 = cannotCreate fs
  same : after.1 = p

/-- `p` holds no handle, and what the call overwrites already is what it writes. -/
def NothingToLose (p : Partition) : InPlace → Prop
  | .AsLogicalPartition path =>
    p.isLogical = true ∧ p.logicalPartitionPath = path ∧ p.gptPart = default ∧ p.op = none
  | .copyAssign other =>
    p.localTablePath = other.localTablePath ∧ p.logicalPartitionPath = other.logicalPartitionPath ∧
      p.localIndex = other.localIndex ∧ p.gptPart = other.gptPart ∧ p.isLogical = other.isLogical ∧ p.op = none

end InPlace

end

variable {fs : FileSystem} {openpart_open : Str → UInt32 → Option OpenPart}

namespace InPlace

/-- A failed call ends the same way whatever the object was. -/
theorem run_of_fails {c : InPlace} (p : Partition) (h : c.Fails openpart_open) :
    run fs openpart_open p c = (c.remains p, cannotCreate fs) := by
  cases c with
  | AsLogicalPartition path =>
    have hopen : openpart_open path OP_RDWR = none := h
    show asLogical fs openpart_open p path = _
    unfold asLogical
    rw [hopen]
    rfl
  | copyAssign other =>
    obtain ⟨op, path, hop, hpath, hopen⟩ := h
    show assign fs openpart_open p other = _
    unfold assign
    simp only [hop, hpath, hopen]
    rfl

theorem remains_eq_iff {c : InPlace} {p : Partition} : c.remains p = p ↔ c.NothingToLose p := by
  obtain ⟨table, logical, index, part, op, kind⟩ := p
  cases c with
  | AsLogicalPartition path =>
    show Partition.mk table path index default none true = _ ↔ _
    rw [Partition.mk.injEq]
    constructor
    · rintro ⟨-, hpath, -, hpart, hop, hkind⟩
      exact ⟨hkind.symm, hpath.symm, hpart.symm, hop.symm⟩
    · rintro ⟨hkind, hpath, hpart, hop⟩
      exact ⟨rfl, hpath.symm, rfl, hpart.symm, hop.symm, hkind.symm⟩
  | copyAssign other =>
    show Partition.mk other.localTablePath other.logicalPartitionPath other.localIndex other.gptPart none
      other.isLogical = _ ↔ _
    rw [Partition.mk.injEq]
    constructor
    · rintro ⟨htable, hlogical, hindex, hpart, hop, hkind⟩
      exact ⟨htable.symm, hlogical.symm, hindex.symm, hpart.symm, hkind.symm, hop.symm⟩
    · rintro ⟨htable, hlogical, hindex, hpart, hkind, hop⟩
      exact ⟨htable.symm, hlogical.symm, hindex.symm, hpart.symm, hop.symm, hkind.symm⟩

end InPlace

/-- A failed conversion or assignment has overwritten its object before it can fail. -/
theorem failed_call_unharmed_iff (p : Partition) (c : InPlace) (h : c.Fails openpart_open) :
    InPlace.Unharmed fs p (InPlace.run fs openpart_open p c) ↔ c.NothingToLose p := by
  rw [InPlace.run_of_fails p h, ← InPlace.remains_eq_iff]
  exact ⟨fun hsafe => hsafe.same, fun hsame => ⟨rfl, hsame⟩⟩

/-- `system` of the path it is converted to again, without a handle. -/
def closedSystem : Partition := { empty with logicalPartitionPath := "/dev/block/mapper/system", isLogical := true }

/-- `boot` holds a handle and other fields, `closedSystem` has nothing to lose. -/
theorem failed_calls_unharmed_system :
    (InPlace.Unharmed bootFileSystem (bootPartition 4096) (InPlace.run bootFileSystem (fun _ _ => none)
        (bootPartition 4096) (.AsLogicalPartition "/dev/block/mapper/system")) ↔
      InPlace.NothingToLose (bootPartition 4096) (.AsLogicalPartition "/dev/block/mapper/system")) ∧
    (InPlace.Unharmed bootFileSystem closedSystem (InPlace.run bootFileSystem (fun _ _ => none)
        closedSystem (.copyAssign (bootPartition 4096))) ↔
      InPlace.NothingToLose closedSystem (.copyAssign (bootPartition 4096))) ∧
    (InPlace.Unharmed bootFileSystem closedSystem (InPlace.run bootFileSystem (fun _ _ => none)
        closedSystem (.AsLogicalPartition "/dev/block/mapper/system")) ↔
      InPlace.NothingToLose closedSystem (.AsLogicalPartition "/dev/block/mapper/system")) ∧
    InPlace.NothingToLose closedSystem (.AsLogicalPartition "/dev/block/mapper/system") :=
  ⟨failed_call_unharmed_iff (bootPartition 4096) (.AsLogicalPartition "/dev/block/mapper/system") rfl,
    failed_call_unharmed_iff closedSystem (.copyAssign (bootPartition 4096)) ⟨_, _, rfl, rfl, rfl⟩,
    failed_call_unharmed_iff closedSystem (.AsLogicalPartition "/dev/block/mapper/system") rfl, rfl, rfl, rfl, rfl⟩

/-- `boot` with an open handle is converted to a path that cannot be opened, and
assigned from an object whose device is gone. -/
theorem failed_calls_lose_boot :
    (let after := InPlace.run bootFileSystem (fun _ _ => none) (bootPartition 4096)
        (.AsLogicalPartition "/dev/block/mapper/system")
     after.2 = cannotCreate bootFileSystem ∧ after.1.isLogical = true ∧ after.1.name = ("system" : Str) ∧
       after.1.op = none ∧ ¬ InPlace.Unharmed bootFileSystem (bootPartition 4096) after) ∧
    (let other : Partition := { bootPartition 4096 with localIndex := 1 }
     let after := InPlace.run bootFileSystem (fun _ _ => none) (bootPartition 4096) (.copyAssign other)
     after.2 = cannotCreate bootFileSystem ∧ after.1.localIndex = 1 ∧ after.1.op = none ∧
       ¬ InPlace.Unharmed bootFileSystem (bootPartition 4096) after) := by
  have hboot : (bootPartition 4096).op ≠ none := nofun
  constructor
  · refine ⟨rfl, rfl, rfl, rfl, fun h => hboot ?_⟩
    rw [← h.same]
    rfl
  · refine ⟨rfl, rfl, rfl, fun h => hboot ?_⟩
    rw [← h.same]
    rfl

end Partition

end PartitionManager
