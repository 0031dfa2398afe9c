import PartitionManager.Metadata
import PartitionManager.PartNames
import PartitionManager.Transfers

namespace PartitionManager

def ENOMEM : Errno := 12

/-- `struct openpart`. -/
structure InfoHandle extends PartHandle where
  info : PartInfo := {}
  deriving DecidableEq

/-- What the calls ask of the system: which blocks `malloc` grants, what `readlink` and `fstat`
say of a descriptor (`none` where they fail), and the device under the handle. -/
structure InfoWorld (abi : Abi) (lfs : FileOffsetBits) where
  malloc : Nat → Bool
  path_from_fd : UInt32 → Option Str
  isBlock : UInt32 → Option Bool
  medium : Medium
  uuid_unparse : List UInt8 → Str
  sys : BlockDevices
  loadErrno : Errno
  linkErrno : Errno

/-- The kinds of `openpart_get` that have a getter of their own. -/
inductive InfoKind where
  | size
  | uuid
  | label
  | fstype
  | sector_size
  | is_blkdev
  | part_name
  | part_path
  | disk_path
  | fd
  deriving DecidableEq

/-- The `OP_INFO_` constants. -/
def InfoKind.code : InfoKind → Int
  | .size => 0x1
  | .uuid => 0x2
  | .label => 0x3
  | .fstype => 0x4
  | .sector_size => 0x5
  | .is_blkdev => 0x6
  | .part_name => 0x7
  | .part_path => 0x8
  | .disk_path => 0x9
  | .fd => 0xA

def InfoKind.all : List InfoKind :=
  [.size, .uuid, .label, .fstype, .sector_size, .is_blkdev, .part_name, .part_path, .disk_path, .fd]

/-- The `case` that a value of `info` selects. -/
def infoKindOf (info : Int) : Option InfoKind := InfoKind.all.find? fun kind => kind.code = info

inductive InfoValue where
  | number (n : UInt64)
  | int (n : Int)
  | text (s : Str)
  | bytes (s : List UInt8)
  deriving DecidableEq

/-- `QUICK_GET_CONTROLS`: whether the call goes on. -/
def InfoWorld.controls {abi : Abi} {lfs : FileOffsetBits} (w : InfoWorld abi lfs) (op : InfoHandle) :
    InfoHandle × Bool :=
  if op.info.info_loaded then (op, true)
  else
    match w.medium.load_info w.uuid_unparse op.info with
    | (info, false) => ({ op with info, err := w.loadErrno }, false)
    | (info, true) => ({ op with info := { info with info_loaded := true } }, true)

section

variable {abi : Abi} {lfs : FileOffsetBits} (w : InfoWorld abi lfs)

/-- A call that begins with `QUICK_GET_CONTROLS(op, ret)`. -/
def InfoWorld.quickGet {α : Type} (ret : α) (body : InfoHandle → InfoHandle × α) (op : Option InfoHandle) :
    Option InfoHandle × α :=
  match op with
  | none => (none, ret)
  | some op =>
    match w.controls op with
    | (op, false) => (some op, ret)
    | (op, true) => (some (body op).1, (body op).2)

namespace InfoWorld

def openpart_get_size (op : Option InfoHandle) : Option InfoHandle × UInt64 :=
  w.quickGet UINT64_MAX (fun op => (op, op.size)) op

def openpart_get_uuid (op : Option InfoHandle) : Option InfoHandle × Option Str :=
  w.quickGet none (fun op => (op, some op.info.uuid)) op

def openpart_get_label (op : Option InfoHandle) : Option InfoHandle × Option (List UInt8) :=
  w.quickGet none (fun op => (op, some op.info.label)) op

def openpart_get_fstype (op : Option InfoHandle) : Option InfoHandle × Option Str :=
  w.quickGet none (fun op => (op, some op.info.fstype)) op

def openpart_get_sector_size (op : Option InfoHandle) : Option InfoHandle × UInt64 :=
  w.quickGet UINT64_MAX (fun op => (op, op.sector_size)) op

def openpart_get_fd (op : Option InfoHandle) : Option InfoHandle × Int :=
  w.quickGet (-1) (fun op => (op, op.fd.toInt32.toInt)) op

def openpart_get_is_blkdev (op : Option InfoHandle) : Option InfoHandle × Int :=
  w.quickGet (-1)
    (fun op =>
      if op.flags &&& OP_IGNTYPE ≠ 0 then
        match w.isBlock op.fd with
        | none => (op, 0)
        | some isBlock => (op, if isBlock then 1 else 0)
      else (op, 1))
    op

def openpart_get_part_path (op : Option InfoHandle) : Option InfoHandle × Option Str :=
  w.quickGet none (fun op => (op, w.path_from_fd op.fd)) op

/-- These two do not begin with `QUICK_GET_CONTROLS`. -/
def openpart_get_part_name (op : Option InfoHandle) : Outcome (Option Str) :=
  PartitionManager.openpart_get_part_name abi lfs w.sys ((op.map fun op => op.sector_size).getD 0)
    (op.map fun op => w.path_from_fd op.fd)

def openpart_get_disk_path (op : Option InfoHandle) : Outcome (Option Str) :=
  match op with
  | none => .ok none
  | some op =>
    match w.path_from_fd op.fd with
    | none => .error (.undefined .nullDereference)
    | some path => .ok (w.sys.get_parent_disk path)

/-- `malloc` of the result, and what is put into it. -/
def give (op : InfoHandle) (size : Nat) (value : InfoValue) : InfoHandle × Outcome (Option InfoValue) :=
  if w.malloc size then (op, .ok (some value)) else ({ op with err := ENOMEM }, .ok none)

/-- The `switch` of `openpart_get`. -/
def answer (kind : InfoKind) (op : InfoHandle) : InfoHandle × Outcome (Option InfoValue) :=
  match kind with
  | .size => w.give op 8 (.number op.size)
  | .uuid => w.give op 37 (.text op.info.uuid)
  | .label => w.give op 256 (.bytes op.info.label)
  | .fstype => w.give op 32 (.text op.info.fstype)
  | .sector_size => w.give op 8 (.number op.sector_size)
  | .is_blkdev => w.give op 4 (.int 1)
  | .part_name =>
    if !w.malloc PATH_MAX then ({ op with err := ENOMEM }, .ok none)
    else
      match w.path_from_fd op.fd with
      | none => ({ op with err := w.linkErrno }, .ok none)
      | some path =>
        match (find_partition_name abi lfs w.sys op.sector_size path).result with
        | .failed => ({ op with err := ENOENT }, .ok none)
        | .found name_out => (op, .ok (some (.text (bytesText (name_out.takeWhile (· ≠ 0))))))
        | .undefined => (op, .error (.undefined .indexOutOfRange))
  | .part_path =>
    match w.path_from_fd op.fd with
    | none => ({ op with err := w.linkErrno }, .ok none)
    | some path => w.give op (path.length + 1) (.text path)
  | .disk_path =>
    match w.openpart_get_disk_path (some op) with
    | .error e => (op, .error e)
    | .ok none => ({ op with err := w.linkErrno }, .ok none)
    | .ok (some path) => w.give op (path.length + 1) (.text path)
  | .fd => w.give op 4 (.int op.fd.toInt32.toInt)

def openpart_get (op : Option InfoHandle) (info : Int) : Option InfoHandle × Outcome (Option InfoValue) :=
  w.quickGet (.ok none)
    (fun op =>
      match infoKindOf info with
      | some kind => w.answer kind op
      | none => ({ op with err := EINVAL }, .ok none))
    op

/-- What the getter of a kind says, its failure answer taken for none. -/
def direct (kind : InfoKind) (op : Option InfoHandle) : Outcome (Option InfoValue) :=
  let number (n : UInt64) : Outcome (Option InfoValue) := .ok (if n = UINT64_MAX then none else some (.number n))
  let int (n : Int) : Outcome (Option InfoValue) := .ok (if n = -1 then none else some (.int n))
  match kind with
  | .size => number (w.openpart_get_size op).2
  | .uuid => .ok ((w.openpart_get_uuid op).2.map .text)
  | .label => .ok ((w.openpart_get_label op).2.map .bytes)
  | .fstype => .ok ((w.openpart_get_fstype op).2.map .text)
  | .sector_size => number (w.openpart_get_sector_size op).2
  | .is_blkdev => int (w.openpart_get_is_blkdev op).2
  | .part_name => (w.openpart_get_part_name op).map fun name => name.map .text
  | .part_path => .ok ((w.openpart_get_part_path op).2.map .text)
  | .disk_path => (w.openpart_get_disk_path op).map fun path => path.map .text
  | .fd => int (w.openpart_get_fd op).2

/-- The information is there, or can be read from the device. -/
def Loads (op : InfoHandle) : Prop :=
  op.info.info_loaded = true ∨ (w.medium.load_info w.uuid_unparse op.info).2 = true

/-- `find_partition_name` has a name for the partition. -/
def Named (op : InfoHandle) : Prop :=
  ∃ path name_out, w.path_from_fd op.fd = some path ∧
    (find_partition_name abi lfs w.sys op.sector_size path).result = .found name_out

/-- When both interfaces say the same about a kind. -/
def InfoFits (op : InfoHandle) : InfoKind → Prop
  | .size => w.Loads op → (w.malloc 8 = true ↔ op.size ≠ UINT64_MAX)
  | .uuid => w.Loads op → w.malloc 37 = true
  | .label => w.Loads op → w.malloc 256 = true
  | .fstype => w.Loads op → w.malloc 32 = true
  | .sector_size => w.Loads op → (w.malloc 8 = true ↔ op.sector_size ≠ UINT64_MAX)
  | .is_blkdev => w.Loads op →
      w.malloc 4 = true ∧ (op.flags &&& OP_IGNTYPE = 0 ∨ w.isBlock op.fd = some true)
  | .part_name => w.Named op → w.Loads op ∧ w.malloc PATH_MAX = true
  | .part_path => w.Loads op → ∀ path, w.path_from_fd op.fd = some path → w.malloc (path.length + 1) = true
  | .disk_path => ∀ path disk, w.path_from_fd op.fd = some path → w.sys.get_parent_disk path = some disk →
      w.Loads op ∧ w.malloc (disk.length + 1) = true
  | .fd => w.Loads op → (w.malloc 4 = true ↔ op.fd.toInt32.toInt ≠ -1)

end InfoWorld

/-- The value of a call that succeeds. -/
def succeeded {α : Type} : Outcome (Option α) → Option α
  | .ok value => value
  | .error _ => none

/-- `openpart_get` succeeds exactly when the getter does, with the same value. -/
def InfoAgree (op : InfoHandle) (kind : InfoKind) : Prop :=
  ∀ value, succeeded (w.openpart_get (some op) kind.code).2 = some value ↔
    succeeded (w.direct kind (some op)) = some value

end

section

variable {abi : Abi} {lfs : FileOffsetBits} {w : InfoWorld abi lfs} {op : InfoHandle}

@[simp] theorem infoKindOf_code (kind : InfoKind) : infoKindOf kind.code = some kind := by
  cases kind <;> decide

@[simp] theorem succeeded_ok {α : Type} (value : Option α) : succeeded (.ok value) = value := rfl

theorem infoAgree_iff_eq (kind : InfoKind) : InfoAgree w op kind ↔
    succeeded (w.openpart_get (some op) kind.code).2 = succeeded (w.direct kind (some op)) :=
  ⟨Option.ext, fun h _ => by rw [h]⟩

namespace InfoWorld

theorem controls_iff : (w.controls op).2 = true ↔ w.Loads op := by
  unfold controls Loads
  by_cases hloaded : op.info.info_loaded = true
  · simp [hloaded]
  · rw [if_neg hloaded]
    generalize w.medium.load_info w.uuid_unparse op.info = read
    obtain ⟨info, ok⟩ := read
    cases ok <;> simp [hloaded]

theorem controls_handle (h : w.Loads op) : (w.controls op).1.toPartHandle = op.toPartHandle := by
  have hok := controls_iff.mpr h
  unfold controls at hok ⊢
  by_cases hloaded : op.info.info_loaded = true
  · rw [if_pos hloaded]
  · rw [if_neg hloaded] at hok ⊢
    revert hok
    generalize w.medium.load_info w.uuid_unparse op.info = read
    obtain ⟨info, ok⟩ := read
    cases ok <;> simp

variable {α : Type} {ret : α} {body : InfoHandle → InfoHandle × α}

/-- A call goes on with the same handle but for its information. -/
theorem quickGet_loads (h : w.Loads op) : (w.quickGet ret body (some op)).2 = (body (w.controls op).1).2 := by
  have hok := controls_iff.mpr h
  unfold quickGet
  generalize hcontrols : w.controls op = controls at hok ⊢
  obtain ⟨loaded, ok⟩ := controls
  cases hok
  simp only [hcontrols]

theorem quickGet_fails (h : ¬ w.Loads op) : (w.quickGet ret body (some op)).2 = ret := by
  have hok := mt controls_iff.mp h
  unfold quickGet
  generalize hcontrols : w.controls op = controls at hok ⊢
  obtain ⟨loaded, ok⟩ := controls
  cases ok with
  | false => simp only [hcontrols]
  | true => exact absurd rfl hok

theorem succeeded_give (size : Nat) (value : InfoValue) :
    succeeded (w.give op size value).2 = if w.malloc size then some value else none := by
  unfold give
  split
  next => rfl
  next => rfl

/-- The name that libopenpart has for the partition. -/
def partName (w : InfoWorld abi lfs) (op : InfoHandle) : Option InfoValue :=
  (w.path_from_fd op.fd).bind fun path =>
    match (find_partition_name abi lfs w.sys op.sector_size path).result with
    | .found name_out => some (.text (bytesText (name_out.takeWhile (· ≠ 0))))
    | _ => none

def diskPath (w : InfoWorld abi lfs) (op : InfoHandle) : Option Str :=
  (w.path_from_fd op.fd).bind w.sys.get_parent_disk

theorem named_iff : w.Named op ↔ w.partName op ≠ none := by
  unfold Named partName
  cases hpath : w.path_from_fd op.fd with
  | none => simp
  | some path =>
    cases hname : (find_partition_name abi lfs w.sys op.sector_size path).result with
    | failed => simp [hname]
    | undefined => simp [hname]
    | found name_out => simp [hname]

theorem direct_part_name : succeeded (w.direct .part_name (some op)) = w.partName op := by
  unfold direct openpart_get_part_name PartitionManager.openpart_get_part_name partName
  cases hpath : w.path_from_fd op.fd with
  | none => simp [hpath, succeeded, Except.map]
  | some path =>
    cases hname : (find_partition_name abi lfs w.sys op.sector_size path).result with
    | failed => simp [hpath, hname, succeeded, Except.map]
    | undefined => simp [hpath, hname, succeeded, Except.map]
    | found name_out => simp [hpath, hname, succeeded, Except.map]

theorem answer_part_name :
    succeeded (w.answer .part_name op).2 = if w.malloc PATH_MAX then w.partName op else none := by
  unfold answer partName
  by_cases hmalloc : w.malloc PATH_MAX = true
  · cases hpath : w.path_from_fd op.fd with
    | none => simp [hmalloc, succeeded]
    | some path =>
      cases hname : (find_partition_name abi lfs w.sys op.sector_size path).result with
      | failed => simp [hmalloc, hname, succeeded]
      | undefined => simp [hmalloc, hname, succeeded]
      | found name_out => simp [hmalloc, hname, succeeded]
  · simp [hmalloc, succeeded]

theorem direct_disk_path : succeeded (w.direct .disk_path (some op)) = (w.diskPath op).map .text := by
  unfold direct openpart_get_disk_path diskPath
  cases hpath : w.path_from_fd op.fd with
  | none => simp [hpath, succeeded, Except.map]
  | some path => simp [hpath, succeeded, Except.map]

theorem answer_disk_path : succeeded (w.answer .disk_path op).2 =
    (w.diskPath op).bind fun disk => if w.malloc (disk.length + 1) then some (.text disk) else none := by
  unfold answer openpart_get_disk_path diskPath
  cases hpath : w.path_from_fd op.fd with
  | none => simp [hpath, succeeded]
  | some path =>
    cases hdisk : w.sys.get_parent_disk path with
    | none => simp [hpath, hdisk, succeeded]
    | some disk => simp [hpath, hdisk, succeeded_give]

theorem diskPath_forall {Q : Str → Prop} :
    (∀ path disk, w.path_from_fd op.fd = some path → w.sys.get_parent_disk path = some disk → Q disk) ↔
      ∀ disk, w.diskPath op = some disk → Q disk := by
  unfold diskPath
  constructor
  · intro h disk hdisk
    obtain ⟨path, hpath, hdisk⟩ := Option.bind_eq_some_iff.mp hdisk
    exact h path disk hpath hdisk
  · intro h path disk hpath hdisk
    exact h disk (Option.bind_eq_some_iff.mpr ⟨path, hpath, hdisk⟩)

/-- A granted block against a getter that has no word for failure. -/
theorem grant_iff {granted : Bool} {value : InfoValue} :
    (if granted then some value else none) = some value ↔ granted = true := by
  cases granted <;> simp

/-- A granted block against a getter that answers failure by a value. -/
theorem grant_sentinel_iff {granted : Bool} {sentinel : Prop} [Decidable sentinel] {value : InfoValue} :
    ((if granted = true then some value else none) = if sentinel then none else some value) ↔
      (granted = true ↔ ¬ sentinel) := by
  cases granted with
  | false => by_cases h : sentinel <;> simp [h]
  | true => by_cases h : sentinel <;> simp [h]

theorem agree_of_not_loads (h : ¬ w.Loads op) (kind : InfoKind) :
    InfoAgree w op kind ↔ w.InfoFits op kind := by
  rw [infoAgree_iff_eq]
  unfold openpart_get
  rw [quickGet_fails h]
  cases kind with
  | part_name =>
    rw [direct_part_name]
    simp only [InfoFits, named_iff, h, false_and, imp_false, not_not]
    exact eq_comm
  | disk_path =>
    rw [direct_disk_path]
    unfold InfoFits
    rw [diskPath_forall]
    cases hdisk : w.diskPath op with
    | none => simp [succeeded]
    | some disk => simp [succeeded, h]
  | _ =>
    simp only [InfoFits, h, false_imp_iff, iff_true, direct, openpart_get_size, openpart_get_uuid,
      openpart_get_label, openpart_get_fstype, openpart_get_sector_size, openpart_get_is_blkdev,
      openpart_get_part_path, openpart_get_fd, quickGet_fails h]
    rfl

theorem agree_of_loads (h : w.Loads op) (kind : InfoKind) : InfoAgree w op kind ↔ w.InfoFits op kind := by
  have hhandle := controls_handle h
  rw [infoAgree_iff_eq]
  unfold openpart_get
  rw [quickGet_loads h]
  simp only [infoKindOf_code]
  generalize hloaded : (w.controls op).1 = loaded at hhandle
  have hsize : loaded.size = op.size := congrArg PartHandle.size hhandle
  have hsector : loaded.sector_size = op.sector_size := congrArg (fun op => op.sector_size) hhandle
  have hfd : loaded.fd = op.fd := congrArg (fun op => op.fd) hhandle
  have hflags : loaded.flags = op.flags := congrArg (fun op => op.flags) hhandle
  cases kind with
  | size =>
    simp only [answer, succeeded_give, direct, openpart_get_size, quickGet_loads h, hloaded, hsize, InfoFits, h,
      true_imp_iff, succeeded_ok]
    apply grant_sentinel_iff
  | uuid | label | fstype =>
    simp only [answer, succeeded_give, direct, openpart_get_uuid, openpart_get_label, openpart_get_fstype,
      quickGet_loads h, hloaded, InfoFits, h, true_imp_iff, succeeded_ok, Option.map_some]
    exact grant_iff
  | sector_size =>
    simp only [answer, succeeded_give, direct, openpart_get_sector_size, quickGet_loads h, hloaded, hsector,
      InfoFits, h, true_imp_iff, succeeded_ok]
    apply grant_sentinel_iff
  | is_blkdev =>
    simp only [answer, succeeded_give, direct, openpart_get_is_blkdev, quickGet_loads h, hloaded, hflags, hfd,
      InfoFits, h, true_imp_iff, succeeded_ok]
    by_cases hflag : op.flags &&& OP_IGNTYPE = 0
    · cases w.malloc 4 <;> simp [hflag]
    · cases hblock : w.isBlock op.fd with
      | none => cases w.malloc 4 <;> simp [hflag]
      | some isBlock => cases isBlock <;> cases w.malloc 4 <;> simp [hflag]
  | part_name =>
    have hname : w.partName loaded = w.partName op := by
      unfold partName
      rw [hfd, hsector]
    rw [answer_part_name, direct_part_name, hname]
    simp only [InfoFits, named_iff, h, true_and]
    by_cases hmalloc : w.malloc PATH_MAX = true
    · simp [hmalloc]
    · simp only [hmalloc]
      exact eq_comm.trans (by simp)
  | part_path =>
    simp only [answer, direct, openpart_get_part_path, quickGet_loads h, hloaded, hfd, InfoFits, h, true_imp_iff]
    cases hpath : w.path_from_fd op.fd with
    | none => simp
    | some path =>
      simp only [succeeded_give, succeeded_ok, Option.map_some, Option.some.injEq, forall_eq']
      exact grant_iff
  | disk_path =>
    have hdisk : w.diskPath loaded = w.diskPath op := by
      unfold diskPath
      rw [hfd]
    rw [answer_disk_path, direct_disk_path, hdisk]
    unfold InfoFits
    rw [diskPath_forall]
    cases w.diskPath op with
    | none => simp
    | some disk =>
      simp only [Option.bind_some, Option.map_some, Option.some.injEq, forall_eq', h, true_and]
      exact grant_iff
  | fd =>
    simp only [answer, succeeded_give, direct, openpart_get_fd, quickGet_loads h, hloaded, hfd, InfoFits, h,
      true_imp_iff, succeeded_ok]
    apply grant_sentinel_iff

end InfoWorld

end

/-- The two interfaces agree on a kind in exactly these cases. -/
theorem info_interfaces_agree_iff {abi : Abi} {lfs : FileOffsetBits} (w : InfoWorld abi lfs) (op : InfoHandle)
    (kind : InfoKind) : InfoAgree w op kind ↔ w.InfoFits op kind := by
  by_cases h : w.Loads op
  · exact InfoWorld.agree_of_loads h kind
  · exact InfoWorld.agree_of_not_loads h kind

/-- A regular file, on which every call succeeds. -/
def imageFile : InfoWorld .arm64_v8a .bits64 where
  malloc _ := true
  path_from_fd _ := some "/sdcard/boot.img"
  isBlock _ := some false
  medium := .reading [] (fun _ => 4096) fun _ _ => 0
  uuid_unparse _ := []
  sys := twinDevices
  loadErrno := 0
  linkErrno := 0

/-- A handle on it, opened with `OP_IGNTYPE`. -/
def imageHandle : InfoHandle :=
  { fd := 5, flags := OP_RDONLY ||| OP_IGNTYPE, sector_size := 4096, size := 4096,
    info := { info_loaded := true } }

/-- One interface calls it a block device, the other does not. -/
theorem image_is_blkdev_differs :
    succeeded (imageFile.openpart_get (some imageHandle) InfoKind.is_blkdev.code).2 = some (.int 1) ∧
      succeeded (imageFile.direct .is_blkdev (some imageHandle)) = some (.int 0) ∧
      ¬ InfoAgree imageFile imageHandle .is_blkdev := by
  have hget : succeeded (imageFile.openpart_get (some imageHandle) InfoKind.is_blkdev.code).2 = some (.int 1) := by
    rfl
  have hdirect : succeeded (imageFile.direct .is_blkdev (some imageHandle)) = some (.int 0) := by
    rfl
  refine ⟨hget, hdirect, ?_⟩
  intro h
  have hone := (h (.int 1)).mp hget
  rw [hdirect] at hone
  cases hone

end PartitionManager
