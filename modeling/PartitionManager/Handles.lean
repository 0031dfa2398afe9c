import PartitionManager.OpenPart
import PartitionManager.Library.Owned
import PartitionManager.Library.Run

namespace PartitionManager

/-- The block devices of the system. The other files that `OP_IGNTYPE` admits are left out. -/
structure DeviceTree where
  realpath : Str → Option Str
  size : Str → Nat
  sector_size : Str → UInt64
  canonical : ∀ path device, realpath path = some device → realpath device = some device

/-- What `openpart_open` stores in `sector_size`: the answer of `BLKSSZGET`, which it does
not ask for with `OP_IGNTYPE`. -/
def DeviceTree.handleSectorSize (devs : DeviceTree) (flags : UInt32) (device : Str) : UInt64 :=
  if flags &&& OP_IGNTYPE ≠ 0 then 4096 else devs.sector_size device

/-- An `openpart_t *`, or a member that no constructor has set. -/
inductive Ptr where
  | null
  | handle (h : Nat)
  | indeterminate
  deriving DecidableEq

def Ptr.held : Ptr → Option Nat
  | handle h => some h
  | _ => none

def Ptr.ofOption : Option Nat → Ptr
  | some h => handle h
  | none => null

/-- What `BasicPartition_t` needs to open its handle again, and the handle. -/
structure PartitionObject where
  isLogical : Bool := false
  logicalPartitionPath : Str := []
  op : Ptr := .null
  deriving DecidableEq

/-- A descriptor number in use: the handle it was opened for, and the device. -/
structure Descriptor where
  owner : Nat
  file : OpenFile
  deriving DecidableEq

/-- Handles are numbered in the order in which they were allocated. `closes` lists the
descriptor numbers given to `close`, with the handles they stood for, and `raw` the
handles that are in the caller's hands. -/
structure World where
  heap : Nat → Option OpenPartT := fun _ => none
  next : Nat := 0
  table : UInt32 → Option Descriptor := fun _ => none
  closes : List (UInt32 × Option Nat) := []
  objects : Nat → Option PartitionObject := fun _ => none
  raw : Nat → Bool := fun _ => false

/-- How the system answers `openpart_open`: the descriptor it opened may be closed
again because the allocation, `fstat` or an `ioctl` failed. -/
inductive OpenAnswer where
  | refused
  | dropped (fd : UInt32)
  | opened (fd : UInt32)
  deriving DecidableEq

namespace World

variable (devs : DeviceTree) (w : World)

def files : FdTable := fun fd => (w.table fd).map Descriptor.file

def close (fd : UInt32) : World :=
  { w with
    table := Function.update w.table fd none
    closes := (fd, (w.table fd).map Descriptor.owner) :: w.closes }

/-- A descriptor number that `open` may return. -/
def freeFd (fd : UInt32) : Bool := (w.table fd).isNone && fd < 0x80000000

def openFd (fd : UInt32) (device : Str) (oflags : UInt32) : World :=
  { w with
    table := Function.update w.table fd (some ⟨w.next, ⟨device, devs.size device, oflags⟩⟩)
    next := w.next + 1 }

def openpart_open (path : Option Str) (flags extra_oflags : UInt32) : OpenAnswer → Option (World × Ptr)
  | .refused => some (w, .null)
  | .dropped fd => do
    let device ← path >>= devs.realpath
    if w.freeFd fd then some ((w.openFd devs fd device (openFlags flags extra_oflags)).close fd, .null)
    else none
  | .opened fd => do
    let device ← path >>= devs.realpath
    if w.freeFd fd then
      let w' := w.openFd devs fd device (openFlags flags extra_oflags)
      some ({ w' with
        heap := Function.update w'.heap w.next
          (some { fd := fd, flags := flags, sector_size := devs.handleSectorSize flags device }) }, .handle w.next)
    else none

/-- The descriptor of a handle is closed unless its number is 0, and the handle is freed. -/
def free (h : Nat) (op : OpenPartT) : World :=
  let w' := if op.fd > 0 then w.close op.fd else w
  { w' with heap := Function.update w'.heap h none }

/-- A freed or indeterminate pointer has no defined result. -/
def openpart_close : Ptr → Option World
  | .null => some w
  | .indeterminate => none
  | .handle h => (w.heap h).map fun op => w.free h op

/-- The answer of a getter, once `load_info` can read the header: `info` says that it could. -/
def loaded (h : Nat) (info : Bool) : Option (World × Option OpenPartT) :=
  match w.heap h with
  | none => none
  | some op =>
    if op.info_loaded then some (w, some op)
    else if !info then some (w, none)
    else
      match w.table op.fd with
      | some d =>
        if d.file.readable then
          some ({ w with heap := Function.update w.heap h (some { op with info_loaded := true }) }, some op)
        else none
      | none => none

def openpart_get_part_path (h : Nat) (info : Bool) : Option (World × Option Str) := do
  let (w', op) ← w.loaded h info
  some (w', op >>= fun op => (w'.table op.fd).map fun d => d.file.device)

/-- Putting an object in its place. -/
def put (o : Nat) (obj : PartitionObject) : World := { w with objects := Function.update w.objects o (some obj) }

/-- `openpart_close(&op)`. -/
def closeOp (o : Nat) (obj : PartitionObject) : Option World := do
  let w' ← w.openpart_close obj.op
  some (w'.put o { obj with op := .null })

/-- `op = openpart_open(..)`. -/
def reopen (o : Nat) (obj : PartitionObject) (path : Option Str) (flags : UInt32) (answer : OpenAnswer) :
    Option World := do
  let (w', op) ← w.openpart_open devs path flags 0 answer
  some (w'.put o { obj with op := op })

/-- The path under which a copy opens the device of `src`. There is no defined result
for a handle whose path is null. -/
def copyPath (src : PartitionObject) (h : Nat) (info : Bool) : Option (World × Str) :=
  if src.isLogical then some (w, src.logicalPartitionPath)
  else do
    let (w', path) ← w.openpart_get_part_path h info
    path.map fun path => (w', path)

/-- The caller may pass null, a handle it holds, or the object's own. -/
def mayPass (obj : PartitionObject) : Ptr → Bool
  | .null => true
  | .handle h => w.raw h || obj.op = .handle h
  | .indeterminate => false

/-- The caller gives a handle away. -/
def give : Ptr → World
  | .handle h => { w with raw := Function.update w.raw h false }
  | _ => w

end World

/-- What a caller can do with partition objects and handles. `info` and `answer` are
the system's answers to the getters and to `openpart_open`. -/
inductive HandleCall where
  | openRaw (path : Str) (flags extra_oflags : UInt32) (answer : OpenAnswer)
  | closeRaw (h : Nat)
  | defaultCtor (o : Nat)
  | copyCtor (o other : Nat) (info : Bool) (answer : OpenAnswer)
  | moveCtor (o other : Nat)
  | argsCtor (o : Nat) (ops : List (Option Nat))
  | dataCtor (o : Nat) (op : Option Nat) (info : Bool) (answer : OpenAnswer)
  | pathCtor (o : Nat) (path : Str) (answer : OpenAnswer)
  | AsLogicalPartition (o : Nat) (path : Str) (answer : OpenAnswer)
  | set (o : Nat) (op : Option Nat)
  | setOpenPart (o : Nat) (op : Option Nat)
  | closeFdNow (o : Nat) (info : Bool)
  | copyAssign (o other : Nat) (info : Bool) (answer : OpenAnswer)
  | moveAssign (o other : Nat)
  | destroy (o : Nat)

namespace World

variable (devs : DeviceTree) (w : World)

/-- A constructor runs where no object is. -/
def vacant (o : Nat) : Bool := (w.objects o).isNone

/-- The end of a constructor that opens a handle: if that fails, there is no object. -/
def construct (o : Nat) (obj : PartitionObject) (path : Option Str) (answer : OpenAnswer) : Option World := do
  let (w', op) ← w.openpart_open devs path OP_RDWR 0 answer
  if op = .null then some w' else some (w'.put o { obj with op := op })

def copyCtor (o : Nat) (other : PartitionObject) (info : Bool) (answer : OpenAnswer) : Option World :=
  match other.op with
  | .null => some (w.put o { other with op := .null })
  | .indeterminate => none
  | .handle h => do
    let (w', path) ← w.copyPath other h info
    w'.construct devs o { other with op := .null } (some path) answer

def moveCtor (o other : Nat) (obj : PartitionObject) : World := (w.put o obj).put other {}

/-- The variadic constructor: every argument that is a handle sets `op`. -/
def argsCtor (o : Nat) (ops : List (Option Nat)) : World :=
  let op := ops.foldl (fun _ op => Ptr.ofOption op) .indeterminate
  ops.foldl (fun w op => w.give (.ofOption op)) (w.put o { op := op })

def dataCtor (o : Nat) (op : Option Nat) (info : Bool) (answer : OpenAnswer) : Option World :=
  match op with
  | none => some (w.put o {})
  | some h => do
    let (w', path) ← w.openpart_get_part_path h info
    w'.construct devs o {} path answer

def pathCtor (o : Nat) (path : Str) (answer : OpenAnswer) : Option World :=
  w.construct devs o { isLogical := true, logicalPartitionPath := path } (some path) answer

def AsLogicalPartition (o : Nat) (obj : PartitionObject) (path : Str) (answer : OpenAnswer) : Option World := do
  let obj := { obj with isLogical := true, logicalPartitionPath := path }
  let w' ← w.closeOp o obj
  w'.reopen devs o { obj with op := .null } (some path) OP_RDWR answer

def set (o : Nat) (obj : PartitionObject) (op : Ptr) : World :=
  if obj.isLogical then w else (w.put o { obj with op := op }).give op

def setOpenPart (o : Nat) (obj : PartitionObject) (op : Ptr) : Option World :=
  if obj.isLogical then some w
  else do
    let w' ← w.closeOp o obj
    some ((w'.put o { obj with op := op }).give op)

/-- `close(-1)` of a null handle or an unreadable header closes nothing. -/
def closeFdNow (obj : PartitionObject) (info : Bool) : Option World :=
  match obj.op with
  | .null => some w
  | .indeterminate => none
  | .handle h => do
    let (w', op) ← w.loaded h info
    match op with
    | none => some w'
    | some op => some (w'.close op.fd)

def copyAssign (o : Nat) (obj other : PartitionObject) (info : Bool) (answer : OpenAnswer) : Option World := do
  let obj := { other with op := obj.op }
  let w' ← w.closeOp o obj
  match other.op with
  | .null => some w'
  | .indeterminate => none
  | .handle h => do
    let (w'', path) ← w'.copyPath other h info
    w''.reopen devs o { obj with op := .null } (some path) O_RDWR answer

def moveAssign (o other : Nat) (obj source : PartitionObject) : Option World := do
  let w' ← w.closeOp o obj
  some ((w'.put o source).put other {})

def destroy (o : Nat) (obj : PartitionObject) : Option World := do
  let w' ← w.openpart_close obj.op
  some { w' with objects := Function.update w'.objects o none }

/-- One call. The assignments do nothing if an object is given to itself. -/
def step : HandleCall → Option World
  | .openRaw path flags extra_oflags answer => do
    let (w', op) ← w.openpart_open devs (some path) flags extra_oflags answer
    match op with
    | .handle h => some { w' with raw := Function.update w'.raw h true }
    | _ => some w'
  | .closeRaw h =>
    if w.raw h then do
      let w' ← w.openpart_close (.handle h)
      some (w'.give (.handle h))
    else none
  | .defaultCtor o => if w.vacant o then some (w.put o {}) else none
  | .copyCtor o other info answer => do
    let src ← w.objects other
    if w.vacant o then w.copyCtor devs o src info answer else none
  | .moveCtor o other => do
    let src ← w.objects other
    if w.vacant o then some (w.moveCtor o other src) else none
  | .argsCtor o ops =>
    if w.vacant o && ops.length ≤ 4 && ops.all (fun op => w.mayPass {} (.ofOption op)) then some (w.argsCtor o ops)
    else none
  | .dataCtor o op info answer =>
    if w.vacant o && w.mayPass {} (.ofOption op) then w.dataCtor devs o op info answer else none
  | .pathCtor o path answer => if w.vacant o then w.pathCtor devs o path answer else none
  | .AsLogicalPartition o path answer => do
    let obj ← w.objects o
    w.AsLogicalPartition devs o obj path answer
  | .set o op => do
    let obj ← w.objects o
    if w.mayPass obj (.ofOption op) then some (w.set o obj (.ofOption op)) else none
  | .setOpenPart o op => do
    let obj ← w.objects o
    if w.mayPass obj (.ofOption op) then w.setOpenPart o obj (.ofOption op) else none
  | .closeFdNow o info => do
    let obj ← w.objects o
    w.closeFdNow obj info
  | .copyAssign o other info answer => do
    let obj ← w.objects o
    let src ← w.objects other
    if o = other then some w else w.copyAssign devs o obj src info answer
  | .moveAssign o other => do
    let obj ← w.objects o
    let src ← w.objects other
    if o = other then some w else w.moveAssign o other obj src
  | .destroy o => do
    let obj ← w.objects o
    w.destroy o obj

/-- A call as a step of a run; it shows nothing. -/
def callStep (w : World) (c : HandleCall) : Option (World × Unit) := (w.step devs c).map fun w' => (w', ())

end World

end PartitionManager
